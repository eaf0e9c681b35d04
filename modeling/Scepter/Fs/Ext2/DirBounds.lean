import Scepter.Fs.Ext2.Dirents
import Scepter.Lib.Peek

/-! The bytes of the block buffer that the five walks over a directory touch: ext2_lookup,
ext2_add_dirent and ext2_remove_dirent of ext2_dir.c, ext2_vfs_readdir and ext2_dir_is_empty
of ext2.c. -/
namespace Scepter.Ext2.DirBounds

def BUF_SIZE : Nat := 4096

inductive Load
  | failed
  | sparse
  | block (buf : Buf)

structure Met where
  buf : Buf
  off : Nat
  prev : Option Nat

def corrupt (geo : Geometry) (buf : Buf) (off : Nat) : Bool :=
  recLen buf off < 8 || geo.blockSize < off + recLen buf off

/- The loop over the entries of a block: the entries it comes to and whether it left the
function. No result is a loop that goes on for more than `fuel` entries. -/
def walkBlock (geo : Geometry) (hit : Buf → Nat → Bool) (buf : Buf) :
    Nat → Nat → Option Nat → Option (List Met × Bool)
  | 0, _, _ => none
  | fuel + 1, off, prev =>
    if geo.blockSize < off + 8 then some ([], false)
    else if corrupt geo buf off || hit buf off then some ([⟨buf, off, prev⟩], true)
    else (walkBlock geo hit buf fuel (off + recLen buf off) (some off)).map fun rest =>
      (⟨buf, off, prev⟩ :: rest.1, rest.2)

def walkDir (geo : Geometry) (content : Nat → Load) (hit : Buf → Nat → Bool) :
    List Nat → Option (List Met × Bool)
  | [] => some ([], false)
  | b :: rest =>
    match content b with
    | .failed => some ([], true)
    | .sparse => walkDir geo content hit rest
    | .block buf => (walkBlock geo hit buf (geo.blockSize + 1) 0 none).bind fun here =>
      if here.2 then some here
      else (walkDir geo content hit rest).map fun later => (here.1 ++ later.1, later.2)

/-! ## What is touched at an entry -/

def header (off : Nat) : List Nat := List.range' off 8

def text (name : List Byte) : Buf := fun i => name.getD i 0

def compared (buf : Buf) (off : Nat) (other : Buf) (k : Nat) : List Nat :=
  (Peek.same (off + 8) other 0 k buf).2

def lookupTouches (geo : Geometry) (name : List Byte) (e : Met) : List Nat :=
  header e.off ++
    if corrupt geo e.buf e.off then []
    else if direntIno e.buf e.off ≠ 0 ∧ nameLen e.buf e.off = name.length then
      compared e.buf e.off (text name) name.length
    else []

/- The deleted entry is written, and the entry behind it or before it is read: their bytes
are not among those just written. -/
def deleteTouches (geo : Geometry) (e : Met) : List Nat :=
  let next := e.off + recLen e.buf e.off
  header e.off ++
    if next < geo.blockSize then
      header next ++
        if direntIno e.buf next = 0 ∧ next + recLen e.buf next ≤ geo.blockSize then
          [e.off + 4, e.off + 5]
        else []
    else
      match e.prev with
      | some p => header p ++ if direntIno e.buf p = 0 then [p + 4, p + 5] else []
      | none => []

def removeTouches (geo : Geometry) (name : List Byte) (e : Met) : List Nat :=
  lookupTouches geo name e ++
    if !corrupt geo e.buf e.off && named e.buf name e.off then deleteTouches geo e else []

def written (off nlen : Nat) : List Nat := List.range' off (8 + nlen)

def insertTouches (nlen : Nat) (e : Met) : List Nat :=
  let need := ext2RecLen nlen
  if need + 8 ≤ recLen e.buf e.off then written (e.off + need) 0 ++ written e.off nlen
  else written e.off nlen

def addTouches (geo : Geometry) (name : List Byte) (e : Met) : List Nat :=
  header e.off ++
    if !corrupt geo e.buf e.off && freeEntry (ext2RecLen name.length) e.buf e.off then
      insertTouches name.length e
    else []

def growTouches (geo : Geometry) (nlen : Nat) : List Nat :=
  List.range' 0 geo.blockSize ++ written 0 nlen

def deindexTouches (geo : Geometry) (content : Nat → Load) : List Nat :=
  if !hasDirIndex geo then []
  else
    match content 0 with
    | .block buf =>
      [4, 5, 6, 8] ++ [18, 20, 21] ++ [16, 17] ++ List.range' 24 8 ++
        if indexRoot geo buf then
          List.range' 12 4 ++ List.range' 0 geo.blockSize ++ written 0 1 ++
            written (ext2RecLen 1) 2 ++
            if ext2RecLen 1 + ext2RecLen 2 < geo.blockSize then
              written (ext2RecLen 1 + ext2RecLen 2) 0
            else []
        else []
    | _ => []

def emptyTouches (geo : Geometry) (e : Met) : List Nat :=
  header e.off ++
    if corrupt geo e.buf e.off || direntIno e.buf e.off == 0 then []
    else
      (if nameLen e.buf e.off = 1 then compared e.buf e.off (text [dot]) 1 else []) ++
        if nameLen e.buf e.off = 2 then compared e.buf e.off (text [dot, dot]) 2 else []

/-! ## readdir -/

/- The position after one round of the loop; none when the function returns. -/
def readdirStep (geo : Geometry) (content : Nat → Load) (size pos : Nat) : Option Nat :=
  if size ≤ pos then none
  else
    match content (pos / geo.blockSize) with
    | .failed => none
    | .sparse => some (u32 ((pos / geo.blockSize + 1) * geo.blockSize))
    | .block buf =>
      let off := pos % geo.blockSize
      if corrupt geo buf off then none
      else if direntIno buf off = 0 then some (u32 (pos + recLen buf off))
      else none

def readdirTouches (geo : Geometry) (content : Nat → Load) (size pos : Nat) : List Nat :=
  if size ≤ pos then []
  else
    match content (pos / geo.blockSize) with
    | .block buf =>
      let off := pos % geo.blockSize
      header off ++
        if corrupt geo buf off || direntIno buf off == 0 then []
        else List.range' (off + 8) (nameLen buf off)
    | _ => []

def readdirAt (geo : Geometry) (content : Nat → Load) (size pos : Nat) : Nat → Option Nat
  | 0 => some pos
  | k + 1 => (readdirAt geo content size pos k).bind (readdirStep geo content size)

/-! ## The calls -/

inductive DirCall
  | lookup (name : List Byte)
  | add (name : List Byte)
  | remove (name : List Byte)
  | isEmpty
  | readdir (pos : BitVec 32)

/-- A directory: the size in its inode and its blocks. `edited` are the blocks as the loop
of ext2_add_dirent finds them, after ext2_deindex_dir. -/
structure Content where
  size : Nat
  small : size < 2 ^ 32
  blocks : Nat → Load
  edited : Nat → Load

def nameOk (name : List Byte) : Bool := 0 < name.length && name.length ≤ 255

def DirCall.walk (geo : Geometry) (dir : Content) : DirCall → Option (List Met × Bool)
  | .lookup name | .remove name =>
    if nameOk name then
      walkDir geo dir.blocks (fun buf => named buf name) (List.range (blocksOf geo dir.size))
    else some ([], true)
  | .add name =>
    if nameOk name then
      walkDir geo dir.edited (freeEntry (ext2RecLen name.length))
        (List.range (blocksOf geo dir.size))
    else some ([], true)
  | .isEmpty => walkDir geo dir.blocks notDots (List.range (blocksOf geo dir.size))
  | .readdir _ => some ([], true)

def DirCall.touchesEntry (geo : Geometry) (e : Met) : DirCall → List Nat
  | .lookup name => lookupTouches geo name e
  | .add name => addTouches geo name e
  | .remove name => removeTouches geo name e
  | .isEmpty => emptyTouches geo e
  | .readdir _ => []

def DirCall.Terminates (geo : Geometry) (dir : Content) : DirCall → Prop
  | .readdir pos => ∃ k, readdirAt geo dir.blocks dir.size pos.toNat k = none
  | call => call.walk geo dir ≠ none

def DirCall.Touches (geo : Geometry) (dir : Content) (call : DirCall) (a : Nat) : Prop :=
  (∃ met left e, call.walk geo dir = some (met, left) ∧ e ∈ met ∧ a ∈ call.touchesEntry geo e) ∨
    match call with
    | .add name => nameOk name = true ∧
        (a ∈ deindexTouches geo dir.blocks ∨ a ∈ growTouches geo name.length)
    | .readdir pos => ∃ k at_, readdirAt geo dir.blocks dir.size pos.toNat k = some at_ ∧
        a ∈ readdirTouches geo dir.blocks dir.size at_
    | _ => False

def DirCall.Safe (geo : Geometry) (dir : Content) (call : DirCall) : Prop :=
  call.Terminates geo dir ∧ ∀ a, call.Touches geo dir a → a < BUF_SIZE

/-! ## What an entry has to be like -/

/- The names are compared up to the first difference: it, or the end of the name, comes
before the end of the buffer. -/
def Compares (buf : Buf) (off : Nat) (other : Buf) (k : Nat) : Prop :=
  off + 8 + k ≤ BUF_SIZE ∨ ∃ i < k, off + 8 + i < BUF_SIZE ∧ buf (off + 8 + i) ≠ other i

def NameFits (geo : Geometry) (name : List Byte) (e : Met) : Prop :=
  corrupt geo e.buf e.off = false → direntIno e.buf e.off ≠ 0 →
    nameLen e.buf e.off = name.length → Compares e.buf e.off (text name) name.length

def DirCall.FitsEntry (geo : Geometry) (e : Met) : DirCall → Prop
  | .lookup name => NameFits geo name e
  | .remove name => NameFits geo name e ∧
      (corrupt geo e.buf e.off = false → named e.buf name e.off = true →
        e.off + recLen e.buf e.off < geo.blockSize →
          e.off + recLen e.buf e.off + 8 ≤ BUF_SIZE)
  | .isEmpty => corrupt geo e.buf e.off = false → direntIno e.buf e.off ≠ 0 →
      (nameLen e.buf e.off = 1 → Compares e.buf e.off (text [dot]) 1) ∧
      (nameLen e.buf e.off = 2 → Compares e.buf e.off (text [dot, dot]) 2)
  | .add _ | .readdir _ => True

def PositionFits (geo : Geometry) (content : Nat → Load) (size pos : Nat) : Prop :=
  pos < size → ∀ buf, content (pos / geo.blockSize) = .block buf →
    pos % geo.blockSize + 8 ≤ BUF_SIZE ∧
      (corrupt geo buf (pos % geo.blockSize) = false → direntIno buf (pos % geo.blockSize) ≠ 0 →
        pos % geo.blockSize + 8 + nameLen buf (pos % geo.blockSize) ≤ BUF_SIZE)

inductive Through (geo : Geometry) (content : Nat → Load) (size : Nat) : Nat → Prop
  | sparse {pos : Nat} (below : pos < size)
      (none_ : content (pos / geo.blockSize) = .sparse) : Through geo content size pos
  | last {pos : Nat} {buf : Buf} (below : pos < size)
      (block : content (pos / geo.blockSize) = .block buf)
      (valid : corrupt geo buf (pos % geo.blockSize) = false)
      (deleted : direntIno buf (pos % geo.blockSize) = 0)
      (ends : pos % geo.blockSize + recLen buf (pos % geo.blockSize) = geo.blockSize) :
      Through geo content size pos
  | next {pos : Nat} {buf : Buf} (below : pos < size)
      (block : content (pos / geo.blockSize) = .block buf)
      (valid : corrupt geo buf (pos % geo.blockSize) = false)
      (deleted : direntIno buf (pos % geo.blockSize) = 0)
      (more : pos % geo.blockSize + recLen buf (pos % geo.blockSize) < geo.blockSize)
      (rest : Through geo content size (pos + recLen buf (pos % geo.blockSize))) :
      Through geo content size pos

def Endless (geo : Geometry) (content : Nat → Load) (size pos : Nat) : Prop :=
  Through geo content size pos ∧
    ∀ b < 2 ^ 32 / geo.blockSize, Through geo content size (b * geo.blockSize)

def DirCall.Fits (geo : Geometry) (dir : Content) : DirCall → Prop
  | .readdir pos => ¬ Endless geo dir.blocks dir.size pos.toNat ∧
      ∀ k at_, readdirAt geo dir.blocks dir.size pos.toNat k = some at_ →
        PositionFits geo dir.blocks dir.size at_
  | call => ∀ met left e, call.walk geo dir = some (met, left) → e ∈ met → call.FitsEntry geo e

/-! ## The walks -/

variable {geo : Geometry} {hit : Buf → Nat → Bool} {content : Nat → Load}

structure Met.Placed (geo : Geometry) (e : Met) : Prop where
  inside : e.off + 8 ≤ geo.blockSize
  before : ∀ p, e.prev = some p → p + 8 ≤ e.off

theorem notCorrupt {buf : Buf} {off : Nat} (valid : corrupt geo buf off = false) :
    8 ≤ recLen buf off ∧ off + recLen buf off ≤ geo.blockSize := by
  unfold corrupt at valid
  simp only [Bool.or_eq_false_iff, decide_eq_false_iff_not, Nat.not_lt] at valid
  exact valid

theorem walkBlockMet {buf : Buf} {fuel off : Nat} {prev : Option Nat}
    (enough : geo.blockSize < fuel + off) (below : off ≤ geo.blockSize) (before : ∀ p, prev = some p → p + 8 ≤ off) :
    ∃ met, walkBlock geo hit buf fuel off prev = some met ∧ ∀ e ∈ met.1, e.Placed geo := by
  induction fuel generalizing off prev with
  | zero => omega
  | succ fuel ih =>
    unfold walkBlock
    split
    · exact ⟨_, rfl, fun _ h => nomatch h⟩
    · next inside =>
      have here : Met.Placed geo ⟨buf, off, prev⟩ := ⟨Nat.not_lt.mp inside, before⟩
      split
      · refine ⟨_, rfl, fun e member => ?_⟩
        rw [List.mem_singleton.mp member]
        exact here
      · next goesOn =>
        rw [Bool.or_eq_true, not_or, Bool.not_eq_true] at goesOn
        have valid := notCorrupt goesOn.1
        obtain ⟨met, rest, placed⟩ := @ih (off + recLen buf off) (some off)
          (by omega) valid.2 (fun p same => by cases same; omega)
        refine ⟨_, by rw [rest]; rfl, fun e member => ?_⟩
        rcases List.mem_cons.mp member with rfl | member
        · exact here
        · exact placed e member

theorem walkDirMet (blocks : List Nat) :
    ∃ met, walkDir geo content hit blocks = some met ∧ ∀ e ∈ met.1, e.Placed geo := by
  induction blocks with
  | nil => exact ⟨_, rfl, fun _ h => nomatch h⟩
  | cons b rest ih =>
    unfold walkDir
    rcases content b with _ | _ | buf
    · exact ⟨_, rfl, fun _ h => nomatch h⟩
    · exact ih
    · obtain ⟨met, here, placed⟩ := @walkBlockMet geo hit buf (geo.blockSize + 1) 0 none
        (by omega) (Nat.zero_le _) nofun
      dsimp only
      rw [here, Option.bind_some]
      split
      · exact ⟨_, rfl, placed⟩
      · obtain ⟨later, there, placed'⟩ := ih
        refine ⟨_, by rw [there]; rfl, fun e member => ?_⟩
        rcases List.mem_append.mp member with member | member
        · exact placed e member
        · exact placed' e member

theorem callMet (dir : Content) (call : DirCall) :
    ∃ met, call.walk geo dir = some met ∧ ∀ e ∈ met.1, e.Placed geo := by
  cases call with
  | lookup name | add name | remove name =>
    unfold DirCall.walk
    dsimp only
    split
    · exact walkDirMet _
    · exact ⟨_, rfl, fun _ h => nomatch h⟩
  | isEmpty => exact walkDirMet _
  | readdir pos => exact ⟨_, rfl, fun _ h => nomatch h⟩

/-! ## The bytes touched -/

theorem headerBelow {off n : Nat} : (∀ a ∈ header off, a < n) ↔ off + 8 ≤ n := by
  simp only [header, List.mem_range'_1]
  constructor
  · intro all
    have := all (off + 7) (by omega)
    omega
  · intro inside a member
    omega

theorem writtenBelow {off nlen n : Nat} (inside : off + 8 + nlen ≤ n) :
    ∀ a ∈ written off nlen, a < n := by
  intro a member
  have := List.mem_range'_1.mp member
  omega

theorem comparedBelow {buf other : Buf} {off k : Nat} (some_ : 0 < k) :
    (∀ a ∈ compared buf off other k, a < BUF_SIZE) ↔ Compares buf off other k := by
  refine (Peek.withinSameIff (n := BUF_SIZE) some_).trans ?_
  simp only [Compares, Nat.zero_add]

section bounds

variable (sound : geo.Sound)
include sound

theorem inBuffer : geo.blockSize ≤ BUF_SIZE ∧ 1024 ≤ geo.blockSize := by
  unfold BUF_SIZE
  rcases sound.blockSize with size | size | size <;> rw [size] <;> decide

theorem lookupBelow {name : List Byte} (some_ : 0 < name.length) {e : Met}
    (placed : e.Placed geo) :
    (∀ a ∈ lookupTouches geo name e, a < BUF_SIZE) ↔ NameFits geo name e := by
  have inside := placed.inside
  have size := (inBuffer sound).1
  unfold lookupTouches NameFits
  rw [List.forall_mem_append, headerBelow, and_iff_right (by omega)]
  by_cases valid : corrupt geo e.buf e.off = false
  · rw [if_neg (by simp [valid])]
    by_cases tested : direntIno e.buf e.off ≠ 0 ∧ nameLen e.buf e.off = name.length
    · rw [if_pos tested, comparedBelow some_]
      exact ⟨fun h _ _ _ => h, fun h => h valid tested.1 tested.2⟩
    · rw [if_neg tested]
      exact iff_of_true (fun _ h => nomatch h) fun _ used same => absurd ⟨used, same⟩ tested
  · rw [if_pos (by simpa using valid)]
    exact iff_of_true (fun _ h => nomatch h) fun h => absurd h valid

theorem deleteBelow {e : Met} (placed : e.Placed geo) :
    (∀ a ∈ deleteTouches geo e, a < BUF_SIZE) ↔
      (e.off + recLen e.buf e.off < geo.blockSize →
        e.off + recLen e.buf e.off + 8 ≤ BUF_SIZE) := by
  have inside := placed.inside
  have size := (inBuffer sound).1
  unfold deleteTouches
  dsimp only
  rw [List.forall_mem_append, headerBelow, and_iff_right (by omega)]
  by_cases more : e.off + recLen e.buf e.off < geo.blockSize
  · rw [if_pos more, List.forall_mem_append, headerBelow, forall_prop_of_true more]
    refine and_iff_left ?_
    split
    · simp only [List.mem_cons, List.not_mem_nil, or_false, forall_eq_or_imp, forall_eq]
      omega
    · exact fun _ h => nomatch h
  · rw [if_neg more]
    refine iff_of_true ?_ fun h => absurd h more
    split
    · next p before =>
      have below := placed.before p before
      rw [List.forall_mem_append, headerBelow]
      refine ⟨by omega, ?_⟩
      split
      · simp only [List.mem_cons, List.not_mem_nil, or_false, forall_eq_or_imp, forall_eq]
        omega
      · exact fun _ h => nomatch h
    · exact fun _ h => nomatch h

theorem emptyBelow {e : Met} (placed : e.Placed geo) :
    (∀ a ∈ emptyTouches geo e, a < BUF_SIZE) ↔ DirCall.FitsEntry geo e .isEmpty := by
  have inside := placed.inside
  have size := (inBuffer sound).1
  unfold emptyTouches DirCall.FitsEntry
  rw [List.forall_mem_append, headerBelow, and_iff_right (by omega)]
  by_cases tested : corrupt geo e.buf e.off = false ∧ direntIno e.buf e.off ≠ 0
  · rw [if_neg (by simp [tested]), List.forall_mem_append, forall_prop_of_true tested.1,
      forall_prop_of_true tested.2]
    refine and_congr ?_ ?_
    · split
      · next one => rw [comparedBelow (by decide), forall_prop_of_true one]
      · next other => exact iff_of_true (fun _ h => nomatch h) fun h => absurd h other
    · split
      · next two => rw [comparedBelow (by decide), forall_prop_of_true two]
      · next other => exact iff_of_true (fun _ h => nomatch h) fun h => absurd h other
  · refine iff_of_true ?_ fun valid used => absurd ⟨valid, used⟩ tested
    rw [if_pos]
    · exact fun _ h => nomatch h
    · by_contra neither
      simp only [Bool.or_eq_true, beq_iff_eq, not_or, Bool.not_eq_true] at neither
      exact tested neither

theorem addBelow {name : List Byte} (short : name.length ≤ 255) {e : Met}
    (placed : e.Placed geo) : ∀ a ∈ addTouches geo name e, a < BUF_SIZE := by
  have inside := placed.inside
  have size := (inBuffer sound).1
  unfold addTouches
  rw [List.forall_mem_append, headerBelow]
  refine ⟨by omega, ?_⟩
  split
  · next chosen =>
    rw [Bool.and_eq_true, Bool.not_eq_true', freeEntry, Bool.and_eq_true,
      decide_eq_true_eq] at chosen
    obtain ⟨valid, _, room⟩ := chosen
    have fits := notCorrupt valid
    have need := (@recLenNeed name.length (by omega)).1
    unfold insertTouches
    dsimp only
    split
    · rw [List.forall_mem_append]
      exact ⟨writtenBelow (by omega), writtenBelow (by omega)⟩
    · exact writtenBelow (by omega)
  · exact fun _ h => nomatch h

theorem growBelow {nlen : Nat} (short : nlen ≤ 255) : ∀ a ∈ growTouches geo nlen, a < BUF_SIZE := by
  obtain ⟨size, large⟩ := inBuffer sound
  unfold growTouches
  rw [List.forall_mem_append]
  refine ⟨fun a member => ?_, writtenBelow (by omega)⟩
  have := List.mem_range'_1.mp member
  omega

theorem deindexBelow (content : Nat → Load) : ∀ a ∈ deindexTouches geo content, a < BUF_SIZE := by
  obtain ⟨size, large⟩ := inBuffer sound
  have range {start n : Nat} (fits : start + n ≤ 1024 ∨ start + n ≤ geo.blockSize) :
      ∀ a ∈ List.range' start n, a < BUF_SIZE := by
    intro a member
    have := List.mem_range'_1.mp member
    omega
  unfold deindexTouches
  split
  · exact fun _ h => nomatch h
  split
  · simp only [List.forall_mem_append]
    refine ⟨⟨⟨⟨?_, ?_⟩, ?_⟩, range (by omega)⟩, ?_⟩
    · decide
    · decide
    · decide
    split
    · simp only [List.forall_mem_append]
      refine ⟨⟨⟨⟨range (by omega), range (by omega)⟩, writtenBelow (by omega)⟩,
        writtenBelow ?_⟩, ?_⟩
      · rw [show ext2RecLen 1 = 12 from rfl]
        omega
      · split
        · refine writtenBelow ?_
          rw [show ext2RecLen 1 + ext2RecLen 2 = 24 from rfl]
          omega
        · exact fun _ h => nomatch h
    · exact fun _ h => nomatch h
  · exact fun _ h => nomatch h

theorem removeBelow {name : List Byte} (some_ : 0 < name.length) {e : Met}
    (placed : e.Placed geo) :
    (∀ a ∈ removeTouches geo name e, a < BUF_SIZE) ↔
      DirCall.FitsEntry geo e (.remove name) := by
  unfold removeTouches DirCall.FitsEntry
  rw [List.forall_mem_append, lookupBelow sound some_ placed]
  refine and_congr_right fun _ => ?_
  by_cases found : corrupt geo e.buf e.off = false ∧ named e.buf name e.off = true
  · rw [if_pos (by simp [found]), deleteBelow sound placed, forall_prop_of_true found.1,
      forall_prop_of_true found.2]
  · rw [if_neg (by simpa using found)]
    exact iff_of_true (fun _ h => nomatch h) fun valid here => absurd ⟨valid, here⟩ found

omit sound in
theorem positionBelow {size pos : Nat} :
    (∀ a ∈ readdirTouches geo content size pos, a < BUF_SIZE) ↔
      PositionFits geo content size pos := by
  unfold readdirTouches PositionFits
  by_cases ended : size ≤ pos
  · rw [if_pos ended]
    exact iff_of_true (fun _ h => nomatch h) fun below => by omega
  rw [if_neg ended, forall_prop_of_true (by omega)]
  rcases content (pos / geo.blockSize) with _ | _ | buf
  · exact iff_of_true (fun _ h => nomatch h) fun _ same => nomatch same
  · exact iff_of_true (fun _ h => nomatch h) fun _ same => nomatch same
  dsimp only
  simp only [Load.block.injEq, forall_eq', List.forall_mem_append, headerBelow]
  refine and_congr_right fun inside => ?_
  by_cases copied : corrupt geo buf (pos % geo.blockSize) = false ∧
      direntIno buf (pos % geo.blockSize) ≠ 0
  · rw [if_neg (by simp [copied]), forall_prop_of_true copied.1, forall_prop_of_true copied.2]
    simp only [List.mem_range'_1]
    constructor
    · intro all
      rcases Nat.eq_zero_or_pos (nameLen buf (pos % geo.blockSize)) with none_ | some_
      · omega
      · have := all (pos % geo.blockSize + 8 + nameLen buf (pos % geo.blockSize) - 1) (by omega)
        omega
    · intro fits a member
      omega
  · refine iff_of_true ?_ fun valid used => absurd ⟨valid, used⟩ copied
    rw [if_pos]
    · exact fun _ h => nomatch h
    · by_contra neither
      simp only [Bool.or_eq_true, beq_iff_eq, not_or, Bool.not_eq_true] at neither
      exact copied neither

/-! ## Whether readdir ends -/

variable {size : Nat}

omit sound in
theorem readdirAtAdd (pos j k : Nat) : readdirAt geo content size pos (j + k) =
    (readdirAt geo content size pos j).bind fun p => readdirAt geo content size p k := by
  induction k with
  | zero =>
    cases readdirAt geo content size pos j <;> rfl
  | succ k ih =>
    rw [← Nat.add_assoc, readdirAt, ih, Option.bind_assoc]
    rfl

def Reaches (geo : Geometry) (content : Nat → Load) (size p q : Nat) : Prop :=
  ∃ k, readdirAt geo content size p k = some q

def Ends (geo : Geometry) (content : Nat → Load) (size p : Nat) : Prop :=
  ∃ k, readdirAt geo content size p k = none

omit sound in
theorem Reaches.ends {p q : Nat} (reaches : Reaches geo content size p q)
    (ends : Ends geo content size q) : Ends geo content size p := by
  obtain ⟨j, there⟩ := reaches
  obtain ⟨k, stop⟩ := ends
  exact ⟨j + k, by rw [readdirAtAdd, there, Option.bind_some, stop]⟩

omit sound in
theorem Reaches.first {p m q : Nat} (step : readdirStep geo content size p = some m)
    (rest : Reaches geo content size m q) : Reaches geo content size p q := by
  obtain ⟨k, there⟩ := rest
  refine ⟨1 + k, ?_⟩
  rw [readdirAtAdd, readdirAt, readdirAt, Option.bind_some, step, Option.bind_some, there]

omit sound in
theorem endsNow {p : Nat} (step : readdirStep geo content size p = none) :
    Ends geo content size p := ⟨1, step⟩

theorem wrapBlocks : 0 < 2 ^ 32 / geo.blockSize ∧
    2 ^ 32 = 2 ^ 32 / geo.blockSize * geo.blockSize ∧ 0 < geo.blockSize := by
  rcases sound.blockSize with size | size | size <;> rw [size] <;> decide

theorem wrapStart (b : Nat) : u32 (b * geo.blockSize) =
    b % (2 ^ 32 / geo.blockSize) * geo.blockSize := by
  obtain ⟨_, whole, _⟩ := wrapBlocks sound
  unfold u32
  generalize 2 ^ 32 / geo.blockSize = n at *
  rw [whole, Nat.mul_mod_mul_right]

theorem sameBlock {p rl : Nat} (small : p < 2 ^ 32)
    (more : p % geo.blockSize + rl < geo.blockSize) :
    u32 (p + rl) = p + rl ∧ p + rl < 2 ^ 32 ∧ (p + rl) / geo.blockSize = p / geo.blockSize ∧
      (p + rl) % geo.blockSize = p % geo.blockSize + rl := by
  obtain ⟨_, whole, positive⟩ := wrapBlocks sound
  have split := Nat.div_add_mod' p geo.blockSize
  have block : p / geo.blockSize < 2 ^ 32 / geo.blockSize :=
    Nat.div_lt_of_lt_mul (by rw [Nat.mul_comm, ← whole]; exact small)
  have bound : p / geo.blockSize * geo.blockSize + geo.blockSize ≤ 2 ^ 32 := by
    rw [whole, ← Nat.succ_mul]
    exact Nat.mul_le_mul_right _ block
  have low : p + rl < 2 ^ 32 := by omega
  have shape : p + rl = p % geo.blockSize + rl + p / geo.blockSize * geo.blockSize := by omega
  refine ⟨Nat.mod_eq_of_lt low, low, ?_, ?_⟩
  · rw [shape, Nat.add_mul_div_right _ _ positive, Nat.div_eq_of_lt more, Nat.zero_add]
  · rw [shape, Nat.add_mul_mod_self_right, Nat.mod_eq_of_lt more]

omit sound in
theorem blockEnd {p rl : Nat} (ends : p % geo.blockSize + rl = geo.blockSize) :
    p + rl = (p / geo.blockSize + 1) * geo.blockSize := by
  have split := Nat.div_add_mod' p geo.blockSize
  rw [Nat.succ_mul]
  omega

theorem throughStep {p : Nat} (through : Through geo content size p) (small : p < 2 ^ 32) :
    ∃ q, readdirStep geo content size p = some q ∧
      (q = u32 ((p / geo.blockSize + 1) * geo.blockSize) ∨
        q < 2 ^ 32 ∧ q / geo.blockSize = p / geo.blockSize ∧ Through geo content size q) := by
  unfold readdirStep
  cases through with
  | sparse below none_ =>
    rw [if_neg (by omega), none_]
    exact ⟨_, rfl, .inl rfl⟩
  | last below block valid deleted ends =>
    rw [if_neg (by omega), block]
    dsimp only
    rw [valid, if_neg (by decide), if_pos deleted, blockEnd ends]
    exact ⟨_, rfl, .inl rfl⟩
  | next below block valid deleted more rest =>
    rw [if_neg (by omega), block]
    dsimp only
    rw [valid, if_neg (by decide), if_pos deleted]
    obtain ⟨same, low, block', _⟩ := sameBlock sound small more
    rw [same]
    exact ⟨_, rfl, .inr ⟨low, block', rest⟩⟩

theorem throughReaches {p : Nat} (through : Through geo content size p) (small : p < 2 ^ 32) :
    Reaches geo content size p (u32 ((p / geo.blockSize + 1) * geo.blockSize)) := by
  induction through with
  | sparse below none_ =>
    refine .first ?_ ⟨0, rfl⟩
    unfold readdirStep
    rw [if_neg (by omega), none_]
  | last below block valid deleted ends =>
    refine .first ?_ ⟨0, rfl⟩
    unfold readdirStep
    rw [if_neg (by omega), block]
    dsimp only
    rw [valid, if_neg (by decide), if_pos deleted, blockEnd ends]
  | next below block valid deleted more rest ih =>
    obtain ⟨same, low, block', _⟩ := sameBlock sound small more
    have there := ih low
    rw [block'] at there
    refine .first ?_ there
    unfold readdirStep
    rw [if_neg (by omega), block]
    dsimp only
    rw [valid, if_neg (by decide), if_pos deleted, same]

theorem endsHere (n : Nat) {p : Nat} (small : p < 2 ^ 32)
    (room : geo.blockSize - p % geo.blockSize ≤ n) (stopped : ¬ Through geo content size p) :
    Ends geo content size p := by
  have below := Nat.mod_lt p (wrapBlocks sound).2.2
  induction n generalizing p with
  | zero => omega
  | succ n ih =>
    by_cases ended : size ≤ p
    · exact endsNow (if_pos ended)
    have step : readdirStep geo content size p = _ := if_neg ended
    rcases block : content (p / geo.blockSize) with _ | _ | buf
    · rw [block] at step
      exact endsNow step
    · exact absurd (.sparse (by omega) block) stopped
    rw [block] at step
    dsimp only at step
    cases valid : corrupt geo buf (p % geo.blockSize) with
    | true =>
      rw [valid, if_pos rfl] at step
      exact endsNow step
    | false =>
      rw [valid, if_neg (by decide)] at step
      have fits := notCorrupt valid
      by_cases deleted : direntIno buf (p % geo.blockSize) = 0
      · rw [if_pos deleted] at step
        by_cases last : p % geo.blockSize + recLen buf (p % geo.blockSize) = geo.blockSize
        · exact absurd (.last (by omega) block valid deleted last) stopped
        · have more : p % geo.blockSize + recLen buf (p % geo.blockSize) < geo.blockSize := by omega
          obtain ⟨same, low, _, offset⟩ := sameBlock sound small more
          rw [same] at step
          refine (Reaches.first step ⟨0, rfl⟩).ends (ih low ?_ ?_ ?_)
          · omega
          · exact fun rest => stopped (.next (by omega) block valid deleted more rest)
          · omega
      · rw [if_neg deleted] at step
        exact endsNow step

theorem endsLater (m : Nat) {b stop : Nat} (low : b < 2 ^ 32 / geo.blockSize)
    (distance : (b + m) % (2 ^ 32 / geo.blockSize) = stop)
    (stopped : ¬ Through geo content size (stop * geo.blockSize)) :
    Ends geo content size (b * geo.blockSize) := by
  obtain ⟨positive, whole, size_⟩ := wrapBlocks sound
  have small {b : Nat} (low : b < 2 ^ 32 / geo.blockSize) : b * geo.blockSize < 2 ^ 32 := by
    rw [whole]
    exact Nat.mul_lt_mul_of_pos_right low size_
  induction m generalizing b with
  | zero =>
    rw [Nat.add_zero, Nat.mod_eq_of_lt low] at distance
    rw [distance]
    exact endsHere sound _ (distance ▸ small low) (Nat.le_refl _) stopped
  | succ m ih =>
    by_cases through : Through geo content size (b * geo.blockSize)
    · have there := throughReaches sound through (small low)
      rw [Nat.mul_div_cancel _ size_, wrapStart sound] at there
      refine there.ends (ih (Nat.mod_lt _ positive) ?_)
      rw [Nat.mod_add_mod, Nat.add_assoc, Nat.add_comm 1 m]
      exact distance
    · exact endsHere sound _ (small low) (Nat.le_refl _) through

theorem endsIff {pos : Nat} (small : pos < 2 ^ 32) :
    Ends geo content size pos ↔ ¬ Endless geo content size pos := by
  obtain ⟨positive, whole, size_⟩ := wrapBlocks sound
  constructor
  · rintro ⟨k, stop⟩ ⟨through, all⟩
    have goesOn (k : Nat) : ∃ q, readdirAt geo content size pos k = some q ∧ q < 2 ^ 32 ∧
        Through geo content size q := by
      induction k with
      | zero => exact ⟨pos, rfl, small, through⟩
      | succ k ih =>
        obtain ⟨q, there, low, through⟩ := ih
        obtain ⟨next, step, new | ⟨low', _, through'⟩⟩ := throughStep sound through low
        · refine ⟨next, ?_, ?_, ?_⟩
          · rw [readdirAt, there, Option.bind_some, step]
          · rw [new]
            exact Nat.mod_lt _ (by decide)
          · rw [new, wrapStart sound]
            exact all _ (Nat.mod_lt _ positive)
        · exact ⟨next, by rw [readdirAt, there, Option.bind_some, step], low', through'⟩
    obtain ⟨q, there, _⟩ := goesOn k
    rw [stop] at there
    cases there
  · intro stops
    by_cases through : Through geo content size pos
    · obtain ⟨b, low, stopped⟩ : ∃ b, b < 2 ^ 32 / geo.blockSize ∧
          ¬ Through geo content size (b * geo.blockSize) := by
        by_contra none_
        push Not at none_
        exact stops ⟨through, none_⟩
      have there := throughReaches sound through small
      rw [wrapStart sound] at there
      have start := Nat.mod_lt (pos / geo.blockSize + 1) positive
      refine there.ends (endsLater sound (b + 2 ^ 32 / geo.blockSize -
        (pos / geo.blockSize + 1) % (2 ^ 32 / geo.blockSize)) start ?_ stopped)
      rw [show ∀ x n, x < n → x + (b + n - x) = b + n from fun x n h => by omega]
      · rw [Nat.add_mod_right, Nat.mod_eq_of_lt low]
      · exact start
    · exact endsHere sound _ small (Nat.le_refl _) through

/-! ## The calls -/

theorem entryBelow {dir : Content} {call : DirCall} {met : List Met} {left : Bool} {e : Met}
    (ran : call.walk geo dir = some (met, left)) (member : e ∈ met) :
    (∀ a ∈ call.touchesEntry geo e, a < BUF_SIZE) ↔ call.FitsEntry geo e := by
  have placed : e.Placed geo := by
    obtain ⟨met', ran', placed⟩ := @callMet geo dir call
    rw [ran] at ran'
    cases ran'
    exact placed e member
  have named {name : List Byte} {walk : Option (List Met × Bool)}
      (ran : (if nameOk name then walk else some ([], true)) = some (met, left)) :
      0 < name.length ∧ name.length ≤ 255 := by
    split at ran
    · next ok => simpa [nameOk] using ok
    · cases ran
      cases member
  cases call with
  | lookup name => exact lookupBelow sound (named ran).1 placed
  | add name => exact iff_of_true (addBelow sound (named ran).2 placed) trivial
  | remove name => exact removeBelow sound (named ran).1 placed
  | isEmpty => exact emptyBelow sound placed
  | readdir pos => exact iff_of_true (fun _ h => nomatch h) trivial

theorem walkSafeIff {dir : Content} {call : DirCall} (ends : call.Terminates geo dir)
    {extra : Nat → Prop} (inside : ∀ a, extra a → a < BUF_SIZE)
    (touches : ∀ a, call.Touches geo dir a ↔
      (∃ met left e, call.walk geo dir = some (met, left) ∧ e ∈ met ∧
        a ∈ call.touchesEntry geo e) ∨ extra a) :
    call.Safe geo dir ↔
      ∀ met left e, call.walk geo dir = some (met, left) → e ∈ met → call.FitsEntry geo e := by
  unfold DirCall.Safe
  rw [and_iff_right ends]
  constructor
  · intro within met left e ran member
    exact (entryBelow sound ran member).mp fun a here =>
      within a ((touches a).mpr (.inl ⟨met, left, e, ran, member, here⟩))
  · intro fits a touched
    rcases (touches a).mp touched with ⟨met, left, e, ran, member, here⟩ | other
    · exact (entryBelow sound ran member).mpr (fits met left e ran member) a here
    · exact inside a other

end bounds

/-- A call on a directory ends and stays within its buffer exactly when the entries and
positions it comes to fit; ext2_add_dirent does for any content. -/
theorem dirCallSafeIff (geo : Geometry) (sound : geo.Sound) (dir : Content) (call : DirCall) :
    call.Safe geo dir ↔ call.Fits geo dir := by
  have ends (call : DirCall) : call.walk geo dir ≠ none := by
    obtain ⟨met, ran, _⟩ := @callMet geo dir call
    rw [ran]
    exact Option.some_ne_none _
  cases call with
  | lookup name => exact walkSafeIff sound (ends (.lookup name)) (fun _ h => h.elim) fun _ => .rfl
  | remove name => exact walkSafeIff sound (ends (.remove name)) (fun _ h => h.elim) fun _ => .rfl
  | isEmpty => exact walkSafeIff sound (ends .isEmpty) (fun _ h => h.elim) fun _ => .rfl
  | add name =>
    refine walkSafeIff sound (ends (.add name)) (fun a touched => ?_) fun _ => .rfl
    obtain ⟨ok, deindexed | grown⟩ := touched
    · exact deindexBelow sound _ a deindexed
    · exact growBelow sound (by simpa [nameOk] using ok : _ ∧ _).2 a grown
  | readdir pos =>
    refine and_congr (endsIff sound pos.isLt) ⟨fun within k at_ there => ?_, fun fits a touched => ?_⟩
    · exact positionBelow.mp fun a here => within a (.inr ⟨k, at_, there, here⟩)
    · rcases touched with ⟨met, left, e, ran, member, _⟩ | ⟨k, at_, there, here⟩
      · cases ran
        cases member
      · exact positionBelow.mpr (fits k at_ there) a here

theorem smallBlocksFit (sound : geo.Sound) (small : geo.blockSize ≤ 2048) {dir : Content}
    (low : dir.size + geo.blockSize ≤ 2 ^ 32) (call : DirCall) : call.Fits geo dir := by
  have entry (call : DirCall) (met left e) (ran : call.walk geo dir = some (met, left))
      (member : e ∈ met) : call.FitsEntry geo e := by
    have placed : e.Placed geo := by
      obtain ⟨met', ran', placed⟩ := @callMet geo dir call
      rw [ran] at ran'
      cases ran'
      exact placed e member
    have inside := placed.inside
    have short (buf : Buf) (off : Nat) : nameLen buf off < 256 := (buf (off + 6)).isLt
    cases call with
    | lookup name =>
      intro _ _ same
      have := short e.buf e.off
      exact .inl (by unfold BUF_SIZE; omega)
    | remove name =>
      refine ⟨fun _ _ same => ?_, fun _ _ more => by unfold BUF_SIZE; omega⟩
      have := short e.buf e.off
      exact .inl (by unfold BUF_SIZE; omega)
    | isEmpty =>
      exact fun _ _ => ⟨fun _ => .inl (by unfold BUF_SIZE; omega),
        fun _ => .inl (by unfold BUF_SIZE; omega)⟩
    | add name => trivial
    | readdir pos => trivial
  cases call with
  | lookup name => exact entry (.lookup name)
  | add name => exact entry (.add name)
  | remove name => exact entry (.remove name)
  | isEmpty => exact entry .isEmpty
  | readdir pos =>
    obtain ⟨positive, whole, size⟩ := wrapBlocks sound
    refine ⟨fun endless => ?_, fun k at_ _ _ buf _ => ?_⟩
    · -- the last block starts behind the directory's end
      have last := endless.2 (2 ^ 32 / geo.blockSize - 1) (by omega)
      have below : (2 ^ 32 / geo.blockSize - 1) * geo.blockSize < dir.size := by
        cases last with
        | sparse below | last below | next below => exact below
      rw [Nat.sub_one_mul, ← whole] at below
      omega
    · have inside := Nat.mod_lt at_ size
      have short : nameLen buf (at_ % geo.blockSize) < 256 := (buf _).isLt
      unfold BUF_SIZE
      omega

def noBlocks : Content := ⟨2048, by decide, fun _ => .sparse, fun _ => .sparse⟩

theorem smallReaddirSafe : DirCall.Safe bootBlockGeometry noBlocks (.readdir 5) :=
  (dirCallSafeIff bootBlockGeometry bootBlockSound noBlocks (.readdir 5)).mpr
    (smallBlocksFit bootBlockSound (by decide) (by decide) (.readdir 5))

def largeBlockGeometry : Geometry :=
  { bootBlockGeometry with
    blockSize := 4096
    numGroups := 1
    sBlocksCount := 8192
    sInodesCount := 8
    sFirstDataBlock := 0 }

theorem largeBlockReal (group : Nat) : largeBlockGeometry.Real group ↔ group = 0 := by
  simp only [Geometry.Real, largeBlockGeometry, bootBlockGeometry]
  omega

theorem largeBlockSystem {b : Nat} (system : largeBlockGeometry.System b) : b < 5 := by
  rcases system with ⟨group, kind, low, _, rfl⟩ | ⟨i, low, rfl⟩ | rfl
  · simp only [largeBlockGeometry, bootBlockGeometry] at low ⊢
    cases kind <;> simp only <;> omega
  · simp only [largeBlockGeometry, bootBlockGeometry, Geometry.gdtBlocks, Geometry.gdtBytes] at low ⊢
    omega
  · decide

theorem largeBlockSound : largeBlockGeometry.Sound where
  blockSize := .inr (.inr rfl)
  firstDataBlock := by decide
  perGroupPos kind := by cases kind <;> decide
  perGroupLe kind := by cases kind <;> decide
  numGroups := by decide
  blocksSmall := by decide
  fitsDevice := by decide
  inodesSmall := by decide
  reserved := by decide
  emptyGroup group inside notReal :=
    absurd ((largeBlockReal group).mpr (Nat.lt_one_iff.mp inside)) notReal
  bitmapsInside kind group real := by
    rw [largeBlockReal] at real
    subst real
    cases kind <;> decide
  gdtInside := by decide
  bitmapsApart kind group kind' group' real real' same := by
    rw [largeBlockReal] at real real'
    subst real real'
    cases kind <;> cases kind' <;> first | exact ⟨rfl, rfl⟩ | exact absurd same (by decide)
  gdtApart kind group real i low := by
    rw [largeBlockReal] at real
    subst real
    simp only [largeBlockGeometry, bootBlockGeometry, Geometry.gdtBlocks, Geometry.gdtBytes] at low ⊢
    cases kind <;> simp only <;> omega
  superApart kind group real := by
    rw [largeBlockReal] at real
    subst real
    cases kind <;> decide
  tableApart ino positive inside system := by
    have high := largeBlockSystem system
    simp only [largeBlockGeometry, bootBlockGeometry, Geometry.inodeBlock, Geometry.inodeGroup,
      Geometry.inodeIndex, u32] at inside high
    omega

def edgeBlock : Buf := fun o =>
  if o = 0 then 1 else if o = 4 then 0xF8 else if o = 5 then 0x0F
  else if o = 4088 then 5 else if o = 4092 then 8 else if o = 4094 then 1 else 0

def edgeDir : Content := ⟨4096, by decide, fun _ => .block edgeBlock, fun _ => .block edgeBlock⟩

/- Looking for a name of one byte compares the byte behind the buffer. -/
theorem edgeNameOutside : largeBlockGeometry.Sound ∧
    ¬ DirCall.Safe largeBlockGeometry edgeDir (.lookup [0x61]) := by
  refine ⟨largeBlockSound, fun safe => ?_⟩
  have ran : DirCall.walk largeBlockGeometry edgeDir (.lookup [0x61]) =
      some ([⟨edgeBlock, 0, none⟩, ⟨edgeBlock, 4088, some 0⟩], false) := rfl
  have read : 4096 ∈ lookupTouches largeBlockGeometry [0x61] ⟨edgeBlock, 4088, some 0⟩ := by decide
  exact absurd (safe.2 4096 (.inl ⟨_, _, _, ran, by simp, read⟩)) (by decide)

end Scepter.Ext2.DirBounds
