import Scepter.Fs.Minix3.Dirs
import Mathlib.Algebra.Group.Nat.Defs

/-! The entries of one minix3 directory (fs/minix3/dir.c), block by block, on the sizes
of 32 bits. The zones of a directory are distinct, so that each block has entries of its
own. A name field holds 60 characters, or fewer and a NUL. -/
namespace Scepter.Minix3.DirMap
open Scepter.Path (Str)

def DIRENT_SIZE : Nat := 64

structure Entry where
  inode : Nat
  name : Str
  short : name.length ≤ NAME_LEN

structure Dir where
  isDir : Bool
  iSize : Nat
  small : iSize < 2 ^ 32
  -- of each file block, 0 for none
  zones : Nat → Nat
  entries : Nat → Nat → Entry

structure Io where
  maps : Nat → Bool
  reads : Nat → Bool
  writes : Nat → Bool
  zone : Option Nat

def working : Io := ⟨fun _ => true, fun _ => true, fun _ => true, none⟩

def u32 (n : Nat) : Nat := n % 2 ^ 32

def unused : Entry := ⟨0, [], Nat.zero_le _⟩

def entry (ino : Nat) (name : Str) : Entry :=
  ⟨ino, name.take (NAME_LEN - 1), by
    rw [List.length_take]
    exact Nat.le_trans (Nat.min_le_left _ _) (by decide)⟩

def named (name : Str) (e : Entry) : Bool := e.inode ≠ 0 ∧ e.name = name.take NAME_LEN

def isFree (e : Entry) : Bool := e.inode = 0

variable (geo : Geometry)

def blockSize : Nat := geo.perBlock * DIRENT_SIZE

def maxBlocks : Nat :=
  let ptrs := blockSize geo / 4
  DIRECT_ZONES + ptrs + ptrs * ptrs

def numBlocks (d : Dir) : Nat := u32 (d.iSize + blockSize geo - 1) / blockSize geo

def readDirBlock (io : Io) (d : Dir) (block : Nat) : Option Nat :=
  if maxBlocks geo ≤ block ∨ !io.maps block then none
  else if d.zones block = 0 then some 0
  else if io.reads block then some geo.perBlock
  else none

def firstSlot (p : Entry → Bool) (d : Dir) (block count : Nat) : Option Nat :=
  (List.range count).find? fun i => p (d.entries block i)

def scan (io : Io) (p : Entry → Bool) (d : Dir) : Nat → Nat → Option (Option (Nat × Nat))
  | _, 0 => some none
  | block, left + 1 => match readDirBlock geo io d block with
    | none => none
    | some count => match firstSlot p d block count with
      | some i => some (some (block, i))
      | none => scan io p d (block + 1) left

def search (io : Io) (p : Entry → Bool) (d : Dir) : Option (Option (Nat × Nat)) :=
  scan geo io p d 0 (numBlocks geo d)

def minix3Lookup (io : Io) (d : Dir) (name : Str) : Option Nat :=
  if !d.isDir then none
  else match search geo io (named name) d with
    | some (some (block, i)) => some (d.entries block i).inode
    | _ => none

def Dir.setEntry (d : Dir) (block i : Nat) (e : Entry) : Dir :=
  {d with entries := fun b j => if b = block ∧ j = i then e else d.entries b j}

def Dir.cover (d : Dir) (block i : Nat) : Dir :=
  let entryEnd := u32 (block * blockSize geo + (i + 1) * DIRENT_SIZE)
  if d.iSize < entryEnd then {d with iSize := entryEnd, small := Nat.mod_lt _ (by decide)} else d

def Dir.grow (d : Dir) (block zone : Nat) (e : Entry) : Dir where
  isDir := d.isDir
  iSize := u32 (d.iSize + blockSize geo)
  small := Nat.mod_lt _ (by decide)
  zones := fun b => if b = block then zone else d.zones b
  entries := fun b j => if b = block then if j = 0 then e else unused else d.entries b j

def minix3AddDirent (io : Io) (d : Dir) (name : Str) (ino : Nat) : Option Dir :=
  if !d.isDir then none
  else if NAME_LEN ≤ name.length then none
  else match search geo io isFree d with
    | none => none
    | some (some (block, i)) =>
      if io.writes block then some ((d.setEntry block i (entry ino name)).cover geo block i) else none
    | some none =>
      let block := numBlocks geo d
      if block < DIRECT_ZONES then
        io.zone.bind fun zone =>
          if io.writes block then some (d.grow geo block zone (entry ino name)) else none
      else none

def minix3RemoveDirent (io : Io) (d : Dir) (name : Str) : Option Dir :=
  if !d.isDir then none
  else match search geo io (named name) d with
    | some (some (block, i)) =>
      if io.writes block then some (d.setEntry block i unused) else none
    | _ => none

/-! ## The map -/

def Slot (d : Dir) (block i : Nat) : Prop :=
  block < maxBlocks geo ∧ d.zones block ≠ 0 ∧ i < geo.perBlock

def Used (d : Dir) (block i : Nat) : Prop := Slot geo d block i ∧ (d.entries block i).inode ≠ 0

def Held (d : Dir) (name : Str) (ino : Nat) : Prop :=
  ∃ block i, Used geo d block i ∧ (d.entries block i).name = name ∧ (d.entries block i).inode = ino

structure Formed (d : Dir) : Prop where
  dir : d.isDir
  multiple : DIRENT_SIZE ∣ d.iSize
  covers : ∀ block i, Used geo d block i →
    block * blockSize geo + (i + 1) * DIRENT_SIZE ≤ d.iSize
  unique : ∀ b i c j, Used geo d b i → Used geo d c j →
    (d.entries b i).name = (d.entries c j).name → b = c ∧ i = j

def Io.Fresh (io : Io) (d : Dir) : Prop :=
  ∀ zone, io.zone = some zone → zone ≠ 0 ∧ ∀ block < maxBlocks geo, d.zones block ≠ zone

def FreeSlot (d : Dir) : Prop :=
  ∃ block i, Slot geo d block i ∧ block * blockSize geo < d.iSize ∧ (d.entries block i).inode = 0

structure Maps (d : Dir) : Prop where
  finds : ∀ name, name.length ≤ NAME_LEN → ∀ ino,
    minix3Lookup geo working d name = some ino ↔ Held geo d name ino
  adds : ∀ io name ino d', io.Fresh geo d → ino ≠ 0 → (∀ x, ¬Held geo d name x) →
    minix3AddDirent geo io d name ino = some d' →
    Formed geo d' ∧ (FreeSlot geo d → d'.zones = d.zones) ∧
    ∀ other, other.length ≤ NAME_LEN → ∀ x, minix3Lookup geo working d' other = some x ↔
      if other = name then x = ino else minix3Lookup geo working d other = some x
  removes : ∀ io name d', name.length ≤ NAME_LEN → minix3RemoveDirent geo io d name = some d' →
    Formed geo d' ∧ d'.zones = d.zones ∧ d'.iSize = d.iSize ∧
    ∀ other, other.length ≤ NAME_LEN → ∀ x, minix3Lookup geo working d' other = some x ↔
      other ≠ name ∧ minix3Lookup geo working d other = some x

def Rounds (d : Dir) : Prop :=
  d.iSize + blockSize geo ≤ 2 ^ 32 ∨
    ∀ block < maxBlocks geo, block * blockSize geo < d.iSize → d.zones block = 0

variable {geo} {d d' : Dir} {io : Io} {p : Entry → Bool} {name : Str}

/-! ## Blocks -/

theorem blockSizes : blockSize geo = 1024 ∨ blockSize geo = 4096 := by
  unfold blockSize DIRENT_SIZE
  rcases geo.sized with h | h
  · left
    rw [h]
  · right
    rw [h]

theorem blockEntries : geo.perBlock * 64 = blockSize geo := rfl

theorem roundedDown (size block bs : Nat) (sizes : bs = 1024 ∨ bs = 4096) (room : size + bs ≤ 2 ^ 32) :
    block < (size + bs - 1) % 2 ^ 32 / bs ↔ block * bs < size := by
  rcases sizes with rfl | rfl <;> omega

theorem roundedOver (size bs : Nat) (sizes : bs = 1024 ∨ bs = 4096) (small : size < 2 ^ 32)
    (past : 2 ^ 32 < size + bs) : (size + bs - 1) % 2 ^ 32 / bs = 0 := by
  rcases sizes with rfl | rfl <;> omega

theorem inside (room : d.iSize + blockSize geo ≤ 2 ^ 32) (block : Nat) :
    block < numBlocks geo d ↔ block * blockSize geo < d.iSize :=
  roundedDown d.iSize block _ blockSizes room

theorem overflown (past : ¬d.iSize + blockSize geo ≤ 2 ^ 32) : numBlocks geo d = 0 :=
  roundedOver d.iSize _ blockSizes d.small (Nat.lt_of_not_le past)

section scanning
variable {block left c i : Nat}

theorem readSlots {count : Nat} (read : readDirBlock geo io d block = some count) (i : Nat) :
    i < count ↔ Slot geo d block i := by
  unfold readDirBlock at read
  unfold Slot
  split at read
  · cases read
  · rename_i mapped
    rw [not_or] at mapped
    split at read
    · rename_i hole
      cases read
      simp [hole]
    · rename_i zone
      split at read
      · cases read
        simp [zone, Nat.lt_of_not_le mapped.1]
      · cases read

theorem readWorking (below : block < maxBlocks geo) :
    ∃ count, readDirBlock geo working d block = some count := by
  unfold readDirBlock working
  rw [if_neg (by simp [below])]
  split
  · exact ⟨0, rfl⟩
  · exact ⟨geo.perBlock, rfl⟩

theorem firstSlotSome {count : Nat} (found : firstSlot p d block count = some i) :
    i < count ∧ p (d.entries block i) := by
  unfold firstSlot at found
  rw [List.find?_range_eq_some] at found
  obtain ⟨satisfies, below, _⟩ := found
  exact ⟨List.mem_range.mp below, satisfies⟩

theorem firstSlotNone {count : Nat} (none_ : firstSlot p d block count = none) (below : i < count) :
    ¬p (d.entries block i) := by
  unfold firstSlot at none_
  exact List.find?_eq_none.mp none_ i (List.mem_range.mpr below)

theorem scanFound (found : scan geo io p d block left = some (some (c, i))) :
    block ≤ c ∧ c < block + left ∧ Slot geo d c i ∧ p (d.entries c i) := by
  induction left generalizing block with
  | zero => simp [scan] at found
  | succ left ih =>
    rw [scan] at found
    split at found
    · cases found
    · rename_i count read
      split at found
      · rename_i j first
        cases found
        obtain ⟨below, satisfies⟩ := firstSlotSome first
        exact ⟨Nat.le_refl _, by omega, (readSlots read i).mp below, satisfies⟩
      · obtain ⟨low, high, slot, satisfies⟩ := ih found
        exact ⟨by omega, by omega, slot, satisfies⟩

theorem scanNothing (nothing : scan geo io p d block left = some none) (low : block ≤ c)
    (high : c < block + left) (slot : Slot geo d c i) : ¬p (d.entries c i) := by
  induction left generalizing block with
  | zero => omega
  | succ left ih =>
    rw [scan] at nothing
    split at nothing
    · cases nothing
    · rename_i count read
      split at nothing
      · cases nothing
      · rename_i first
        by_cases here : c = block
        · subst here
          exact firstSlotNone first ((readSlots read i).mpr slot)
        · exact ih nothing (by omega) (by omega)

theorem scanFinds (low : block ≤ c) (high : c < block + left) (slot : Slot geo d c i)
    (satisfies : p (d.entries c i)) :
    ∃ b j, scan geo working p d block left = some (some (b, j)) := by
  induction left generalizing block with
  | zero => omega
  | succ left ih =>
    obtain ⟨count, read⟩ := @readWorking geo d block (Nat.lt_of_le_of_lt low slot.1)
    rw [scan, read]
    dsimp only
    cases first : firstSlot p d block count with
    | some j => exact ⟨block, j, rfl⟩
    | none =>
      refine ih ?_ (by omega)
      by_contra before
      have here : c = block := by omega
      subst here
      exact firstSlotNone first ((readSlots read i).mpr slot) satisfies

end scanning

theorem searchFound {b i : Nat} (found : search geo io p d = some (some (b, i))) :
    b < numBlocks geo d ∧ Slot geo d b i ∧ p (d.entries b i) := by
  obtain ⟨_, high, slot, satisfies⟩ := scanFound found
  exact ⟨by omega, slot, satisfies⟩

theorem searchNothing (nothing : search geo io p d = some none) {b i : Nat}
    (below : b < numBlocks geo d) (slot : Slot geo d b i) : ¬p (d.entries b i) :=
  scanNothing nothing (Nat.zero_le _) (by omega) slot

theorem namedIff (short : name.length ≤ NAME_LEN) (e : Entry) :
    named name e = true ↔ e.inode ≠ 0 ∧ e.name = name := by
  unfold named
  rw [List.take_of_length_le short]
  simp

/-! ## Lookup -/

def Scanned (geo : Geometry) (d : Dir) : Prop := ∀ b i, Used geo d b i → b < numBlocks geo d

theorem lookupFinds (dir : d.isDir) {b i : Nat} (scanned : b < numBlocks geo d)
    (slot : Slot geo d b i) (is : named name (d.entries b i)) :
    ∃ c j, Slot geo d c j ∧ named name (d.entries c j) ∧
      minix3Lookup geo working d name = some (d.entries c j).inode := by
  obtain ⟨c, j, found⟩ := scanFinds (Nat.zero_le _) (by rwa [Nat.zero_add]) slot is
  obtain ⟨_, slot', is'⟩ := searchFound found
  refine ⟨c, j, slot', is', ?_⟩
  unfold minix3Lookup
  rw [dir, if_neg (by decide), search, found]

theorem lookupFound {ino : Nat} (found : minix3Lookup geo io d name = some ino) :
    d.isDir ∧ ∃ b i, Slot geo d b i ∧ named name (d.entries b i) ∧ (d.entries b i).inode = ino := by
  unfold minix3Lookup at found
  split at found
  · cases found
  · rename_i dir
    refine ⟨by simpa using dir, ?_⟩
    split at found
    · rename_i b i at'
      cases found
      obtain ⟨_, slot, is⟩ := searchFound at'
      exact ⟨b, i, slot, is, rfl⟩
    · cases found

theorem lookupHeld (formed : Formed geo d) (scanned : Scanned geo d)
    (short : name.length ≤ NAME_LEN) (ino : Nat) :
    minix3Lookup geo working d name = some ino ↔ Held geo d name ino := by
  constructor
  · intro result
    obtain ⟨_, b, i, slot, is, inode⟩ := lookupFound result
    obtain ⟨used, same⟩ := (namedIff short _).mp is
    exact ⟨b, i, ⟨slot, used⟩, same, inode⟩
  · rintro ⟨b, i, used, same, rfl⟩
    obtain ⟨c, j, slot, is, found⟩ := lookupFinds formed.dir (scanned b i used) used.1
      ((namedIff short _).mpr ⟨used.2, same⟩)
    obtain ⟨used', same'⟩ := (namedIff short _).mp is
    obtain ⟨rfl, rfl⟩ := formed.unique b i c j used ⟨slot, used'⟩ (same.trans same'.symm)
    exact found

theorem scannedAll (formed : Formed geo d) (rounds : Rounds geo d) : Scanned geo d := by
  intro b i used
  have covered := formed.covers b i used
  have start : b * blockSize geo < d.iSize := by
    have some : 0 < (i + 1) * DIRENT_SIZE := Nat.mul_pos (Nat.succ_pos i) (by decide)
    omega
  rcases rounds with room | holes
  · exact (inside room b).mpr start
  · exact absurd (holes b used.1.1 start) used.1.2.1

/-! ## A changed entry -/

structure Added (geo : Geometry) (d d' : Dir) (b i : Nat) (e : Entry) : Prop where
  dir : d'.isDir = d.isDir
  before : ¬Used geo d b i
  here : d'.entries b i = e
  used : ∀ c j, Used geo d' c j ↔ (c = b ∧ j = i) ∨ Used geo d c j
  others : ∀ c j, Used geo d c j → d'.entries c j = d.entries c j

section added
variable {b i : Nat} {e : Entry}

theorem Added.held (added : Added geo d d' b i e) (other : Str) (x : Nat) :
    Held geo d' other x ↔ (other = e.name ∧ x = e.inode) ∨ Held geo d other x := by
  constructor
  · rintro ⟨c, j, used, same, rfl⟩
    rcases (added.used c j).mp used with ⟨rfl, rfl⟩ | old
    · rw [added.here] at same ⊢
      exact .inl ⟨same.symm, rfl⟩
    · have same' := added.others c j old
      rw [same'] at same ⊢
      exact .inr ⟨c, j, old, same, rfl⟩
  · rintro (⟨rfl, rfl⟩ | ⟨c, j, old, same, rfl⟩)
    · have used := (added.used b i).mpr (.inl ⟨rfl, rfl⟩)
      rw [← added.here]
      exact ⟨b, i, used, rfl, rfl⟩
    · have same' := added.others c j old
      exact ⟨c, j, (added.used c j).mpr (.inr old), by rw [same', same], by rw [same']⟩

theorem Added.formed (added : Added geo d d' b i e) (formed : Formed geo d)
    (new : ∀ x, ¬Held geo d e.name x) (multiple : DIRENT_SIZE ∣ d'.iSize)
    (room : b * blockSize geo + (i + 1) * DIRENT_SIZE ≤ d'.iSize)
    (covers : ∀ c j, Used geo d c j → c * blockSize geo + (j + 1) * DIRENT_SIZE ≤ d'.iSize) :
    Formed geo d' where
  dir := added.dir.trans formed.dir
  multiple := multiple
  covers := by
    intro c j used
    rcases (added.used c j).mp used with ⟨rfl, rfl⟩ | old
    · exact room
    · exact covers c j old
  unique := by
    have fresh : ∀ c j, Used geo d c j → (d.entries c j).name ≠ e.name :=
      fun c j old same => new _ ⟨c, j, old, same, rfl⟩
    intro c j c' j' used used' same
    rcases (added.used c j).mp used with ⟨rfl, rfl⟩ | old <;>
      rcases (added.used c' j').mp used' with ⟨rfl, rfl⟩ | old'
    · exact ⟨rfl, rfl⟩
    · rw [added.here, added.others c' j' old'] at same
      exact absurd same.symm (fresh c' j' old')
    · rw [added.here, added.others c j old] at same
      exact absurd same (fresh c j old)
    · rw [added.others c j old, added.others c' j' old'] at same
      exact formed.unique c j c' j' old old' same

end added

/-! ## Adding and removing -/

section adding
variable {ino : Nat}

theorem coverSpec (d : Dir) (b i : Nat) (below : b * blockSize geo + (i + 1) * DIRENT_SIZE < 2 ^ 32) :
    (d.cover geo b i).iSize = max d.iSize (b * blockSize geo + (i + 1) * DIRENT_SIZE) ∧
      (d.cover geo b i).isDir = d.isDir ∧ (d.cover geo b i).zones = d.zones ∧
      (d.cover geo b i).entries = d.entries := by
  have same : u32 (b * blockSize geo + (i + 1) * DIRENT_SIZE) = _ := Nat.mod_eq_of_lt below
  unfold Dir.cover
  dsimp only
  split
  · rename_i less
    refine ⟨?_, rfl, rfl, rfl⟩
    dsimp only
    rw [same] at less ⊢
    exact (Nat.max_eq_right (Nat.le_of_lt less)).symm
  · rename_i covered
    rw [same] at covered
    exact ⟨(Nat.max_eq_left (Nat.le_of_not_lt covered)).symm, rfl, rfl, rfl⟩

theorem endsBelow (size b i bs per : Nat) (sizes : bs = 1024 ∨ bs = 4096) (whole : per * 64 = bs)
    (scanned : b < (size + bs - 1) % 2 ^ 32 / bs) (slot : i < per) :
    b * bs + (i + 1) * 64 + bs ≤ 2 ^ 32 := by
  rcases sizes with rfl | rfl <;> omega

theorem addCases (done : minix3AddDirent geo io d name ino = some d') :
    d.isDir ∧ name.length < NAME_LEN ∧
      ((∃ b i, search geo io isFree d = some (some (b, i)) ∧
          d' = (d.setEntry b i (entry ino name)).cover geo b i) ∨
        (search geo io isFree d = some none ∧ numBlocks geo d < DIRECT_ZONES ∧
          ∃ zone, io.zone = some zone ∧ d' = d.grow geo (numBlocks geo d) zone (entry ino name))) := by
  unfold minix3AddDirent at done
  split at done
  · cases done
  · rename_i dir
    split at done
    · cases done
    · rename_i short
      refine ⟨by simpa using dir, by omega, ?_⟩
      split at done
      · cases done
      · rename_i b i found
        split at done
        · cases done
          exact .inl ⟨b, i, found, rfl⟩
        · cases done
      · rename_i nothing
        dsimp only at done
        split at done
        · rename_i direct
          obtain ⟨zone, given, done⟩ := Option.bind_eq_some_iff.mp done
          split at done
          · cases done
            exact .inr ⟨nothing, direct, zone, given, rfl⟩
          · cases done
        · cases done

theorem entryName (short : name.length < NAME_LEN) : (entry ino name).name = name :=
  List.take_of_length_le (Nat.le_sub_one_of_lt short)

theorem entryInode : (entry ino name).inode = ino := rfl

theorem isFreeIff (e : Entry) : isFree e = true ↔ e.inode = 0 := by
  unfold isFree
  simp

theorem reuseAdded {b i : Nat} (nonzero : ino ≠ 0) (slot : Slot geo d b i)
    (free : (d.entries b i).inode = 0)
    (below : b * blockSize geo + (i + 1) * DIRENT_SIZE < 2 ^ 32) :
    Added geo d ((d.setEntry b i (entry ino name)).cover geo b i) b i (entry ino name) := by
  obtain ⟨_, dir, zones, entries⟩ := coverSpec (d.setEntry b i (entry ino name)) b i below
  replace zones : ((d.setEntry b i (entry ino name)).cover geo b i).zones = d.zones := zones
  have here : ((d.setEntry b i (entry ino name)).cover geo b i).entries b i = entry ino name := by
    rw [entries]
    simp [Dir.setEntry]
  have others : ∀ c j, ¬(c = b ∧ j = i) →
      ((d.setEntry b i (entry ino name)).cover geo b i).entries c j = d.entries c j := by
    intro c j other
    rw [entries]
    simp [Dir.setEntry, other]
  refine ⟨dir, fun used => used.2 free, here, fun c j => ?_, fun c j used => others c j ?_⟩
  · by_cases same : c = b ∧ j = i
    · obtain ⟨rfl, rfl⟩ := same
      simp only [Used, Slot, zones, here, entryInode]
      simp [slot.1, slot.2.1, slot.2.2, nonzero]
    · simp only [Used, Slot, zones, others c j same]
      simp [same]
  · rintro ⟨rfl, rfl⟩
    exact used.2 free

theorem growAdded {b zone : Nat} (nonzero : ino ≠ 0) (block : b < maxBlocks geo) (new : zone ≠ 0)
    (empty : ∀ i, ¬Used geo d b i) :
    Added geo d (d.grow geo b zone (entry ino name)) b 0 (entry ino name) := by
  have some : 0 < geo.perBlock := by
    rcases geo.sized with h | h <;> omega
  refine ⟨rfl, empty 0, by simp [Dir.grow], fun c j => ?_, fun c j used => ?_⟩
  · by_cases same : c = b
    · subst same
      have none_ := empty j
      by_cases first : j = 0
      · subst first
        simp only [Used, Slot, Dir.grow]
        simp [block, new, some, nonzero, entryInode]
      · simp only [Used, Slot, Dir.grow]
        simp only [Used, Slot] at none_
        simp [first, unused, none_]
    · simp only [Used, Slot, Dir.grow]
      simp [same]
  · have other : c ≠ b := fun same => empty j (same ▸ used)
    simp [Dir.grow, other]

theorem grownSize (size bs : Nat) (sizes : bs = 1024 ∨ bs = 4096) (multiple : 64 ∣ size)
    (room : size + bs ≤ 2 ^ 32) (few : (size + bs - 1) % 2 ^ 32 / bs < 7) :
    (size + bs - 1) % 2 ^ 32 / bs * bs + 64 ≤ (size + bs) % 2 ^ 32 ∧
      size ≤ (size + bs) % 2 ^ 32 ∧ (size + bs) % 2 ^ 32 + bs ≤ 2 ^ 32 := by
  rcases sizes with rfl | rfl <;> omega

theorem wrappedSize (size bs : Nat) (sizes : bs = 1024 ∨ bs = 4096) (multiple : 64 ∣ size)
    (small : size < 2 ^ 32) (past : ¬size + bs ≤ 2 ^ 32) :
    64 ≤ (size + bs) % 2 ^ 32 ∧ (size + bs) % 2 ^ 32 + bs ≤ 2 ^ 32 := by
  rcases sizes with rfl | rfl <;> omega

theorem wrappedMultiple (size bs : Nat) (sizes : bs = 1024 ∨ bs = 4096) (multiple : 64 ∣ size) :
    64 ∣ (size + bs) % 2 ^ 32 := by
  rcases sizes with rfl | rfl <;> omega

theorem addLeaves (formed : Formed geo d) (rounds : Rounds geo d) (fresh : io.Fresh geo d)
    (nonzero : ino ≠ 0) (done : minix3AddDirent geo io d name ino = some d') :
    (FreeSlot geo d → d'.zones = d.zones) ∧ d'.iSize + blockSize geo ≤ 2 ^ 32 ∧
      DIRENT_SIZE ∣ d'.iSize ∧
      (∀ c j, Used geo d c j → c * blockSize geo + (j + 1) * DIRENT_SIZE ≤ d'.iSize) ∧
      ∃ b i, Added geo d d' b i (entry ino name) ∧
        b * blockSize geo + (i + 1) * DIRENT_SIZE ≤ d'.iSize := by
  obtain ⟨_, _, ⟨b, i, found, rfl⟩ | ⟨nothing, direct, zone, given, rfl⟩⟩ := addCases done
  · obtain ⟨scanned, slot, free⟩ := searchFound found
    rw [isFreeIff] at free
    have room : d.iSize + blockSize geo ≤ 2 ^ 32 := by
      by_contra past
      rw [overflown past] at scanned
      omega
    have ends := endsBelow d.iSize b i _ geo.perBlock blockSizes blockEntries scanned slot.2.2
    have below : b * blockSize geo + (i + 1) * DIRENT_SIZE < 2 ^ 32 := by
      unfold DIRENT_SIZE
      rcases @blockSizes geo with h | h <;> omega
    obtain ⟨size, _, zones, _⟩ := coverSpec (d.setEntry b i (entry ino name)) b i below
    replace size : ((d.setEntry b i (entry ino name)).cover geo b i).iSize = max d.iSize _ := size
    refine ⟨fun _ => zones, ?_, ?_, fun c j used => ?_, b, i, reuseAdded nonzero slot free below, ?_⟩
    · rw [size]
      unfold DIRENT_SIZE
      omega
    · have whole : DIRENT_SIZE ∣ b * blockSize geo + (i + 1) * DIRENT_SIZE :=
        Nat.dvd_add ⟨b * geo.perBlock, by rw [blockSize, ← Nat.mul_assoc, Nat.mul_comm]⟩
          (Nat.dvd_mul_left _ _)
      rw [size]
      rcases Nat.le_total d.iSize (b * blockSize geo + (i + 1) * DIRENT_SIZE) with h | h
      · rwa [Nat.max_eq_right h]
      · rw [Nat.max_eq_left h]
        exact formed.multiple
    · rw [size]
      exact Nat.le_trans (formed.covers c j used) (Nat.le_max_left _ _)
    · rw [size]
      exact Nat.le_max_right _ _
  · obtain ⟨new, _⟩ := fresh zone given
    have empty : ∀ i, ¬Used geo d (numBlocks geo d) i :=
      fun i used => absurd (scannedAll formed rounds _ i used) (Nat.lt_irrefl _)
    have block : numBlocks geo d < maxBlocks geo := by
      unfold maxBlocks
      dsimp only
      omega
    have added : Added geo d (d.grow geo (numBlocks geo d) zone (entry ino name)) _ 0 (entry ino name) :=
      growAdded nonzero block new empty
    have multiple := wrappedMultiple d.iSize (blockSize geo) blockSizes formed.multiple
    by_cases room : d.iSize + blockSize geo ≤ 2 ^ 32
    · obtain ⟨end', kept, room'⟩ :=
        grownSize d.iSize (blockSize geo) blockSizes formed.multiple room direct
      refine ⟨?_, room', multiple, fun c j used => Nat.le_trans (formed.covers c j used) kept,
        _, 0, added, end'⟩
      rintro ⟨b, i, slot, start, free⟩
      exact absurd ((isFreeIff _).mpr free) (searchNothing nothing ((inside room b).mpr start) slot)
    · have holes := rounds.resolve_left room
      have unusedAll : ∀ c j, ¬Used geo d c j := by
        intro c j used
        have scanned := scannedAll formed rounds c j used
        rw [overflown room] at scanned
        omega
      obtain ⟨end', room'⟩ :=
        wrappedSize d.iSize (blockSize geo) blockSizes formed.multiple d.small room
      refine ⟨?_, room', multiple, fun c j used => absurd used (unusedAll c j), _, 0, added, ?_⟩
      · rintro ⟨b, i, slot, start, _⟩
        exact absurd (holes b slot.1 start) slot.2.1
      · rw [overflown room, Nat.zero_mul]
        exact end'

end adding

theorem removeCases (done : minix3RemoveDirent geo io d name = some d') :
    ∃ b i, search geo io (named name) d = some (some (b, i)) ∧ d' = d.setEntry b i unused := by
  unfold minix3RemoveDirent at done
  split at done
  · cases done
  · split at done
    · rename_i b i found
      split at done
      · cases done
        exact ⟨b, i, found, rfl⟩
      · cases done
    · cases done

theorem removedUsed (d : Dir) (b i c j : Nat) :
    Used geo (d.setEntry b i unused) c j ↔ Used geo d c j ∧ ¬(c = b ∧ j = i) := by
  unfold Used Slot Dir.setEntry
  dsimp only
  by_cases same : c = b ∧ j = i
  · simp [same, unused]
  · simp [same]

theorem removedEntry (d : Dir) {b i c j : Nat} (other : ¬(c = b ∧ j = i)) :
    (d.setEntry b i unused).entries c j = d.entries c j := by
  simp [Dir.setEntry, other]

theorem removeFormed (formed : Formed geo d) (b i : Nat) : Formed geo (d.setEntry b i unused) where
  dir := formed.dir
  multiple := formed.multiple
  covers := fun c j used => formed.covers c j ((removedUsed d b i c j).mp used).1
  unique := by
    intro c j c' j' used used' same
    obtain ⟨old, other⟩ := (removedUsed d b i c j).mp used
    obtain ⟨old', other'⟩ := (removedUsed d b i c' j').mp used'
    rw [removedEntry d other, removedEntry d other'] at same
    exact formed.unique c j c' j' old old' same

theorem removeHeld (formed : Formed geo d) {b i : Nat} (used : Used geo d b i)
    (is : (d.entries b i).name = name) (other : Str) (x : Nat) :
    Held geo (d.setEntry b i unused) other x ↔ other ≠ name ∧ Held geo d other x := by
  constructor
  · rintro ⟨c, j, used', same, rfl⟩
    obtain ⟨old, apart⟩ := (removedUsed d b i c j).mp used'
    rw [removedEntry d apart] at same ⊢
    refine ⟨?_, c, j, old, same, rfl⟩
    rintro rfl
    exact apart (formed.unique c j b i old used (same.trans is.symm))
  · rintro ⟨apart, c, j, old, same, rfl⟩
    have other : ¬(c = b ∧ j = i) := by
      rintro ⟨rfl, rfl⟩
      exact apart (same.symm.trans is)
    refine ⟨c, j, (removedUsed d b i c j).mpr ⟨old, other⟩, ?_, ?_⟩
    · rw [removedEntry d other, same]
    · rw [removedEntry d other]

theorem roundsMaps (formed : Formed geo d) (rounds : Rounds geo d) : Maps geo d where
  finds := fun name short ino => lookupHeld formed (scannedAll formed rounds) short ino
  adds := by
    intro io name ino d' fresh nonzero new done
    obtain ⟨_, short, _⟩ := addCases done
    obtain ⟨reused, room, multiple, covers, b, i, added, end'⟩ :=
      addLeaves formed rounds fresh nonzero done
    have formed' := added.formed formed (by rwa [entryName short]) multiple end' covers
    refine ⟨formed', reused, fun other within x => ?_⟩
    rw [lookupHeld formed' (scannedAll formed' (.inl room)) within x, added.held other x,
      lookupHeld formed (scannedAll formed rounds) within x, entryName short, entryInode]
    split
    · rename_i same
      simp [same, new x]
    · rename_i apart
      simp [apart]
  removes := by
    intro io name d' short done
    obtain ⟨b, i, found, rfl⟩ := removeCases done
    obtain ⟨_, slot, is⟩ := searchFound found
    obtain ⟨inode, same⟩ := (namedIff short _).mp is
    have formed' := removeFormed formed b i
    have rounds' : Rounds geo (d.setEntry b i unused) := rounds
    refine ⟨formed', rfl, rfl, fun other within x => ?_⟩
    rw [lookupHeld formed' (scannedAll formed' rounds') within x,
      removeHeld formed ⟨slot, inode⟩ same other x,
      lookupHeld formed (scannedAll formed rounds) within x]

/-! ## Sizes near 4 GiB -/

section past
variable (past : ¬d.iSize + blockSize geo ≤ 2 ^ 32)
include past

theorem overSearch (io : Io) (p : Entry → Bool) : search geo io p d = some none := by
  rw [search, overflown past, scan]

theorem overLookup (io : Io) (name : Str) : minix3Lookup geo io d name = none := by
  unfold minix3Lookup
  rw [overSearch past]
  split <;> rfl

theorem overAdd (dir : d.isDir) (zone : Nat) :
    minix3AddDirent geo ⟨fun _ => true, fun _ => true, fun _ => true, some zone⟩ d ['a'] 1 =
      some (d.grow geo 0 zone (entry 1 ['a'])) := by
  unfold minix3AddDirent
  rw [dir, if_neg (by decide), if_neg (by decide), overSearch past, overflown past]
  rfl

end past

theorem zoneBound (zones : Nat → Nat) (n : Nat) : ∃ bound, ∀ block < n, zones block < bound := by
  induction n with
  | zero => exact ⟨0, fun block below => absurd below (Nat.not_lt_zero block)⟩
  | succ n ih =>
    obtain ⟨bound, below⟩ := ih
    refine ⟨bound + zones n + 1, fun block within => ?_⟩
    rcases Nat.lt_succ_iff_lt_or_eq.mp within with lower | rfl
    · have := below block lower
      omega
    · omega

/-- The directory operations implement the map of the entries of a directory exactly where
its size rounds up to blocks without an overflow, or where it has no block. -/
theorem dirMapsIff (geo : Geometry) (d : Dir) (formed : Formed geo d) :
    Maps geo d ↔ Rounds geo d := by
  refine ⟨fun maps => ?_, roundsMaps formed⟩
  by_contra not
  unfold Rounds at not
  push Not at not
  obtain ⟨past, block, mapped, start, zone⟩ := not
  have past' : ¬d.iSize + blockSize geo ≤ 2 ^ 32 := by omega
  have filled : 0 < geo.perBlock := by
    rcases geo.sized with h | h <;> omega
  have slot : Slot geo d block 0 := ⟨mapped, zone, filled⟩
  have empty : ∀ name ino, name.length ≤ NAME_LEN → ¬Held geo d name ino := by
    intro name ino short held
    have found := (maps.finds name short ino).mpr held
    rw [overLookup past'] at found
    cases found
  have free : (d.entries block 0).inode = 0 := by
    by_contra used
    exact empty _ _ (d.entries block 0).short ⟨block, 0, ⟨slot, used⟩, rfl, rfl⟩
  obtain ⟨bound, below⟩ := zoneBound d.zones (maxBlocks geo)
  have fresh : Io.Fresh geo ⟨fun _ => true, fun _ => true, fun _ => true, some (bound + 1)⟩ d := by
    intro zone given
    cases given
    exact ⟨Nat.succ_ne_zero _, fun b within => Nat.ne_of_lt (Nat.lt_succ_of_lt (below b within))⟩
  obtain ⟨_, kept, _⟩ := maps.adds _ ['a'] 1 _ fresh (by decide)
    (fun x => empty _ x (by decide)) (overAdd past' formed.dir (bound + 1))
  have same := congrFun (kept ⟨block, 0, slot, start, free⟩) 0
  exact (fresh _ rfl).2 0 (by omega) same.symm

def smallDir (size : Nat) (small : size < 2 ^ 32) : Dir where
  isDir := true
  iSize := size
  small := small
  zones := fun block => if block = 0 then 9 else 0
  entries := fun block i => if block = 0 ∧ i = 0 then entry 2 ['f'] else unused

def smallGeo : Geometry := ⟨16, .inl rfl, 64, 64, 5⟩

theorem smallUsed {size : Nat} {small : size < 2 ^ 32} {b i : Nat}
    (used : Used smallGeo (smallDir size small) b i) : b = 0 ∧ i = 0 := by
  by_contra other
  exact used.2 (by simp [smallDir, other, unused])

theorem smallFormed {size : Nat} (small : size < 2 ^ 32) (multiple : 64 ∣ size) (some : 64 ≤ size) :
    Formed smallGeo (smallDir size small) where
  dir := rfl
  multiple := multiple
  covers := by
    intro b i used
    obtain ⟨rfl, rfl⟩ := smallUsed used
    rw [Nat.zero_mul]
    exact some
  unique := by
    intro b i c j used used' _
    obtain ⟨rfl, rfl⟩ := smallUsed used
    obtain ⟨rfl, rfl⟩ := smallUsed used'
    exact ⟨rfl, rfl⟩

theorem smallDirMaps : Maps smallGeo (smallDir 1024 (by decide)) :=
  (dirMapsIff smallGeo (smallDir 1024 (by decide))
    (smallFormed (by decide) (by decide) (by decide))).mpr (.inl (by decide))

/-- The size 2^32 - 64 rounds up to no block, and the entry is not found. -/
theorem hugeDirLosesEntry : ¬∀ d, Formed smallGeo d → Maps smallGeo d := by
  intro claimed
  have maps := claimed (smallDir (2 ^ 32 - 64) (by decide))
    (smallFormed (by decide) (by decide) (by decide))
  have held : Held smallGeo (smallDir (2 ^ 32 - 64) (by decide)) ['f'] 2 :=
    ⟨0, 0, ⟨⟨by decide, by decide, by decide⟩, by decide⟩, rfl, rfl⟩
  have found := (maps.finds ['f'] (by decide) 2).mpr held
  rw [overLookup (by decide)] at found
  cases found

end Scepter.Minix3.DirMap
