import Scepter.Lib.Bytes
import Scepter.Lib.Path
import Scepter.Kernel.Errno

/-! Symbolic links of ext2 and minix3 (ext2.c, minix3.c) with ext2_write_file, ext2_read_file,
minix3_write_file and minix3_read_file as far as a target of at most 512 bytes needs them: it
lies in the first block of the file, so that their loops go round once. The parent directory,
to which both calls of a driver walk in the same way, is the list of its entries. -/
namespace Scepter.Symlinks
open Scepter.Path (Str)

def TARGET_MAX : Nat := 512
def FAST_MAX : Nat := 60
def EXT2_NAME_LEN : Nat := 255
def MINIX3_NAME_LEN : Nat := 60

structure Inode where
  isLnk : Bool
  size : Nat
  blocks : Nat
  block : Buf

structure Volume where
  inodes : Nat → Inode
  entries : List (Str × Nat)
  data : Nat → Buf

abbrev BlockNo := {b : Nat // 0 < b ∧ b < 2 ^ 32}

/-- How the calls below a symlink end: the walk to the parent, the look for the name, the
allocations, the place of the new entry, and whether all other transfers go through. -/
structure Making where
  parent : Bool
  looks : Bool
  ino : Option Nat
  block : Option BlockNo
  slot : Option Nat
  goes : Bool

structure Reading where
  parent : Bool
  looks : Bool
  inode : Bool
  data : Bool

def find (key : Str) (entries : List (Str × Nat)) : Option Nat :=
  (entries.find? fun e => e.1 = key).map Prod.snd

def lookup (looks : Bool) (key : Str) (v : Volume) : Option Nat :=
  if looks then find key v.entries else none

def addDirent (slot : Nat) (name : Str) (ino : Nat) (v : Volume) : Volume :=
  {v with entries := v.entries.take slot ++ (name, ino) :: v.entries.drop slot}

def text (target : List Byte) : Buf := fun i => target.getD i 0

def bytes (n : Nat) (buf : Buf) : List Byte := (List.range n).map buf

def freshInode : Inode := ⟨true, 0, 0, Buf.zero⟩

def badName (name : Str) : Bool := name = [] ∨ name = ['.'] ∨ name = ['.', '.'] ∨ '/' ∈ name

def ext2WriteFile (blockSize : Nat) (made : Making) (target : List Byte) (inode : Inode)
    (v : Volume) : Option (Inode × Volume) :=
  let dblk := inode.block.getU32 0
  let got : Option (Buf × Nat × Inode) :=
    if dblk = 0 then made.block.map fun b =>
      (Buf.zero, b.val, {inode with block := inode.block.setU32 0 b.val})
    else some (v.data dblk, dblk, inode)
  got.map fun (blockBuf, dblk, inode) =>
    ({inode with
      size := max inode.size target.length
      blocks := blockSize / 512},
    {v with data :=
      Function.update v.data dblk (Buf.overlay target.length (text target) blockBuf)})

def minix3WriteFile (made : Making) (target : List Byte) (inode : Inode) (v : Volume) :
    Option (Inode × Volume) :=
  if target = [] then some (inode, v)
  else
    let zone := inode.block.getU32 0
    let got : Option (Nat × Inode) :=
      if zone = 0 then made.block.map fun b =>
        (b.val, {inode with block := inode.block.setU32 0 b.val})
      else some (zone, inode)
    got.map fun (zone, inode) =>
      let blockBuf := if 0 < inode.size then v.data zone else Buf.zero
      ({inode with size := max inode.size target.length},
      {v with data :=
        Function.update v.data zone (Buf.overlay target.length (text target) blockBuf)})

def finish (made : Making) (name : Str) (ino : Nat) (inode : Inode) (v : Volume) :
    Option Volume :=
  made.slot.map fun slot =>
    addDirent slot name ino {v with inodes := Function.update v.inodes ino inode}

def ext2VfsSymlink (blockSize : Nat) (made : Making) (target : List Byte) (path : Str)
    (v : Volume) : Option Volume :=
  let name := path.take EXT2_NAME_LEN
  if badName name ∨ !made.parent ∨ (lookup made.looks name v).isSome then none
  else if target.length > TARGET_MAX ∨ !made.goes then none
  else made.ino.bind fun ino =>
    if target.length ≤ FAST_MAX then
      let block := Buf.overlay target.length (text target) Buf.zero
      finish made name ino {freshInode with size := target.length, block := block} v
    else (ext2WriteFile blockSize made target freshInode v).bind fun (inode, v) =>
      finish made name ino inode v

def minix3VfsSymlink (made : Making) (target : List Byte) (path : Str) (v : Volume) :
    Option Volume :=
  let name := path.take (MINIX3_NAME_LEN - 1)
  if badName name ∨ !made.parent ∨ (lookup made.looks name v).isSome then none
  else if target.length > TARGET_MAX ∨ !made.goes then none
  else made.ino.bind fun ino =>
    (minix3WriteFile made target {freshInode with size := target.length} v).bind
      fun (inode, v) => finish made name ino inode v

def firstBlock (reads : Bool) (inode : Inode) (v : Volume) : Option Buf :=
  let dblk := inode.block.getU32 0
  if dblk = 0 then some Buf.zero else if reads then some (v.data dblk) else none

def ext2VfsReadlink (read : Reading) (path : Str) (bufsize : Nat) (v : Volume) :
    Int × List Byte :=
  if bufsize = 0 ∨ !read.parent then (-1, [])
  else match lookup read.looks (path.take EXT2_NAME_LEN) v with
    | none => (-1, [])
    | some ino =>
      let inode := v.inodes ino
      if !read.inode ∨ !inode.isLnk then (-1, [])
      else
        let len := if inode.size > bufsize - 1 then bufsize - 1 else inode.size
        if inode.blocks = 0 ∧ inode.size ≤ FAST_MAX then (0, bytes len inode.block ++ [0])
        else if len = 0 then (0, [0])
        else match firstBlock read.data inode v with
          | none => (-1, [])
          | some buf => (0, bytes len buf ++ [0])

def minix3VfsReadlink (read : Reading) (path : Str) (bufsize : Nat) (v : Volume) :
    Int × List Byte :=
  if bufsize = 0 ∨ !read.parent then (-1, [])
  else match lookup read.looks (path.take MINIX3_NAME_LEN) v with
    | none => (-1, [])
    | some ino =>
      let inode := v.inodes ino
      if !read.inode ∨ !inode.isLnk then (-1, [])
      else
        let len := if inode.size ≥ bufsize then bufsize - 1 else inode.size
        if len = 0 then ((len : Int), [0])
        else match firstBlock read.data inode v with
          | none => (-1, [])
          | some buf => ((len : Int), bytes len buf ++ [0])

def KBUF : Nat := 256

/-- The result and the bytes that reach user memory: copy_to_user moves `r + 1` of them, or
fewer where it faults. -/
def sysReadlink (fsReadlink : Nat → Int × List Byte) (valid : Bool) (fault : Option Nat)
    (stack : Buf) (bufsize : Nat) : Int × List Byte :=
  if !valid then (-EFAULT, [])
  else
    let n := if bufsize > KBUF then KBUF else bufsize
    let r := fsReadlink n
    if r.1 < 0 then (-EINVAL, [])
    else
      let kbuf := Buf.overlay r.2.length (text r.2) stack
      match fault with
      | some k => (-EFAULT, bytes (min k (r.1.toNat + 1)) kbuf)
      | none => (r.1, bytes (r.1.toNat + 1) kbuf)

/-! ## What comes back -/

def ReadsBack (target : List Byte) (result : Int × List Byte) : Prop :=
  result = ((target.length : Int), target ++ [0])

/-- The look for `key` comes to the inode that has been given the entry `name`: no other entry
of that name stands in front of it, or the cut name is another one and has an entry for the
inode already. -/
def Found (key name : Str) (made : Making) (entries : List (Str × Nat)) : Prop :=
  if key = name then ∃ slot, made.slot = some slot ∧
    (find name (entries.take slot) = none ∨ find name (entries.take slot) = made.ino)
  else find key entries = made.ino

def NewRead (key : Str) (made : Making) (target : List Byte) (v : Volume)
    (result : Int × List Byte) : Prop :=
  find key v.entries = made.ino ∧ ReadsBack target result

section bytes
variable {target : List Byte} {n : Nat}

theorem bytesLength (n : Nat) (buf : Buf) : (bytes n buf).length = n := by
  rw [bytes, List.length_map, List.length_range]

theorem bytesOverlay (target : List Byte) (old : Buf) :
    bytes target.length (Buf.overlay target.length (text target) old) = target := by
  refine List.ext_getElem (bytesLength _ _) fun i _ inside => ?_
  have one : text target i = target[i] := by
    rw [text, List.getD_eq_getElem?_getD, List.getElem?_eq_getElem inside, Option.getD_some]
  simp only [bytes, List.getElem_map, List.getElem_range, Buf.overlay, if_pos inside, one]

theorem findAdded {key : Str} {slot ino : Nat} {v : Volume} :
    find key (addDirent slot key ino v).entries =
      (find key (v.entries.take slot)).or (some ino) := by
  unfold find addDirent
  rw [List.find?_append, List.find?_cons_of_pos (by simp)]
  cases (v.entries.take slot).find? fun e => decide (e.1 = key) <;> rfl

theorem findOther {key name : Str} {slot ino : Nat} {v : Volume} (other : name ≠ key) :
    find key (addDirent slot name ino v).entries = find key v.entries := by
  unfold find addDirent
  rw [List.find?_append, List.find?_cons_of_neg (by simpa using other), ← List.find?_append,
    List.take_append_drop]

end bytes

structure Stored (fast : Bool) (target : List Byte) (inode : Inode) (data : Nat → Buf) :
    Prop where
  isLnk : inode.isLnk = true
  size : inode.size = target.length
  inline : fast = true → inode.blocks = 0 ∧
    inode.block = Buf.overlay target.length (text target) Buf.zero
  apart : fast = false → target ≠ [] → inode.block.getU32 0 ≠ 0 ∧
    ∃ old, data (inode.block.getU32 0) = Buf.overlay target.length (text target) old

section calls
variable {blockSize : Nat} {made : Making} {read : Reading} {target : List Byte} {path name : Str}
  {v v' : Volume} {inode : Inode} {n : Nat}

theorem finishFound {ino : Nat} (key : Str) (number : made.ino = some ino)
    (done : finish made name ino inode v = some v') :
    (find key v'.entries = made.ino ↔ Found key name made v.entries) ∧
      v'.inodes ino = inode ∧ v'.data = v.data := by
  obtain ⟨slot, place, rfl⟩ := Option.map_eq_some_iff.mp done
  refine ⟨?_, Function.update_self .., rfl⟩
  unfold Found
  by_cases same : key = name
  · subst same
    rw [if_pos rfl, findAdded, number]
    change (find key (v.entries.take slot)).or (some ino) = some ino ↔ _
    cases before : find key (v.entries.take slot) with
    | none => exact iff_of_true rfl ⟨slot, place, .inl before⟩
    | some old =>
      refine ⟨fun first => ⟨slot, place, .inr (before.trans first)⟩, fun ⟨slot', place', first⟩ => ?_⟩
      cases place.symm.trans place'
      rw [before] at first
      exact first.resolve_left nofun
  · rw [if_neg same, findOther (Ne.symm same)]

theorem slotZero (b : BlockNo) (block : Buf) : (block.setU32 0 b.val).getU32 0 = b.val :=
  Buf.getU32Set block b.property.2

theorem writtenStored {size blocks : Nat} {data : Nat → Buf} (b : BlockNo) (old : Buf)
    (whole : size = target.length) :
    Stored false target ⟨true, size, blocks, Buf.zero.setU32 0 b.val⟩
      (Function.update data b.val (Buf.overlay target.length (text target) old)) := by
  refine ⟨rfl, whole, nofun, fun _ _ => ?_⟩
  rw [slotZero]
  exact ⟨Nat.ne_of_gt b.property.1, old, Function.update_self ..⟩

theorem ext2Made (accepted : ext2VfsSymlink blockSize made target path v = some v') :
    ∃ ino, made.ino = some ino ∧
      (find (path.take EXT2_NAME_LEN) v'.entries = made.ino ↔
        Found (path.take EXT2_NAME_LEN) (path.take EXT2_NAME_LEN) made v.entries) ∧
      Stored (target.length ≤ FAST_MAX) target (v'.inodes ino) v'.data := by
  unfold ext2VfsSymlink at accepted
  dsimp only at accepted
  split at accepted
  · cases accepted
  split at accepted
  · cases accepted
  obtain ⟨ino, number, accepted⟩ := Option.bind_eq_some_iff.mp accepted
  by_cases fast : target.length ≤ FAST_MAX
  · rw [if_pos fast] at accepted
    obtain ⟨found, inode, _⟩ := finishFound (path.take EXT2_NAME_LEN) number accepted
    refine ⟨ino, number, found, ?_⟩
    rw [inode]
    exact ⟨rfl, rfl, fun _ => ⟨rfl, rfl⟩, fun slow => absurd fast (of_decide_eq_false slow)⟩
  · rw [if_neg fast] at accepted
    obtain ⟨⟨inode, w⟩, wrote, accepted⟩ := Option.bind_eq_some_iff.mp accepted
    unfold ext2WriteFile freshInode at wrote
    dsimp only at wrote
    rw [Buf.getU32Zero, if_pos rfl, Option.map_map] at wrote
    obtain ⟨b, _, same⟩ := Option.map_eq_some_iff.mp wrote
    cases same
    obtain ⟨found, inode, data⟩ := finishFound (path.take EXT2_NAME_LEN) number accepted
    refine ⟨ino, number, found, ?_⟩
    rw [inode, data, decide_eq_false fast]
    exact writtenStored b Buf.zero (Nat.max_eq_right (Nat.zero_le _))

theorem minix3Made (accepted : minix3VfsSymlink made target path v = some v') :
    ∃ ino, made.ino = some ino ∧
      (find (path.take MINIX3_NAME_LEN) v'.entries = made.ino ↔
        Found (path.take MINIX3_NAME_LEN) (path.take (MINIX3_NAME_LEN - 1)) made v.entries) ∧
      Stored false target (v'.inodes ino) v'.data := by
  unfold minix3VfsSymlink at accepted
  dsimp only at accepted
  split at accepted
  · cases accepted
  split at accepted
  · cases accepted
  obtain ⟨ino, number, accepted⟩ := Option.bind_eq_some_iff.mp accepted
  obtain ⟨⟨inode, w⟩, wrote, accepted⟩ := Option.bind_eq_some_iff.mp accepted
  unfold minix3WriteFile at wrote
  by_cases empty : target = []
  · rw [if_pos empty] at wrote
    cases wrote
    obtain ⟨found, inode, _⟩ := finishFound (path.take MINIX3_NAME_LEN) number accepted
    refine ⟨ino, number, found, ?_⟩
    rw [inode]
    exact ⟨rfl, rfl, nofun, fun _ filled => absurd empty filled⟩
  · rw [if_neg empty] at wrote
    unfold freshInode at wrote
    dsimp only at wrote
    rw [Buf.getU32Zero, if_pos rfl, Option.map_map] at wrote
    obtain ⟨b, _, same⟩ := Option.map_eq_some_iff.mp wrote
    cases same
    obtain ⟨found, inode, data⟩ := finishFound (path.take MINIX3_NAME_LEN) number accepted
    refine ⟨ino, number, found, ?_⟩
    rw [inode, data]
    exact writtenStored b _ (Nat.max_self _)

theorem storedBlock {data : Nat → Buf} {reads : Bool} (stored : Stored false target inode data)
    (filled : target ≠ []) (w : Volume) (same : w.data = data) :
    firstBlock reads inode w = none ∧ reads = false ∨
      ∃ old, firstBlock reads inode w = some (Buf.overlay target.length (text target) old) ∧
        reads = true := by
  obtain ⟨block, old, held⟩ := stored.apart rfl filled
  unfold firstBlock
  dsimp only
  rw [if_neg block]
  cases reads with
  | false => exact .inl ⟨rfl, rfl⟩
  | true => exact .inr ⟨old, by rw [if_pos rfl, same, held], rfl⟩

theorem minix3ReadsBack (fits : target.length < n)
    (accepted : minix3VfsSymlink made target path v = some v') :
    NewRead (path.take MINIX3_NAME_LEN) made target v' (minix3VfsReadlink read path n v') ↔
      Found (path.take MINIX3_NAME_LEN) (path.take (MINIX3_NAME_LEN - 1)) made v.entries ∧
        read.parent = true ∧ read.looks = true ∧ read.inode = true ∧
          (target = [] ∨ read.data = true) := by
  obtain ⟨ino, number, found, stored⟩ := minix3Made accepted
  unfold NewRead
  rw [← found]
  refine and_congr_right fun first => ?_
  rw [number] at first
  have never {b : List Byte} (is : (-1, b) = ((target.length : Int), target ++ [0])) : False := by
    have results := congrArg Prod.fst is
    dsimp only at results
    omega
  unfold minix3VfsReadlink ReadsBack
  have positive : n ≠ 0 := Nat.ne_of_gt (Nat.lt_of_le_of_lt (Nat.zero_le _) fits)
  cases walks : read.parent with
  | false =>
    rw [if_pos (.inr rfl)]
    exact iff_of_false never fun all => nomatch all.1
  | true =>
    rw [if_neg (by simpa using positive)]
    cases looks : read.looks with
    | false => exact iff_of_false never fun all => nomatch all.2.1
    | true =>
      have here : lookup true (path.take MINIX3_NAME_LEN) v' = some ino := first
      rw [here]
      dsimp only
      cases inode : read.inode with
      | false => exact iff_of_false never fun all => nomatch all.2.2.1
      | true =>
        rw [if_neg (by rw [stored.isLnk]; decide), stored.size, if_neg (Nat.not_le.mpr fits)]
        by_cases empty : target = []
        · subst empty
          exact iff_of_true rfl ⟨rfl, rfl, rfl, .inl rfl⟩
        · have length : target.length ≠ 0 := fun zero => empty (List.length_eq_zero_iff.mp zero)
          rw [if_neg length]
          rcases @storedBlock _ _ _ read.data stored empty v' rfl with
            ⟨none, refused⟩ | ⟨old, some', reads⟩
          · rw [none]
            refine iff_of_false never fun all => ?_
            rcases all.2.2.2 with is | reads
            · exact empty is
            · cases refused.symm.trans reads
          · rw [some']
            dsimp only
            rw [bytesOverlay]
            exact iff_of_true rfl ⟨rfl, rfl, rfl, .inr reads⟩

theorem ext2Bytes (fits : target.length < n)
    (first : find (path.take EXT2_NAME_LEN) v'.entries = made.ino)
    (accepted : ext2VfsSymlink blockSize made target path v = some v') :
    ext2VfsReadlink read path n v' = (0, target ++ [0]) ∧ read.parent = true ∧
        read.looks = true ∧ read.inode = true ∧
          (target.length ≤ FAST_MAX ∨ read.data = true) ∨
      ext2VfsReadlink read path n v' = (-1, []) ∧
        ¬(read.parent = true ∧ read.looks = true ∧ read.inode = true ∧
          (target.length ≤ FAST_MAX ∨ read.data = true)) := by
  obtain ⟨ino, number, _, stored⟩ := ext2Made accepted
  rw [number] at first
  unfold ext2VfsReadlink
  have positive : n ≠ 0 := Nat.ne_of_gt (Nat.lt_of_le_of_lt (Nat.zero_le _) fits)
  cases walks : read.parent with
  | false =>
    rw [if_pos (.inr rfl)]
    exact .inr ⟨rfl, fun all => nomatch all.1⟩
  | true =>
    rw [if_neg (by simpa using positive)]
    cases looks : read.looks with
    | false => exact .inr ⟨rfl, fun all => nomatch all.2.1⟩
    | true =>
      have here : lookup true (path.take EXT2_NAME_LEN) v' = some ino := first
      rw [here]
      dsimp only
      cases inode : read.inode with
      | false => exact .inr ⟨rfl, fun all => nomatch all.2.2.1⟩
      | true =>
        have most : ¬target.length > n - 1 := by omega
        rw [if_neg (by rw [stored.isLnk]; decide), stored.size, if_neg most]
        by_cases fast : target.length ≤ FAST_MAX
        · obtain ⟨blocks, inline⟩ := stored.inline (decide_eq_true fast)
          rw [if_pos ⟨blocks, fast⟩, inline, bytesOverlay]
          exact .inl ⟨rfl, rfl, rfl, rfl, .inl fast⟩
        · have length : target.length ≠ 0 := fun zero => fast (by rw [zero]; decide)
          have filled : target ≠ [] := fun empty => length (by rw [empty]; rfl)
          rw [if_neg fun both => fast both.2, if_neg length]
          rw [decide_eq_false fast] at stored
          rcases @storedBlock _ _ _ read.data stored filled v' rfl with
            ⟨none, refused⟩ | ⟨old, some', reads⟩
          · rw [none]
            refine .inr ⟨rfl, fun all => ?_⟩
            rcases all.2.2.2 with quick | reads
            · exact fast quick
            · cases refused.symm.trans reads
          · rw [some']
            dsimp only
            rw [bytesOverlay]
            exact .inl ⟨rfl, rfl, rfl, rfl, .inr reads⟩

theorem ext2ReadsBack (fits : target.length < n)
    (accepted : ext2VfsSymlink blockSize made target path v = some v') :
    NewRead (path.take EXT2_NAME_LEN) made target v' (ext2VfsReadlink read path n v') ↔
      Found (path.take EXT2_NAME_LEN) (path.take EXT2_NAME_LEN) made v.entries ∧
        target = [] ∧ read.parent = true ∧ read.looks = true ∧ read.inode = true := by
  obtain ⟨_, _, found, _⟩ := ext2Made accepted
  unfold NewRead ReadsBack
  rw [← found]
  refine and_congr_right fun first => ?_
  rcases @ext2Bytes _ _ read _ _ _ _ _ fits first accepted with
    ⟨result, parent, looks, inode, _⟩ | ⟨result, refused⟩
  · rw [result]
    constructor
    · intro same
      have results := congrArg Prod.fst same
      dsimp only at results
      exact ⟨List.length_eq_zero_iff.mp (by omega), parent, looks, inode⟩
    · rintro ⟨rfl, _⟩
      rfl
  · rw [result]
    refine iff_of_false (fun same => ?_) fun all => ?_
    · have results := congrArg Prod.fst same
      dsimp only at results
      omega
    · refine refused ⟨all.2.1, all.2.2.1, all.2.2.2, .inl ?_⟩
      rw [all.1]
      decide

theorem ext2Reads (fits : target.length < n)
    (accepted : ext2VfsSymlink blockSize made target path v = some v') :
    find (path.take EXT2_NAME_LEN) v'.entries = made.ino ∧
        ext2VfsReadlink read path n v' = (0, target ++ [0]) ↔
      Found (path.take EXT2_NAME_LEN) (path.take EXT2_NAME_LEN) made v.entries ∧
        read.parent = true ∧ read.looks = true ∧ read.inode = true ∧
          (target.length ≤ FAST_MAX ∨ read.data = true) := by
  obtain ⟨_, _, found, _⟩ := ext2Made accepted
  rw [← found]
  refine and_congr_right fun first => ?_
  rcases @ext2Bytes _ _ read _ _ _ _ _ fits first accepted with ⟨result, all⟩ | ⟨result, refused⟩
  · exact iff_of_true result all
  · rw [result]
    exact iff_of_false (fun same => nomatch congrArg Prod.fst same) refused

theorem negative : ¬(0 : Int) ≤ -1 := by decide

def Below (fsReadlink : Nat → Int × List Byte) : Prop :=
  ∀ k, 0 ≤ (fsReadlink k).1 → (fsReadlink k).1 + 1 ≤ k

theorem minix3Below (read : Reading) (path : Str) (v : Volume) :
    Below fun k => minix3VfsReadlink read path k v := by
  intro k
  dsimp only
  unfold minix3VfsReadlink
  split
  · exact fun success => absurd success negative
  · rename_i open'
    cases lookup read.looks (path.take MINIX3_NAME_LEN) v with
    | none => exact fun success => absurd success negative
    | some ino =>
      dsimp only
      have len : ((if (v.inodes ino).size ≥ k then k - 1 else (v.inodes ino).size : Nat) : Int) +
          1 ≤ k := by
        have some' : k ≠ 0 := fun zero => open' (.inl zero)
        split <;> omega
      generalize (if (v.inodes ino).size ≥ k then k - 1 else (v.inodes ino).size) = most at len ⊢
      split
      · exact fun success => absurd success negative
      · split
        · exact fun _ => len
        · split
          · exact fun success => absurd success negative
          · exact fun _ => len

theorem ext2Below (read : Reading) (path : Str) (v : Volume) :
    Below fun k => ext2VfsReadlink read path k v := by
  intro k
  dsimp only
  unfold ext2VfsReadlink
  split
  · exact fun success => absurd success negative
  · rename_i open'
    have one : (0 : Int) + 1 ≤ k := by
      have some' : k ≠ 0 := fun zero => open' (.inl zero)
      omega
    cases lookup read.looks (path.take EXT2_NAME_LEN) v with
    | none => exact fun success => absurd success negative
    | some ino =>
      dsimp only
      generalize (if (v.inodes ino).size > k - 1 then k - 1 else (v.inodes ino).size) = most
      split
      · exact fun success => absurd success negative
      · split
        · exact fun _ => one
        · split
          · exact fun _ => one
          · split
            · exact fun success => absurd success negative
            · exact fun _ => one

theorem sysReadlinkWrites {fsReadlink : Nat → Int × List Byte} (below : Below fsReadlink)
    (valid : Bool) (fault : Option Nat) (stack : Buf) (n : Nat) :
    (sysReadlink fsReadlink valid fault stack n).2.length ≤ n := by
  unfold sysReadlink
  split
  · exact Nat.zero_le _
  · dsimp only
    have size : (if n > KBUF then KBUF else n) ≤ n := by split <;> omega
    generalize (if n > KBUF then KBUF else n) = room at size ⊢
    split
    · exact Nat.zero_le _
    · rename_i success
      have most := below _ (Int.not_lt.mp success)
      cases fault with
      | some k =>
        dsimp only
        rw [bytesLength]
        omega
      | none =>
        dsimp only
        rw [bytesLength]
        omega

end calls

/-- A new link is read back by minix3 when its name is not cut, and by ext2 when its target is
empty; the system call writes no more than the user has room for. -/
theorem linkIff (blockSize : Nat) (made : Making) (read : Reading) (target : List Byte)
    (path : Str) (v : Volume) (n : Nat) (valid : Bool) (fault : Option Nat) (stack : Buf) :
    (∀ v', ext2VfsSymlink blockSize made target path v = some v' → target.length < n →
      (NewRead (path.take EXT2_NAME_LEN) made target v' (ext2VfsReadlink read path n v') ↔
        Found (path.take EXT2_NAME_LEN) (path.take EXT2_NAME_LEN) made v.entries ∧
          target = [] ∧ read.parent = true ∧ read.looks = true ∧ read.inode = true) ∧
      (find (path.take EXT2_NAME_LEN) v'.entries = made.ino ∧
          ext2VfsReadlink read path n v' = (0, target ++ [0]) ↔
        Found (path.take EXT2_NAME_LEN) (path.take EXT2_NAME_LEN) made v.entries ∧
          read.parent = true ∧ read.looks = true ∧ read.inode = true ∧
            (target.length ≤ FAST_MAX ∨ read.data = true))) ∧
    (∀ v', minix3VfsSymlink made target path v = some v' → target.length < n →
      (NewRead (path.take MINIX3_NAME_LEN) made target v' (minix3VfsReadlink read path n v') ↔
        Found (path.take MINIX3_NAME_LEN) (path.take (MINIX3_NAME_LEN - 1)) made v.entries ∧
          read.parent = true ∧ read.looks = true ∧ read.inode = true ∧
            (target = [] ∨ read.data = true))) ∧
    (sysReadlink (fun k => ext2VfsReadlink read path k v) valid fault stack n).2.length ≤ n ∧
    (sysReadlink (fun k => minix3VfsReadlink read path k v) valid fault stack n).2.length ≤ n :=
  ⟨fun _ accepted fits => ⟨ext2ReadsBack fits accepted, ext2Reads fits accepted⟩,
    fun _ accepted fits => minix3ReadsBack fits accepted,
    sysReadlinkWrites (ext2Below read path v) valid fault stack n,
    sysReadlinkWrites (minix3Below read path v) valid fault stack n⟩

def noLinks : Volume := ⟨fun _ => ⟨false, 0, 0, Buf.zero⟩, [], fun _ => Buf.zero⟩

def working : Making := ⟨true, true, some 12, some ⟨40, by decide⟩, some 0, true⟩

def allRead : Reading := ⟨true, true, true, true⟩

/-- A link to nothing on ext2, and one to "a" on minix3. -/
theorem linksRead : ∃ v' w', ext2VfsSymlink 1024 working [] ['l'] noLinks = some v' ∧
    ReadsBack [] (ext2VfsReadlink allRead ['l'] 256 v') ∧
    minix3VfsSymlink working [97#8] ['l'] noLinks = some w' ∧
    ReadsBack [97#8] (minix3VfsReadlink allRead ['l'] 256 w') := by
  have empty := linkIff 1024 working allRead [] ['l'] noLinks 256 true none Buf.zero
  have one := linkIff 1024 working allRead [97#8] ['l'] noLinks 256 true none Buf.zero
  have found : Found ['l'] ['l'] working noLinks.entries := ⟨0, rfl, .inl rfl⟩
  exact ⟨_, _, rfl, ((empty.1 _ rfl (by decide)).1.mpr ⟨found, rfl, rfl, rfl, rfl⟩).2, rfl,
    ((one.2.1 _ rfl (by decide)).mpr ⟨found, rfl, rfl, rfl, .inr rfl⟩).2⟩

/-- A link to "a" on ext2: its target is read, and its length is said to be 0. -/
theorem lengthLost : ∃ v', ext2VfsSymlink 1024 working [97#8] ['l'] noLinks = some v' ∧
    ext2VfsReadlink allRead ['l'] 256 v' = (0, [97#8, 0]) ∧
    ¬ReadsBack [97#8] (ext2VfsReadlink allRead ['l'] 256 v') := by
  refine ⟨_, rfl, by decide, fun same => ?_⟩
  have first := congrArg Prod.fst same
  revert first
  decide

end Scepter.Symlinks
