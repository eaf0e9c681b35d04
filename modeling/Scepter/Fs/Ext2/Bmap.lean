import Scepter.Fs.Ext2.Marks
import Scepter.Lib.PtrTree

/-! Mapping file blocks to disk blocks (ext2_bmap and ext2_bmap_alloc of
ext2_inode.c) as paths in the inode's tree of pointer blocks. The inode is in
memory next to the filesystem. One buffer is passed from level to level. -/
namespace Scepter.Ext2

open Block Prog

def readEntry (geo : Geometry) (block idx : Nat) (buf : Buf) : Prog FsInfo (Nat × Buf) := do
  let buf ← ext2ReadBlock geo block buf
  pure (buf.getU32 (4 * idx), buf)

def ext2Bmap (geo : Geometry) (inode : Inode) (fileBlock : Nat) : Prog FsInfo Nat :=
  let ptrs := geo.blockSize / 4
  if fileBlock < 12 then pure (inode.iBlock fileBlock)
  else
    let fileBlock := fileBlock - 12
    if fileBlock < ptrs then
      if inode.iBlock 12 = 0 then pure 0
      else do
        let (blk, _) ← readEntry geo (inode.iBlock 12) fileBlock Buf.zero
        pure blk
    else
      let fileBlock := fileBlock - ptrs
      if fileBlock < ptrs * ptrs then
        if inode.iBlock 13 = 0 then pure 0
        else do
          let (l1, buf) ← readEntry geo (inode.iBlock 13) (fileBlock / ptrs) Buf.zero
          if l1 = 0 then pure 0
          else
            let (blk, _) ← readEntry geo l1 (fileBlock % ptrs) buf
            pure blk
      else
        let fileBlock := fileBlock - ptrs * ptrs
        if fileBlock < ptrs * ptrs * ptrs then
          if inode.iBlock 14 = 0 then pure 0
          else do
            let rem := fileBlock % (ptrs * ptrs)
            let (l1, buf) ← readEntry geo (inode.iBlock 14) (fileBlock / (ptrs * ptrs)) Buf.zero
            if l1 = 0 then pure 0
            else
              let (l2, buf) ← readEntry geo l1 (rem / ptrs) buf
              if l2 = 0 then pure 0
              else
                let (blk, _) ← readEntry geo l2 (rem % ptrs) buf
                pure blk
        else fail

def ext2AllocZeroedBlock (geo : Geometry) (ino : Nat) : Prog FsInfo Nat := do
  let blk ← ext2AllocBlock geo ino
  match ← attempt (ext2WriteBlock geo blk Buf.zero) with
  | some _ => pure blk
  | none =>
    let _ ← attempt (ext2FreeBlock geo blk)
    fail

def rootBlock (geo : Geometry) (ino k : Nat) : Prog (FsInfo × Inode) Nat := do
  let s ← get
  if s.2.iBlock k = 0 then
    let blk ← onFst (ext2AllocZeroedBlock geo ino)
    modify fun s => (s.1, s.2.setIBlock k blk)
    let s ← get
    pure (s.2.iBlock k)
  else pure (s.2.iBlock k)

/-- One level of ext2_bmap_alloc: the entry is allocated and the index block
written back when the entry is missing. -/
def entryBlock (geo : Geometry) (ino block idx : Nat) (buf : Buf) :
    Prog (FsInfo × Inode) (Nat × Buf) := do
  let buf ← onFst (ext2ReadBlock geo block buf)
  if buf.getU32 (4 * idx) = 0 then
    let blk ← onFst (ext2AllocZeroedBlock geo ino)
    let buf := buf.setU32 (4 * idx) blk
    onFst (ext2WriteBlock geo block buf)
    pure (buf.getU32 (4 * idx), buf)
  else pure (buf.getU32 (4 * idx), buf)

def ext2BmapAlloc (geo : Geometry) (ino fileBlock : Nat) : Prog (FsInfo × Inode) Nat :=
  let ptrs := geo.blockSize / 4
  if fileBlock < 12 then rootBlock geo ino fileBlock
  else
    let fileBlock := fileBlock - 12
    if fileBlock < ptrs then do
      let l0 ← rootBlock geo ino 12
      let (blk, _) ← entryBlock geo ino l0 fileBlock Buf.zero
      pure blk
    else
      let fileBlock := fileBlock - ptrs
      if fileBlock < ptrs * ptrs then do
        let l0 ← rootBlock geo ino 13
        let (l1, buf) ← entryBlock geo ino l0 (fileBlock / ptrs) Buf.zero
        let (blk, _) ← entryBlock geo ino l1 (fileBlock % ptrs) buf
        pure blk
      else
        let fileBlock := fileBlock - ptrs * ptrs
        if fileBlock < ptrs * ptrs * ptrs then do
          let rem := fileBlock % (ptrs * ptrs)
          let l0 ← rootBlock geo ino 14
          let (l1, buf) ← entryBlock geo ino l0 (fileBlock / (ptrs * ptrs)) Buf.zero
          let (l2, buf) ← entryBlock geo ino l1 (rem / ptrs) buf
          let (blk, _) ← entryBlock geo ino l2 (rem % ptrs) buf
          pure blk
        else fail

/- ext2_bmap and ext2_bmap_alloc below the first level, for a list of indices. -/
def descend (geo : Geometry) : List Nat → Nat → Buf → Prog FsInfo Nat
  | [], block, _ => pure block
  | idx :: rest, block, buf =>
    if block = 0 then pure 0
    else do
      let (next, buf) ← readEntry geo block idx buf
      descend geo rest next buf

def extend (geo : Geometry) (ino : Nat) : List Nat → Nat → Buf → Prog (FsInfo × Inode) Nat
  | [], block, _ => pure block
  | idx :: rest, block, buf => do
    let (next, buf) ← entryBlock geo ino block idx buf
    extend geo ino rest next buf

/-! The tree of an inode. -/

def treeOf (geo : Geometry) (s : FsInfo × Inode) : PtrTree where
  root := s.2.iBlock
  entry block i := (blockAt geo s.1.dev block).getU32 (4 * i)

def depth (slot : Nat) : Nat := slot - 11

def Pos (geo : Geometry) (slot : Nat) (path : List Nat) : Prop :=
  slot < 15 ∧ path.length ≤ depth slot ∧ ∀ i ∈ path, i < geo.blockSize / 4

theorem posUp {geo : Geometry} (slot i : Nat) (up : List Nat) (pos : Pos geo slot (i :: up)) :
    Pos geo slot up :=
  ⟨pos.1, Nat.le_of_succ_le pos.2.1, fun j member => pos.2.2 j (List.mem_cons_of_mem _ member)⟩

def position (geo : Geometry) (fileBlock : Nat) : Option (Nat × List Nat) :=
  let ptrs := geo.blockSize / 4
  if fileBlock < 12 then some (fileBlock, [])
  else
    let fileBlock := fileBlock - 12
    if fileBlock < ptrs then some (12, [fileBlock])
    else
      let fileBlock := fileBlock - ptrs
      if fileBlock < ptrs * ptrs then some (13, [fileBlock % ptrs, fileBlock / ptrs])
      else
        let fileBlock := fileBlock - ptrs * ptrs
        if fileBlock < ptrs * ptrs * ptrs then
          let rem := fileBlock % (ptrs * ptrs)
          some (14, [rem % ptrs, rem / ptrs, fileBlock / (ptrs * ptrs)])
        else none

def slotBase (geo : Geometry) (slot : Nat) : Nat :=
  if slot ≤ 12 then slot
  else if slot = 13 then 12 + geo.blockSize / 4
  else 12 + geo.blockSize / 4 + geo.blockSize / 4 * (geo.blockSize / 4)

def pathIndex (geo : Geometry) : List Nat → Nat
  | [] => 0
  | i :: up => pathIndex geo up * (geo.blockSize / 4) + i

structure DataBlock (geo : Geometry) (fs : FsInfo) (b : Nat) : Prop where
  low : geo.sFirstDataBlock ≤ b
  inside : b < geo.sBlocksCount
  notMetadata : ¬ geo.Metadata b
  used : allocated geo fs b = true

def ReservedUsed (geo : Geometry) (fs : FsInfo) : Prop :=
  ∀ b, geo.sFirstDataBlock ≤ b → b < geo.sBlocksCount → b = 0 ∨ geo.Metadata b →
    allocated geo fs b = true

/-- A coherent filesystem whose metadata is marked as used, with a well-formed
tree: no block has two places in it and each is a data block. -/
structure Sane (geo : Geometry) (s : FsInfo × Inode) : Prop where
  coherent : Coherent geo s.1
  reservedUsed : ReservedUsed geo s.1
  distinct : (treeOf geo s).Distinct (Pos geo)
  data : ∀ slot path, Pos geo slot path → (treeOf geo s).nodeAt slot path ≠ 0 →
    DataBlock geo s.1 ((treeOf geo s).nodeAt slot path)

variable {geo : Geometry}

section positions

variable (sound : geo.Sound)
include sound

theorem ptrsPos : 0 < geo.blockSize / 4 ∧ geo.blockSize = 4 * (geo.blockSize / 4) := by
  rcases sound.blockSize with h | h | h <;> omega

theorem positionPos {fileBlock slot : Nat} {path : List Nat}
    (at_ : position geo fileBlock = some (slot, path)) :
    Pos geo slot path ∧ path.length = depth slot := by
  have positive := (ptrsPos sound).1
  unfold position at at_
  unfold Pos depth
  generalize geo.blockSize / 4 = ptrs at *
  dsimp only at at_
  split at at_
  · cases at_
    simp only [List.length_nil, List.not_mem_nil]
    grind
  split at at_
  · cases at_
    simp
    omega
  have square : 0 < ptrs * ptrs := Nat.mul_pos positive positive
  split at at_
  · next low =>
    cases at_
    have below := Nat.mod_lt (fileBlock - 12 - ptrs) positive
    have above := Nat.div_lt_of_lt_mul low
    simp only [List.length_cons, List.length_nil, List.mem_cons, forall_eq_or_imp,
      List.not_mem_nil, false_imp_iff, implies_true, and_true]
    omega
  split at at_
  · next low =>
    cases at_
    have first := Nat.div_lt_of_lt_mul low
    have rem := Nat.mod_lt (fileBlock - 12 - ptrs - ptrs * ptrs) square
    have second := Nat.div_lt_of_lt_mul rem
    have third := Nat.mod_lt ((fileBlock - 12 - ptrs - ptrs * ptrs) % (ptrs * ptrs)) positive
    simp only [List.length_cons, List.length_nil, List.mem_cons, forall_eq_or_imp,
      List.not_mem_nil, false_imp_iff, implies_true, and_true]
    omega
  · cases at_

omit sound in
theorem positionFileBlock {fileBlock slot : Nat} {path : List Nat}
    (at_ : position geo fileBlock = some (slot, path)) :
    fileBlock = slotBase geo slot + pathIndex geo path := by
  unfold position at at_
  split at at_
  · next low =>
    cases at_
    exact (if_pos (Nat.le_of_lt low)).symm
  dsimp only at at_
  split at at_
  · cases at_
    rw [show slotBase geo 12 = 12 from rfl]
    simp only [pathIndex]
    omega
  split at at_
  · cases at_
    have split := Nat.div_add_mod' (fileBlock - 12 - geo.blockSize / 4) (geo.blockSize / 4)
    rw [show slotBase geo 13 = 12 + geo.blockSize / 4 from rfl]
    simp only [pathIndex, Nat.zero_mul, Nat.zero_add]
    omega
  split at at_
  · cases at_
    rw [show slotBase geo 14 =
      12 + geo.blockSize / 4 + geo.blockSize / 4 * (geo.blockSize / 4) from rfl]
    simp only [pathIndex, Nat.zero_mul, Nat.zero_add]
    rw [Nat.add_mul, Nat.mul_assoc]
    generalize left : fileBlock - 12 - geo.blockSize / 4 -
      geo.blockSize / 4 * (geo.blockSize / 4) = rest
    have split := Nat.div_add_mod' rest (geo.blockSize / 4 * (geo.blockSize / 4))
    have split' := Nat.div_add_mod' (rest % (geo.blockSize / 4 * (geo.blockSize / 4)))
      (geo.blockSize / 4)
    omega
  · cases at_

omit sound in
theorem positionInjective {a b slot : Nat} {path : List Nat}
    (atA : position geo a = some (slot, path)) (atB : position geo b = some (slot, path)) :
    a = b :=
  (positionFileBlock atA).trans (positionFileBlock atB).symm

end positions

-- The case split that ext2_bmap and ext2_bmap_alloc make on the file block.
theorem positionMatch {γ : Type} (geo : Geometry) (fileBlock : Nat) (found : Nat → List Nat → γ)
    (beyond : γ) :
    (match position geo fileBlock with
      | some (slot, path) => found slot path
      | none => beyond) =
    let ptrs := geo.blockSize / 4
    if fileBlock < 12 then found fileBlock []
    else
      let fileBlock := fileBlock - 12
      if fileBlock < ptrs then found 12 [fileBlock]
      else
        let fileBlock := fileBlock - ptrs
        if fileBlock < ptrs * ptrs then found 13 [fileBlock % ptrs, fileBlock / ptrs]
        else
          let fileBlock := fileBlock - ptrs * ptrs
          if fileBlock < ptrs * ptrs * ptrs then
            let rem := fileBlock % (ptrs * ptrs)
            found 14 [rem % ptrs, rem / ptrs, fileBlock / (ptrs * ptrs)]
          else beyond := by
  unfold position
  dsimp only
  by_cases direct : fileBlock < 12
  · simp only [if_pos direct]
  simp only [if_neg direct]
  by_cases single : fileBlock - 12 < geo.blockSize / 4
  · simp only [if_pos single]
  simp only [if_neg single]
  by_cases double : fileBlock - 12 - geo.blockSize / 4 <
      geo.blockSize / 4 * (geo.blockSize / 4)
  · simp only [if_pos double]
  simp only [if_neg double]
  by_cases triple : fileBlock - 12 - geo.blockSize / 4 -
      geo.blockSize / 4 * (geo.blockSize / 4) <
      geo.blockSize / 4 * (geo.blockSize / 4) * (geo.blockSize / 4)
  · simp only [if_pos triple]
  · simp only [if_neg triple]

theorem bmapDescend (geo : Geometry) (inode : Inode) (fileBlock : Nat) :
    ext2Bmap geo inode fileBlock =
      match position geo fileBlock with
      | some (slot, path) => descend geo path.reverse (inode.iBlock slot) Buf.zero
      | none => fail := by
  rw [positionMatch geo fileBlock
    (fun slot path => descend geo path.reverse (inode.iBlock slot) Buf.zero) fail]
  rfl

theorem bmapAllocExtend (geo : Geometry) (ino fileBlock : Nat) :
    ext2BmapAlloc geo ino fileBlock =
      match position geo fileBlock with
      | some (slot, path) =>
        rootBlock geo ino slot >>= fun b => extend geo ino path.reverse b Buf.zero
      | none => fail := by
  rw [positionMatch geo fileBlock (fun slot path =>
    rootBlock geo ino slot >>= fun b => extend geo ino path.reverse b Buf.zero) fail]
  dsimp only
  rw [show (rootBlock geo ino fileBlock >>= fun b => extend geo ino [].reverse b Buf.zero) =
    rootBlock geo ino fileBlock from bindPure _]
  rfl

end Scepter.Ext2
