import Mathlib.Data.Set.Card
import Mathlib.Data.Set.Finite.Basic
import Scepter.Fs.Ext2.Truncate

/-! ext2_count_blocks with all its loops over one buffer, and what i_blocks says
after ext2_refresh_blocks. -/
namespace Scepter.Ext2

open Block Prog

/- ext2_read_block with its return value: the number of bytes moved, or negative. -/
def ext2ReadBlockInt (geo : Geometry) (block : Nat) (buf : Buf) : Prog FsInfo (Int × Buf) :=
  fun fs => match ext2ReadBlock geo block buf fs with
    | (some data, fs') => (some (512 * fs.dev.next.moved geo.sectorsPerBlock, data), fs')
    | (none, fs') => (some (-1, buf), fs')

def countEntry (geo : Geometry) (inner : Buf → Prog FsInfo (Nat × Buf)) (acc : Nat × Buf) (i : Nat) :
    Prog FsInfo (Nat × Buf) :=
  let p := acc.2.getU32 (4 * i)
  if p = 0 then pure acc
  else do
    let (ret, buf) ← ext2ReadBlockInt geo p acc.2
    if ret = 0 then do
      let (count, buf) ← inner buf
      pure (acc.1 + 1 + count, buf)
    else pure (acc.1 + 1, buf)

/- The entries of the index block in the buffer, `n` levels of index blocks below it. -/
def countLevel (geo : Geometry) : Nat → Buf → Prog FsInfo (Nat × Buf)
  | 0, buf =>
    pure (((List.range (geo.blockSize / 4)).filter fun i => buf.getU32 (4 * i) != 0).length, buf)
  | n + 1, buf =>
    (List.range (geo.blockSize / 4)).foldlM (countEntry geo (countLevel geo n)) (0, buf)

def countRoot (geo : Geometry) (inode : Inode) (k n : Nat) (buf : Buf) : Prog FsInfo (Nat × Buf) :=
  if inode.iBlock k = 0 then pure (0, buf)
  else do
    let (ret, buf) ← ext2ReadBlockInt geo (inode.iBlock k) buf
    if ret = 0 then do
      let (count, buf) ← countLevel geo n buf
      pure (1 + count, buf)
    else pure (1, buf)

def ext2CountBlocksLoops (geo : Geometry) (inode : Inode) : Prog FsInfo Nat := do
  let direct := ((List.range 12).filter fun i => inode.iBlock i != 0).length
  let (single, buf) ← countRoot geo inode 12 0 Buf.zero
  let (double, buf) ← countRoot geo inode 13 1 buf
  let (triple, _) ← countRoot geo inode 14 2 buf
  pure (u32 ((direct + single + double + triple) * (geo.blockSize / 512)))

def ext2RefreshBlocksLoops (geo : Geometry) : Prog (FsInfo × Inode) Unit := do
  let s ← get
  let count ← onFst (ext2CountBlocksLoops geo s.2)
  modify fun s => (s.1, s.2.setU32 28 count)

def rootSlots (inode : Inode) : List Nat := (List.range 15).filter fun k => inode.iBlock k != 0

def rootBlocks (inode : Inode) : Finset Nat := ((rootSlots inode).map inode.iBlock).toFinset

def repeats (inode : Inode) : Nat := (rootSlots inode).length - (rootBlocks inode).card

def reachable (geo : Geometry) (s : FsInfo × Inode) : Set Nat :=
  {b | ∃ slot path, Pos geo slot path ∧ b ≠ 0 ∧ (treeOf geo s).nodeAt slot path = b}

def deeper (geo : Geometry) (s : FsInfo × Inode) : Set Nat := reachable geo s \ rootBlocks s.2

section counting

variable {geo : Geometry} (sound : geo.Sound)

theorem readIntCases (block : Nat) (buf : Buf) (fs : FsInfo) :
    ∃ ret buf' fs', ext2ReadBlockInt geo block buf fs = (some (ret, buf'), fs') ∧ ret ≠ 0 := by
  unfold ext2ReadBlockInt
  rcases ran : ext2ReadBlock geo block buf fs with ⟨_ | data, fs'⟩
  · exact ⟨-1, buf, fs', rfl, by decide⟩
  · refine ⟨_, data, fs', rfl, fun none_ => ?_⟩
    have moved : fs.dev.next.moved geo.sectorsPerBlock = 0 := by omega
    unfold ext2ReadBlock at ran
    split at ran
    · cases ran
    · simp only [onDev, bread, if_pos moved] at ran
      cases ran

theorem countRootCases (inode : Inode) (k n : Nat) (buf : Buf) (fs : FsInfo) :
    ∃ buf' fs', countRoot geo inode k n buf fs =
      (some (if inode.iBlock k = 0 then 0 else 1, buf'), fs') := by
  unfold countRoot
  by_cases none_ : inode.iBlock k = 0
  · simp only [if_pos none_]
    exact ⟨buf, fs, rfl⟩
  · simp only [if_neg none_]
    obtain ⟨ret, buf', fs', ran, some_⟩ := readIntCases (inode.iBlock k) buf fs
    rw [bindOf ran]
    dsimp only
    rw [if_neg some_]
    exact ⟨buf', fs', rfl⟩

theorem rootSlotsLength (inode : Inode) :
    (rootSlots inode).length = ((List.range 12).filter fun i => inode.iBlock i != 0).length +
      (if inode.iBlock 12 = 0 then 0 else 1) + (if inode.iBlock 13 = 0 then 0 else 1) +
      (if inode.iBlock 14 = 0 then 0 else 1) := by
  have one (k : Nat) : ([k].filter fun i => inode.iBlock i != 0).length =
      if inode.iBlock k = 0 then 0 else 1 := by
    by_cases none_ : inode.iBlock k = 0 <;> simp [none_]
  have split : List.range 15 = List.range 12 ++ [12] ++ [13] ++ [14] := rfl
  rw [rootSlots, split]
  simp only [List.filter_append, List.length_append, one]

include sound in
theorem refreshCounts (s : FsInfo × Inode) : ∃ fs', ext2RefreshBlocksLoops geo s =
    (some (), fs', s.2.setU32 28 ((rootSlots s.2).length * (geo.blockSize / 512))) := by
  obtain ⟨fs, inode⟩ := s
  obtain ⟨buf, fs₁, single⟩ := countRootCases inode 12 0 Buf.zero fs
  obtain ⟨buf₂, fs₂, double⟩ := countRootCases inode 13 1 buf fs₁
  obtain ⟨buf₃, fs₃, triple⟩ := countRootCases inode 14 2 buf₂ fs₂
  have counted : ext2CountBlocksLoops geo inode fs =
      (some ((rootSlots inode).length * (geo.blockSize / 512)), fs₃) := by
    have few : (rootSlots inode).length ≤ 15 := List.length_filter_le _ _
    have small : (rootSlots inode).length * (geo.blockSize / 512) < 2 ^ 32 := by
      have size : geo.blockSize / 512 ≤ 8 := by rcases sound.blockSize with h | h | h <;> omega
      have bound := Nat.mul_le_mul few size
      omega
    unfold ext2CountBlocksLoops
    rw [bindOf single]
    dsimp only
    rw [bindOf double]
    dsimp only
    rw [bindOf triple, ← rootSlotsLength]
    exact congrArg (fun n => (some n, fs₃)) (Nat.mod_eq_of_lt small)
  refine ⟨fs₃, ?_⟩
  unfold ext2RefreshBlocksLoops
  rw [getBind, bindOf (show onFst _ (fs, inode) = (some _, fs₃, inode) by rw [onFstRun, counted])]
  rfl

theorem rootBlocksMem {inode : Inode} {b : Nat} :
    b ∈ rootBlocks inode ↔ b ≠ 0 ∧ ∃ k < 15, inode.iBlock k = b := by
  simp only [rootBlocks, rootSlots, List.mem_toFinset, List.mem_map, List.mem_filter,
    List.mem_range, bne_iff_ne]
  constructor
  · rintro ⟨k, ⟨low, some_⟩, rfl⟩
    exact ⟨some_, k, low, rfl⟩
  · rintro ⟨some_, k, low, rfl⟩
    exact ⟨k, ⟨low, some_⟩, rfl⟩

theorem reachableFinite (s : FsInfo × Inode) : (reachable geo s).Finite := by
  refine (Set.finite_lt_nat (2 ^ 32)).subset ?_
  rintro b ⟨slot, path, _, _, rfl⟩
  cases path with
  | nil => exact Buf.getU32Lt _ _
  | cons i up =>
    rw [PtrTree.nodeAt]
    split
    · exact Nat.two_pow_pos 32
    · exact Buf.getU32Lt _ _

theorem reachableCard (s : FsInfo × Inode) :
    (reachable geo s).ncard = (rootBlocks s.2).card + (deeper geo s).ncard := by
  have roots : (rootBlocks s.2 : Set Nat) ⊆ reachable geo s := by
    intro b member
    obtain ⟨some_, k, low, here⟩ := rootBlocksMem.mp member
    exact ⟨k, [], ⟨low, Nat.zero_le _, fun _ absurd' => nomatch absurd'⟩, some_, here⟩
  have parts := Set.ncard_sdiff_add_ncard_of_subset roots (reachableFinite s)
  rw [Set.ncard_coe_finset] at parts
  unfold deeper
  omega

def indirectFs : FsInfo :=
  { fullGroupFs with dev := ⟨fun s o => if s = 18000 then leByteOf o else 0, [], []⟩ }
where leByteOf (o : Nat) : Byte := if o = 0 then 0x29 else if o = 1 then 0x23 else 0

def indirectInode : Inode := Inode.setIBlock Buf.zero 12 9000

end counting

end Scepter.Ext2
