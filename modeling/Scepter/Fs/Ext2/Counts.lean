import Scepter.Fs.Ext2.Marks
import Scepter.Lib.Run
import Mathlib.Algebra.BigOperators.Group.Finset.Piecewise
import Mathlib.Algebra.Order.BigOperators.Group.Finset
import Mathlib.Algebra.Group.Action.Defs
import Mathlib.Tactic.IntervalCases

/-! The free counts of ext2: over any run of allocations, frees, loads and
syncs every group's count is the number of clear bits of its bitmap and the
superblock's totals are the sums of the groups' counts. -/
namespace Scepter.Ext2

open Block Prog

def freeBits (geo : Geometry) (fs : FsInfo) (kind : Kind) (group : Nat) : Finset Nat :=
  (Finset.range (geo.perGroup kind)).filter fun i =>
    geo.Valid kind group i ∧ (image geo fs kind group).getBit i = false

structure Counted (geo : Geometry) (fs : FsInfo) : Prop where
  group : ∀ kind, ∀ group < geo.numGroups, fs.bgFree kind group = (freeBits geo fs kind group).card
  total : ∀ kind, fs.sFree kind = ∑ group ∈ Finset.range geo.numGroups, fs.bgFree kind group

variable {geo : Geometry}

theorem mem_freeBits {fs : FsInfo} {kind group i} : i ∈ freeBits geo fs kind group ↔
    geo.Valid kind group i ∧ (image geo fs kind group).getBit i = false := by
  unfold freeBits
  rw [Finset.mem_filter, Finset.mem_range, and_iff_right_iff_imp]
  rintro ⟨valid, -⟩
  cases kind <;> exact valid.1

section counting

variable (sound : geo.Sound)
include sound

theorem validReal {kind group i} (inside : group < geo.numGroups)
    (valid : geo.Valid kind group i) : geo.Real group ∧ i < 8 * geo.blockSize := by
  have small : i < geo.perGroup kind := by cases kind <;> exact valid.1
  refine ⟨?_, bitSmall sound kind small⟩
  by_contra notReal
  obtain ⟨_, noInodes⟩ := sound.emptyGroup group inside notReal
  cases kind with
  | block =>
    unfold Geometry.Real at notReal
    have := valid.2
    omega
  | inode =>
    have := valid.2
    omega

theorem SameView.counted {s t : FsInfo} (same : SameView geo s t) (counted : Counted geo s) :
    Counted geo t where
  group kind group inside := by
    rw [same.bgFree, counted.group kind group inside]
    congr 1
    ext i
    rw [mem_freeBits, mem_freeBits]
    refine and_congr_right fun valid => ?_
    obtain ⟨real, small⟩ := validReal sound inside valid
    rw [same.bits kind group i real small]
  total kind := by rw [same.sFree, same.bgFree, counted.total kind]

omit sound in
theorem freeBitsLe (geo : Geometry) (fs : FsInfo) (kind : Kind) (group : Nat) :
    (freeBits geo fs kind group).card ≤ geo.perGroup kind :=
  (Finset.card_filter_le _ _).trans (Finset.card_range _).le

theorem sumSmall {fs : FsInfo} {kind : Kind}
    (counts : ∀ group < geo.numGroups, fs.bgFree kind group = (freeBits geo fs kind group).card) :
    ∑ group ∈ Finset.range geo.numGroups, fs.bgFree kind group < 2 ^ 32 := by
  have each : ∀ group ∈ Finset.range geo.numGroups, fs.bgFree kind group ≤ geo.perGroup kind := by
    intro group member
    rw [counts group (Finset.mem_range.mp member)]
    exact freeBitsLe geo fs kind group
  have sum := Finset.sum_le_card_nsmul _ _ _ each
  rw [Finset.card_range, smul_eq_mul] at sum
  refine Nat.lt_of_le_of_lt sum ?_
  cases kind with
  | inode => exact sound.inodesSmall
  | block =>
    have fits := sound.blocksSmall
    have positive : 0 < geo.blocksPerGroup := sound.perGroupPos .block
    have groups : geo.numGroups * geo.blocksPerGroup ≤
        geo.sBlocksCount + geo.blocksPerGroup - 1 := by
      rw [sound.numGroups]
      exact Nat.div_mul_le_self _ _
    show geo.numGroups * geo.blocksPerGroup < 2 ^ 32
    omega

theorem Counted.fits {fs : FsInfo} (counted : Counted geo fs) : Fits geo fs where
  bg kind group inside := by
    rw [counted.group kind group inside]
    have size := sound.blockSize
    have bits := sound.perGroupLe kind
    have card := freeBitsLe geo fs kind group
    omega
  total kind := by
    rw [counted.total kind]
    exact sumSmall sound (counted.group kind)

theorem Marks.freeBits {kind group i v} {s t : FsInfo} (marks : Marks geo kind group i v s t)
    (valid : geo.Valid kind group i) (kind' : Kind) {group' : Nat}
    (inside : group' < geo.numGroups) :
    Ext2.freeBits geo t kind' group' =
      if kind' = kind ∧ group' = group then
        if v then (Ext2.freeBits geo s kind group).erase i
        else insert i (Ext2.freeBits geo s kind group)
      else Ext2.freeBits geo s kind' group' := by
  ext j
  rw [mem_freeBits]
  have bit (valid : geo.Valid kind' group' j) := by
    obtain ⟨real, small⟩ := validReal sound inside valid
    exact marks.bits kind' group' j real small
  by_cases here : kind' = kind ∧ group' = group
  · obtain ⟨rfl, rfl⟩ := here
    simp only [and_self, if_true, true_and] at bit ⊢
    cases v <;> simp only [Bool.false_eq_true, if_false, if_true, Finset.mem_insert,
      Finset.mem_erase, mem_freeBits] <;> grind
  · rw [if_neg here, mem_freeBits]
    refine and_congr_right fun valid => ?_
    rw [bit valid, if_neg fun h => here ⟨h.1, h.2.1⟩]

theorem Marks.card {kind group i v} {s t : FsInfo} (marks : Marks geo kind group i v s t)
    (valid : geo.Valid kind group i) :
    (Ext2.freeBits geo t kind group).card + (if v then 1 else 0) =
      (Ext2.freeBits geo s kind group).card + (if v then 0 else 1) := by
  rw [marks.freeBits sound valid kind marks.inside, if_pos (And.intro rfl rfl)]
  cases v with
  | true =>
    have member : i ∈ Ext2.freeBits geo s kind group := mem_freeBits.mpr ⟨valid, marks.was⟩
    simp only [if_true, Nat.add_zero]
    exact Finset.card_erase_add_one member
  | false =>
    have notMember : i ∉ Ext2.freeBits geo s kind group := by
      rw [mem_freeBits, marks.was]
      simp
    simp only [Bool.false_eq_true, if_false, Nat.add_zero]
    exact Finset.card_insert_of_notMem notMember

theorem Marks.countedGroup {kind group i v} {s t : FsInfo}
    (marks : Marks geo kind group i v s t) (valid : geo.Valid kind group i)
    (counted : Counted geo s) (kind' : Kind) {group' : Nat} (inside : group' < geo.numGroups) :
    t.bgFree kind' group' = (Ext2.freeBits geo t kind' group').card := by
  rw [marks.bgFree, Function.update_apply]
  by_cases here : kind' = kind ∧ group' = group
  · obtain ⟨rfl, rfl⟩ := here
    have fits := (counted.fits sound).bg kind' group' inside
    have card := marks.card sound valid
    have after := freeBitsLe geo t kind' group'
    have size := sound.blockSize
    have bits := sound.perGroupLe kind'
    rw [← counted.group kind' group' inside] at card
    rw [if_pos rfl, Function.update_self]
    unfold u16
    cases v <;> simp only [Bool.false_eq_true, if_false, if_true] at card ⊢ <;> omega
  · rw [marks.freeBits sound valid kind' inside, if_neg here]
    split
    · next same =>
      subst same
      rw [Function.update_of_ne fun h => here ⟨rfl, h⟩]
      exact counted.group kind' group' inside
    · exact counted.group kind' group' inside

theorem Marks.counted {kind group i v} {s t : FsInfo} (marks : Marks geo kind group i v s t)
    (valid : geo.Valid kind group i) (counted : Counted geo s) : Counted geo t where
  group kind' _ inside := marks.countedGroup sound valid counted kind' inside
  total kind' := by
    have total := counted.total kind'
    have small := sumSmall sound (fun _ inside =>
      marks.countedGroup sound valid counted kind' inside)
    rw [marks.sFree, Function.update_apply]
    by_cases sameKind : kind' = kind
    · subst sameKind
      have member : group ∈ Finset.range geo.numGroups := Finset.mem_range.mpr marks.inside
      have card := marks.card sound valid
      rw [← marks.countedGroup sound valid counted kind' marks.inside,
        ← counted.group kind' group marks.inside] at card
      have others : ∑ x ∈ Finset.range geo.numGroups \ {group}, t.bgFree kind' x =
          ∑ x ∈ Finset.range geo.numGroups \ {group}, s.bgFree kind' x := by
        refine Finset.sum_congr rfl fun x outside => ?_
        have differs : x ≠ group := by
          rintro rfl
          simp at outside
        rw [marks.bgFree, Function.update_self, Function.update_of_ne differs]
      rw [Finset.sum_eq_add_sum_sdiff_singleton_of_mem member] at total small ⊢
      rw [others] at small ⊢
      rw [if_pos rfl, total]
      unfold u32
      cases v <;> simp only [Bool.false_eq_true, if_false, if_true] at card ⊢ <;> omega
    · rw [if_neg sameKind, marks.bgFree, Function.update_of_ne sameKind]
      exact counted.total kind'

end counting

inductive Call
  | allocBlock (ino : Nat)
  | freeBlock (block : Nat)
  | allocInode (mode now prefGroup : Nat)
  | freeInode (ino now : Nat)
  | loadGroup (group : Nat)
  | sync

def Call.leave (geo : Geometry) (fs : FsInfo) : Call → FsInfo
  | allocBlock ino => (ext2AllocBlock geo ino fs).2
  | freeBlock block => (ext2FreeBlock geo block fs).2
  | allocInode mode now prefGroup => (ext2AllocInode geo mode now prefGroup fs).2
  | freeInode ino now => (ext2FreeInode geo ino now fs).2
  | loadGroup group => (ext2LoadGroupBitmaps geo group fs).2
  | sync => (ext2SyncBitmaps geo fs).2

def step (geo : Geometry) (fs : FsInfo) (a : Call × List Transfer) : Option FsInfo :=
  some (a.1.leave geo (fs.facing a.2))

structure Mounted (geo : Geometry) (fs : FsInfo) : Prop where
  noneResident : fs.bitmapGroup = none
  counted : Counted geo fs

/-- Whatever its transfers do, the call clears the bit of the block and no other
when it succeeds and changes nothing when it fails; it fails only with a transfer. -/
def FreesExactly (geo : Geometry) (fs : FsInfo) (block : Nat) : Prop :=
  ∀ coming, NoneShort coming → ∀ r t, ext2FreeBlock geo block (fs.facing coming) = (r, t) →
    (r = some () →
      Marks geo .block (geo.place block).1 (geo.place block).2 false (fs.facing coming) t) ∧
    (r = none → SameView geo (fs.facing coming) t) ∧
    ((∀ transfer ∈ coming, transfer = .whole) → r = some ())

section runs

variable (sound : geo.Sound)
include sound

theorem inodeValid {ino : Nat} (positive : 0 < ino) (inside : ino ≤ geo.sInodesCount) :
    geo.Valid .inode (geo.inodeGroup ino) (geo.inodeIndex ino) := by
  have perGroup : 0 < geo.inodesPerGroup := sound.perGroupPos .inode
  have split := Nat.div_add_mod' (ino - 1) geo.inodesPerGroup
  have below := Nat.mod_lt (ino - 1) perGroup
  simp only [Geometry.Valid, Geometry.inodeGroup, Geometry.inodeIndex]
  omega

theorem callCounted (call : Call) {s : FsInfo} (coherent : Coherent geo s)
    (counted : Counted geo s) :
    Coherent geo (call.leave geo s) ∧ Counted geo (call.leave geo s) := by
  have fits := counted.fits sound
  cases call with
  | allocBlock ino =>
    obtain ⟨coherent', _, ⟨_, same⟩ | ⟨b, _, low, inside, marks⟩⟩ :=
      allocBlockCases sound coherent (r := _) (t := (ext2AllocBlock geo ino s).2) rfl
    · exact ⟨coherent', same.counted sound counted⟩
    · exact ⟨coherent', marks.counted sound (placeReal sound low inside).2 counted⟩
  | freeBlock block =>
    obtain ⟨coherent', _, ⟨_, same⟩ | ⟨_, inside, low, _, marks⟩⟩ :=
      freeBlockCases sound coherent (r := _) (t := (ext2FreeBlock geo block s).2) rfl
    · exact ⟨coherent', same.counted sound counted⟩
    · exact ⟨coherent', marks.counted sound (placeReal sound low inside).2 counted⟩
  | allocInode mode now prefGroup =>
    obtain ⟨coherent', _, ⟨_, same⟩ | ⟨ino, _, positive, inside, marks⟩⟩ :=
      allocInodeFromCases sound mode now _ _ coherent fits (r := _)
        (t := (ext2AllocInode geo mode now prefGroup s).2) rfl
    · exact ⟨coherent', same.counted sound counted⟩
    · exact ⟨coherent', marks.counted sound (inodeValid sound positive inside) counted⟩
  | freeInode ino now =>
    obtain ⟨coherent', _, ⟨_, same⟩ | ⟨positive, inside, marks⟩⟩ :=
      freeInodeCases sound coherent (r := _) (t := (ext2FreeInode geo ino now s).2) rfl
    · exact ⟨coherent', same.counted sound counted⟩
    · exact ⟨coherent', marks.counted sound (inodeValid sound positive inside) counted⟩
  | loadGroup group =>
    obtain ⟨coherent', same, _⟩ := (loadCases sound group coherent).1 coherent
    exact ⟨coherent', same.counted sound counted⟩
  | sync =>
    obtain ⟨coherent', same, _⟩ := (syncLeaves sound s coherent).1.1 coherent
    exact ⟨coherent', same.counted sound counted⟩

theorem runCounted {fs₀ fs : FsInfo} (mounted : Mounted geo fs₀)
    {calls : List (Call × List Transfer)}
    (noneShort : Run.Meets (step geo) (fun _ a => NoneShort a.2) fs₀ calls)
    (ran : Run.run (step geo) fs₀ calls = some fs) :
    Coherent geo (fs.facing []) ∧ Counted geo fs := by
  refine Run.invariantMeets
    (P := fun fs => Coherent geo (fs.facing []) ∧ Counted geo fs) ?_ ?_ noneShort ran
  · rintro s ⟨call, coming⟩ t ⟨coherent, counted⟩ noneShort stepped
    cases stepped
    have coherent' : Coherent geo (s.facing coming) := facingAnew coherent noneShort
    have counted' : Counted geo (s.facing coming) := ⟨counted.group, counted.total⟩
    obtain ⟨after, exact_⟩ := callCounted sound call coherent' counted'
    exact ⟨⟨noneShortNil, after.resident, after.clean⟩, exact_⟩
  · refine ⟨⟨noneShortNil, ?_, ?_⟩, mounted.counted⟩
    · intro group resident
      exact absurd (mounted.noneResident.symm.trans resident) nofun
    · intro group kind resident
      exact absurd (mounted.noneResident.symm.trans resident) nofun

theorem freesExactlyIff {fs : FsInfo} (coherent : Coherent geo (fs.facing [])) {block : Nat}
    (inside : block < geo.sBlocksCount) (used : allocated geo fs block = true) :
    FreesExactly geo fs block ↔ geo.sFirstDataBlock = 0 ∨ ¬ geo.blocksPerGroup ∣ block := by
  constructor
  · intro frees
    obtain ⟨_, _, succeeds⟩ := frees [] noneShortNil _ _ rfl
    obtain ⟨_, _, ⟨failed, _⟩ | ⟨_, _, _, notEdge, _⟩⟩ := freeBlockCases sound coherent rfl
    · rw [succeeds fun _ h => (nomatch h)] at failed
      cases failed
    · exact notEdge
  · intro notEdge coming noneShort r t ran
    have coherent' : Coherent geo (fs.facing coming) := facingAnew coherent noneShort
    refine ⟨?_, ?_, fun whole => ?_⟩
    · rintro rfl
      obtain ⟨_, _, ⟨⟨⟩, _⟩ | ⟨_, _, _, _, marks⟩⟩ := freeBlockCases sound coherent' ran
      exact marks
    · rintro rfl
      obtain ⟨_, _, ⟨_, same⟩ | ⟨⟨⟩, _⟩⟩ := freeBlockCases sound coherent' ran
      exact same
    · have done := freeBlockSure sound coherent' whole inside notEdge used
      rw [ran] at done
      exact done

end runs

/-- In every state a run of calls reaches from a consistent mount: the counts are
exact, an allocation claims a free block of the filesystem, and a used block is freed
exactly if and only if it is not the last one of its group behind a boot block. -/
theorem allocationConsistent (geo : Geometry) (sound : geo.Sound) (fs₀ fs : FsInfo)
    (mounted : Mounted geo fs₀) (calls : List (Call × List Transfer))
    (noneShort : Run.Meets (step geo) (fun _ a => NoneShort a.2) fs₀ calls)
    (ran : Run.run (step geo) fs₀ calls = some fs) :
    (∀ kind, ∀ group < geo.numGroups,
      fs.bgFree kind group = (freeBits geo fs kind group).card) ∧
    (∀ kind, fs.sFree kind = ∑ group ∈ Finset.range geo.numGroups, fs.bgFree kind group) ∧
    (∀ coming, NoneShort coming → ∀ ino b t,
      ext2AllocBlock geo ino (fs.facing coming) = (some b, t) →
        geo.sFirstDataBlock ≤ b ∧ b < geo.sBlocksCount ∧ allocated geo fs b = false ∧
          Marks geo .block (geo.place b).1 (geo.place b).2 true (fs.facing coming) t) ∧
    ∀ block, geo.sFirstDataBlock ≤ block → block < geo.sBlocksCount →
      allocated geo fs block = true →
        (FreesExactly geo fs block ↔
          geo.sFirstDataBlock = 0 ∨ ¬ geo.blocksPerGroup ∣ block) := by
  obtain ⟨coherent, counted⟩ := runCounted sound mounted noneShort ran
  refine ⟨counted.group, counted.total, ?_, fun block _ inside used => ?_⟩
  · intro coming noneShort ino b t ran
    have coherent' : Coherent geo (fs.facing coming) := facingAnew coherent noneShort
    obtain ⟨_, _, ⟨⟨⟩, _⟩ | ⟨_, ⟨⟩, low, inside, marks⟩⟩ := allocBlockCases sound coherent' ran
    exact ⟨low, inside, marks.was, marks⟩
  · exact freesExactlyIff sound coherent inside used

def bootBlockGeometry : Geometry where
  blockSize := 1024
  blocksPerGroup := 8192
  inodesPerGroup := 8
  inodeSize := 128
  numGroups := 2
  sBlocksCount := 16384
  sRBlocksCount := 0
  sInodesCount := 16
  sFirstDataBlock := 1
  sRest := Buf.zero
  bgBitmap := fun kind group => match kind with
    | .block => 3 + 2 * group
    | .inode => 4 + 2 * group
  bgInodeTable := fun group => 7 + group
  bgRest := fun _ => Buf.zero

def fullFs : FsInfo where
  bgFree := fun _ _ => 0
  bgUsedDirs := fun _ => 0
  sFree := fun _ => 0
  bitmapGroup := none
  bitmap := fun _ => Buf.zero
  bitmapDirty := fun _ => false
  gdtDirty := false
  sbDirty := false
  dev := ⟨fun _ _ => 0xFF, [], []⟩

theorem bootBlockReal (group : Nat) : bootBlockGeometry.Real group ↔ group < 2 := by
  simp only [Geometry.Real, bootBlockGeometry]
  omega

theorem bootBlockSystem {b : Nat} (system : bootBlockGeometry.System b) : 0 < b ∧ b < 7 := by
  rcases system with ⟨group, kind, low, _, rfl⟩ | ⟨i, low, rfl⟩ | rfl
  · simp only [bootBlockGeometry] at low ⊢
    cases kind <;> simp only <;> omega
  · simp only [bootBlockGeometry, Geometry.gdtBlocks, Geometry.gdtBytes] at low ⊢
    omega
  · decide

theorem bootBlockSound : bootBlockGeometry.Sound where
  blockSize := .inl rfl
  firstDataBlock := by decide
  perGroupPos kind := by cases kind <;> decide
  perGroupLe kind := by cases kind <;> decide
  numGroups := by decide
  blocksSmall := by decide
  fitsDevice := by decide
  inodesSmall := by decide
  reserved := by decide
  emptyGroup group inside notReal := absurd ((bootBlockReal group).mpr inside) notReal
  bitmapsInside kind group real := by
    rw [bootBlockReal] at real
    cases kind <;> simp only [bootBlockGeometry] <;> omega
  gdtInside := by decide
  bitmapsApart kind group kind' group' _ _ same := by
    cases kind <;> cases kind' <;> simp only [bootBlockGeometry] at same <;>
      first | exact ⟨rfl, by omega⟩ | omega
  gdtApart kind group _ i low := by
    simp only [bootBlockGeometry, Geometry.gdtBlocks, Geometry.gdtBytes] at low ⊢
    cases kind <;> simp only <;> omega
  superApart kind group _ := by
    have one : bootBlockGeometry.superBlock = 1 := rfl
    rw [one]
    cases kind <;> simp only [bootBlockGeometry] <;> omega
  tableApart ino positive inside system := by
    have high := (bootBlockSystem system).2
    simp only [bootBlockGeometry, Geometry.inodeBlock, Geometry.inodeGroup,
      Geometry.inodeIndex, u32] at inside high
    omega

theorem fullBit (kind : Kind) {group i : Nat} (small : i < 8 * 1024) :
    (image bootBlockGeometry fullFs kind group).getBit i = true := by
  have within : i / 8 < 1024 := by omega
  have low : i % 8 < 8 := Nat.mod_lt _ (by decide)
  show (if i / 8 < 1024 then (0xFF : Byte) else 0).getLsbD (i % 8) = true
  rw [if_pos within]
  generalize i % 8 = k at low
  interval_cases k <;> rfl

theorem fullMounted : Mounted bootBlockGeometry fullFs where
  noneResident := rfl
  counted :=
    { group := by
        intro kind group inside
        have none_ : freeBits bootBlockGeometry fullFs kind group = ∅ := by
          refine Finset.eq_empty_of_forall_notMem fun i member => ?_
          have small := (validReal bootBlockSound inside (mem_freeBits.mp member).1).2
          rw [mem_freeBits, fullBit kind small] at member
          exact absurd member.2 (by decide)
        rw [none_]
        rfl
      total := by
        intro kind
        exact (Finset.sum_const_zero).symm }

theorem lastBlockNotFreed : bootBlockGeometry.Sound ∧ Mounted bootBlockGeometry fullFs ∧
    allocated bootBlockGeometry fullFs 8192 = true ∧
    ext2FreeBlock bootBlockGeometry 8192 fullFs = (none, fullFs) ∧
    ¬ FreesExactly bootBlockGeometry fullFs 8192 := by
  refine ⟨bootBlockSound, fullMounted, fullBit .block (by decide), rfl, fun frees => ?_⟩
  have done := (frees [] noneShortNil none _ rfl).2.2 (fun _ h => nomatch h)
  cases done

def freeAndAllocate : List (Call × List Transfer) :=
  [(.freeBlock 100, []), (.allocBlock 1, [.refused]), (.sync, [])]

theorem freeAndAllocateConsistent : ∃ fs,
    Run.run (step bootBlockGeometry) fullFs freeAndAllocate = some fs ∧
    (∀ kind, ∀ group < 2,
      fs.bgFree kind group = (freeBits bootBlockGeometry fs kind group).card) ∧
    (allocated bootBlockGeometry fs 100 = true → FreesExactly bootBlockGeometry fs 100) := by
  have ends : (Run.run (step bootBlockGeometry) fullFs freeAndAllocate).isSome := rfl
  have ran := (Option.some_get ends).symm
  have noneShort : Run.Meets (step bootBlockGeometry) (fun _ a => NoneShort a.2) fullFs
      freeAndAllocate := by
    simp [freeAndAllocate, Run.Meets, NoneShort]
  obtain ⟨counts, _, _, frees⟩ := allocationConsistent bootBlockGeometry bootBlockSound fullFs _
    fullMounted freeAndAllocate noneShort ran
  refine ⟨_, ran, counts, fun used => ?_⟩
  exact (frees 100 (by decide) (by decide) used).mpr (.inr (by decide))

end Scepter.Ext2
