import Scepter.Fs.Ext2.Cache

/-! What the allocation calls do to the bitmaps the cache stands for: a call
that succeeds turns one bit over and moves the two counts with it, a call that
fails leaves bits and counts as they were. -/
namespace Scepter.Ext2

open Block Prog

structure Marks (geo : Geometry) (kind : Kind) (group i : Nat) (v : Bool) (s t : FsInfo) :
    Prop where
  inside : group < geo.numGroups
  real : geo.Real group
  was : (image geo s kind group).getBit i = !v
  bits : ∀ kind' group' j, geo.Real group' → j < 8 * geo.blockSize →
    (image geo t kind' group').getBit j =
      if kind' = kind ∧ group' = group ∧ j = i then v else (image geo s kind' group').getBit j
  bgFree : t.bgFree = Function.update s.bgFree kind (Function.update (s.bgFree kind) group
    (u16 (s.bgFree kind group + if v then 2 ^ 16 - 1 else 1)))
  sFree : t.sFree = Function.update s.sFree kind
    (u32 (s.sFree kind + if v then 2 ^ 32 - 1 else 1))

variable {geo : Geometry}

theorem imageResident {fs : FsInfo} {group : Nat} (resident : fs.bitmapGroup = some group)
    (kind : Kind) : image geo fs kind group = fs.bitmap kind := if_pos resident

theorem Marks.after {kind group i v} {s m t : FsInfo} (same : SameView geo s m)
    (small : i < 8 * geo.blockSize) (marks : Marks geo kind group i v m t) :
    Marks geo kind group i v s t where
  inside := marks.inside
  real := marks.real
  was := (same.bits kind group i marks.real small).symm.trans marks.was
  bits kind' group' j real small' := by
    rw [marks.bits kind' group' j real small', same.bits kind' group' j real small']
  bgFree := by rw [marks.bgFree, same.bgFree]
  sFree := by rw [marks.sFree, same.sFree]

theorem Marks.before {kind group i v} {s m t : FsInfo} (marks : Marks geo kind group i v s m)
    (same : SameView geo m t) : Marks geo kind group i v s t where
  inside := marks.inside
  real := marks.real
  was := marks.was
  bits kind' group' j real small := by
    rw [same.bits kind' group' j real small, marks.bits kind' group' j real small]
  bgFree := by rw [same.bgFree, marks.bgFree]
  sFree := by rw [same.sFree, marks.sFree]

theorem turnCoherent {kind : Kind} {group bg total : Nat} {buf : Buf} {s : FsInfo}
    (coherent : Coherent geo s) :
    Coherent geo (setCount (setDirty { s with
      bitmap := Function.update s.bitmap kind buf } kind true) kind group bg total) := by
  refine ⟨coherent.unbroken, coherent.resident, ?_⟩
  intro group' kind' resident clean o small
  have other : kind' ≠ kind := by
    rintro rfl
    simp [setCount, setDirty] at clean
  simp only [setCount, setDirty, Function.update_of_ne other] at clean ⊢
  exact coherent.clean group' kind' resident clean o small

theorem turnImage {kind : Kind} {group bg total : Nat} {buf : Buf} {s : FsInfo}
    (resident : s.bitmapGroup = some group) (kind' : Kind) (group' : Nat) :
    image geo (setCount (setDirty { s with
      bitmap := Function.update s.bitmap kind buf } kind true) kind group bg total) kind' group' =
      if kind' = kind ∧ group' = group then buf else image geo s kind' group' := by
  unfold image
  simp only [setCount, setDirty, resident, Option.some.injEq]
  by_cases here : group = group'
  · subst here
    by_cases same : kind' = kind
    · subst same
      simp
    · simp [same]
  · have elsewhere : ¬ (kind' = kind ∧ group' = group) := fun h => here h.2.symm
    rw [if_neg here, if_neg elsewhere, if_neg here]

theorem claimMarks {kind : Kind} {group i : Nat} {s : FsInfo} (coherent : Coherent geo s)
    (resident : s.bitmapGroup = some group) (free : (s.bitmap kind).getBit i = false) :
    Coherent geo (claim kind group i s) ∧ Marks geo kind group i true s (claim kind group i s) := by
  obtain ⟨inside, real⟩ := coherent.resident group resident
  refine ⟨turnCoherent coherent, inside, real, ?_, ?_, rfl, rfl⟩
  · rw [imageResident resident, free]
    rfl
  · intro kind' group' j _ _
    rw [claim, turnImage resident]
    by_cases here : kind' = kind ∧ group' = group
    · obtain ⟨rfl, rfl⟩ := here
      simp [Buf.getBitSet, imageResident resident]
    · rw [if_neg here, if_neg fun h => here ⟨h.1, h.2.1⟩]

theorem releaseMarks {kind : Kind} {group i : Nat} {s : FsInfo} (coherent : Coherent geo s)
    (resident : s.bitmapGroup = some group) (used : (s.bitmap kind).getBit i = true) :
    Coherent geo (release kind group i s) ∧
      Marks geo kind group i false s (release kind group i s) := by
  obtain ⟨inside, real⟩ := coherent.resident group resident
  refine ⟨turnCoherent coherent, inside, real, ?_, ?_, rfl, rfl⟩
  · rw [imageResident resident, used]
    rfl
  · intro kind' group' j _ _
    rw [release, turnImage resident]
    by_cases here : kind' = kind ∧ group' = group
    · obtain ⟨rfl, rfl⟩ := here
      simp [Buf.getBitClear, imageResident resident]
    · rw [if_neg here, if_neg fun h => here ⟨h.1, h.2.1⟩]

theorem bitOfBlock (geo : Geometry) (group block : Nat)
    (low : group * geo.blocksPerGroup + geo.sFirstDataBlock ≤ block) (small : block < 2 ^ 32) :
    ext2BitOfBlock geo group block =
      block - (group * geo.blocksPerGroup + geo.sFirstDataBlock) := by
  unfold ext2BitOfBlock sub32 u32
  generalize group * geo.blocksPerGroup = first at low
  omega

theorem scanFound {group : Nat} {bitmap : Buf} {fuel blk b : Nat}
    (found : scanBlocks geo group bitmap fuel blk = some b) :
    blk ≤ b ∧ b < blk + fuel ∧ bitmap.getBit (ext2BitOfBlock geo group b) = false ∧
      ext2BitOfBlock geo group b < geo.blocksPerGroup := by
  induction fuel generalizing blk with
  | zero => cases found
  | succ fuel ih =>
    unfold scanBlocks at found
    dsimp only at found
    split at found
    · cases found
    · split at found
      · obtain ⟨low, high, rest⟩ := ih found
        exact ⟨by omega, by omega, rest⟩
      · cases found
        refine ⟨by omega, by omega, by simpa using ‹¬ bitmap.getBit _ = true›, by omega⟩

def Geometry.place (geo : Geometry) (block : Nat) : Nat × Nat :=
  ((block - geo.sFirstDataBlock) / geo.blocksPerGroup,
    (block - geo.sFirstDataBlock) % geo.blocksPerGroup)

theorem placeOf (geo : Geometry) (group : Nat) {i : Nat} (small : i < geo.blocksPerGroup) :
    geo.place (group * geo.blocksPerGroup + geo.sFirstDataBlock + i) = (group, i) := by
  have shift : group * geo.blocksPerGroup + geo.sFirstDataBlock + i - geo.sFirstDataBlock =
      i + geo.blocksPerGroup * group := by
    rw [Nat.mul_comm]
    omega
  unfold Geometry.place
  rw [shift, Nat.add_mul_div_left _ _ (by omega), Nat.add_mul_mod_self_left,
    Nat.div_eq_of_lt small, Nat.mod_eq_of_lt small, Nat.zero_add]

section calls

variable (sound : geo.Sound)
include sound

theorem bitSmall (kind : Kind) {i : Nat} (small : i < geo.perGroup kind) :
    i < 8 * geo.blockSize :=
  Nat.lt_of_lt_of_le small (sound.perGroupLe kind)

theorem allocBlockFromCases (start : Nat) (gs : List Nat) {s : FsInfo}
    (coherent : Coherent geo s) {r t} (ran : allocBlockFrom geo start gs s = (r, t)) :
    (r = none ∧ Keeps geo s t) ∨
    ∃ group i m, r = some (group * geo.blocksPerGroup + geo.sFirstDataBlock + i) ∧
      i < geo.blocksPerGroup ∧
      group * geo.blocksPerGroup + geo.sFirstDataBlock + i < geo.sBlocksCount ∧
      Keeps geo s m ∧ m.bitmapGroup = some group ∧ (m.bitmap .block).getBit i = false ∧
      t = claim .block group i m := by
  induction gs generalizing s with
  | nil =>
    cases ran
    exact .inl ⟨rfl, refl_of (Keeps geo) _⟩
  | cons g gs ih =>
    unfold allocBlockFrom at ran
    dsimp only at ran
    rw [getBind] at ran
    split at ran
    · exact ih coherent ran
    obtain ⟨keeps, resident⟩ := loadCases sound ((start + g) % geo.numGroups) coherent
    rcases load : ext2LoadGroupBitmaps geo ((start + g) % geo.numGroups) s with ⟨_ | _, m⟩
    · rw [bindFails load] at ran
      rw [load] at keeps
      cases ran
      exact .inl ⟨rfl, keeps⟩
    rw [bindOf load, getBind] at ran
    rw [load] at keeps resident
    have coherent' := (keeps coherent).1
    generalize (start + g) % geo.numGroups = group at ran resident
    obtain ⟨inside, real⟩ := coherent'.resident group (resident rfl)
    generalize found : scanBlocks _ _ _ _ _ = result at ran
    cases result with
    | none =>
      rcases ih coherent' ran with ⟨failed, rest⟩ | ⟨group', i, n, done, small, low, rest, more⟩
      · exact .inl ⟨failed, trans_of (Keeps geo) keeps rest⟩
      · exact .inr ⟨group', i, n, done, small, low, trans_of (Keeps geo) keeps rest, more⟩
    | some blk =>
      obtain ⟨low, high, free, small⟩ := scanFound found
      have fits := sound.blocksSmall
      have reserved := sound.reserved
      have noWrap : u32 (u32 (group * geo.blocksPerGroup) + geo.sFirstDataBlock) =
          group * geo.blocksPerGroup + geo.sFirstDataBlock := by
        unfold Geometry.Real at real
        unfold u32
        generalize group * geo.blocksPerGroup = base at real
        omega
      have limit : sub32 geo.sBlocksCount geo.sRBlocksCount =
          geo.sBlocksCount - geo.sRBlocksCount := by
        unfold sub32 u32
        omega
      rw [noWrap] at low
      have bit := bitOfBlock geo group blk low (by omega)
      replace ran : (some blk, claim .block group (ext2BitOfBlock geo group blk) m) = (r, t) := ran
      rw [bit] at small free ran
      have place : group * geo.blocksPerGroup + geo.sFirstDataBlock +
          (blk - (group * geo.blocksPerGroup + geo.sFirstDataBlock)) = blk := by omega
      cases ran
      refine .inr ⟨group, _, m, by rw [place], small, ?_, keeps, resident rfl, free, rfl⟩
      rw [noWrap, limit] at high
      omega

theorem allocBlockCases {ino : Nat} {s : FsInfo} (coherent : Coherent geo s) {r t}
    (ran : ext2AllocBlock geo ino s = (r, t)) :
    Coherent geo t ∧ WritesBlocks geo geo.System s.dev t.dev ∧
    ((r = none ∧ SameView geo s t) ∨
      ∃ b, r = some b ∧ geo.sFirstDataBlock ≤ b ∧ b < geo.sBlocksCount ∧
        Marks geo .block (geo.place b).1 (geo.place b).2 true s t) := by
  rcases allocBlockFromCases sound _ _ coherent ran with
    ⟨failed, keeps⟩ | ⟨group, i, m, done, small, inside, keeps, resident, free, rfl⟩
  · obtain ⟨coherent', same, writes⟩ := keeps coherent
    exact ⟨coherent', writes, .inl ⟨failed, same⟩⟩
  · obtain ⟨coherent', same, writes⟩ := keeps coherent
    obtain ⟨claimed, marks⟩ := claimMarks coherent' resident free
    refine ⟨claimed, writes, .inr ⟨_, done, by omega, inside, ?_⟩⟩
    rw [placeOf geo group small]
    exact marks.after same (bitSmall sound .block small)

theorem freePlace {block : Nat} (inside : block < geo.sBlocksCount)
    (notEdge : geo.sFirstDataBlock = 0 ∨ ¬ geo.blocksPerGroup ∣ block) :
    geo.sFirstDataBlock ≤ block ∧
      geo.place block = (block / geo.blocksPerGroup,
        ext2BitOfBlock geo (block / geo.blocksPerGroup) block) ∧
      ext2BitOfBlock geo (block / geo.blocksPerGroup) block < geo.blocksPerGroup := by
  have fits := sound.blocksSmall
  have positive : 0 < geo.blocksPerGroup := sound.perGroupPos .block
  have first := sound.firstDataBlock
  have split := Nat.div_add_mod' block geo.blocksPerGroup
  have below := Nat.mod_lt block positive
  have off : geo.sFirstDataBlock ≤ block % geo.blocksPerGroup := by
    rcases notEdge with zero | notDvd
    · omega
    · rw [Nat.dvd_iff_mod_eq_zero] at notDvd
      omega
  generalize block / geo.blocksPerGroup = group at *
  generalize block % geo.blocksPerGroup = rest at *
  have bit := bitOfBlock geo group block (by omega) (by omega)
  have place := placeOf geo group (show rest - geo.sFirstDataBlock < _ by omega)
  have same : group * geo.blocksPerGroup + geo.sFirstDataBlock + (rest - geo.sFirstDataBlock) =
      block := by omega
  rw [same] at place
  rw [place, bit]
  refine ⟨by omega, ?_, by omega⟩
  congr 1
  omega

theorem freeEdge {block : Nat} (inside : block < geo.sBlocksCount)
    (first : geo.sFirstDataBlock = 1) (edge : geo.blocksPerGroup ∣ block) :
    geo.blocksPerGroup ≤ ext2BitOfBlock geo (block / geo.blocksPerGroup) block := by
  have fits := sound.blocksSmall
  have bits : geo.blocksPerGroup ≤ 8 * geo.blockSize := sound.perGroupLe .block
  have size := sound.blockSize
  have exact_ := Nat.div_mul_cancel edge
  unfold ext2BitOfBlock sub32 u32
  rw [exact_, first]
  omega

theorem freeBlockCases {block : Nat} {s : FsInfo} (coherent : Coherent geo s) {r t}
    (ran : ext2FreeBlock geo block s = (r, t)) :
    Coherent geo t ∧ WritesBlocks geo geo.System s.dev t.dev ∧
    ((r = none ∧ SameView geo s t) ∨
      (r = some () ∧ block < geo.sBlocksCount ∧ geo.sFirstDataBlock ≤ block ∧
        (geo.sFirstDataBlock = 0 ∨ ¬ geo.blocksPerGroup ∣ block) ∧
        Marks geo .block (geo.place block).1 (geo.place block).2 false s t)) := by
  unfold ext2FreeBlock at ran
  by_cases outside : geo.sBlocksCount ≤ block
  · rw [if_pos outside] at ran
    cases ran
    exact ⟨coherent, writesNothing _ _, .inl ⟨rfl, .refl s⟩⟩
  rw [if_neg outside] at ran
  by_cases edge : geo.numGroups ≤ block / geo.blocksPerGroup ∨
      geo.blocksPerGroup ≤ ext2BitOfBlock geo (block / geo.blocksPerGroup) block
  · rw [if_pos edge] at ran
    cases ran
    exact ⟨coherent, writesNothing _ _, .inl ⟨rfl, .refl s⟩⟩
  rw [if_neg edge, not_or] at *
  have notEdge : geo.sFirstDataBlock = 0 ∨ ¬ geo.blocksPerGroup ∣ block := by
    by_contra off
    rw [not_or, not_not] at off
    have := sound.firstDataBlock
    exact edge.2 (freeEdge sound (by omega) (by omega) off.2)
  obtain ⟨low, place, small⟩ := freePlace sound (by omega) notEdge
  obtain ⟨keeps, resident⟩ := loadCases sound (block / geo.blocksPerGroup) coherent
  rcases load : ext2LoadGroupBitmaps geo (block / geo.blocksPerGroup) s with ⟨_ | _, m⟩
  · rw [bindFails load] at ran
    rw [load] at keeps
    cases ran
    obtain ⟨coherent', same, writes⟩ := keeps coherent
    exact ⟨coherent', writes, .inl ⟨rfl, same⟩⟩
  rw [bindOf load, getBind] at ran
  rw [load] at keeps resident
  obtain ⟨coherent', same, writes⟩ := keeps coherent
  split at ran
  · next used =>
    cases ran
    obtain ⟨released, marks⟩ := releaseMarks coherent' (resident rfl) used
    refine ⟨released, writes, .inr ⟨rfl, by omega, low, notEdge, ?_⟩⟩
    rw [place]
    exact marks.after same (bitSmall sound .block small)
  · cases ran
    exact ⟨coherent', writes, .inl ⟨rfl, same⟩⟩

theorem placeReal {block : Nat} (low : geo.sFirstDataBlock ≤ block)
    (inside : block < geo.sBlocksCount) : geo.Real (geo.place block).1 ∧
      geo.Valid .block (geo.place block).1 (geo.place block).2 := by
  have positive : 0 < geo.blocksPerGroup := sound.perGroupPos .block
  have split := Nat.div_add_mod' (block - geo.sFirstDataBlock) geo.blocksPerGroup
  have below := Nat.mod_lt (block - geo.sFirstDataBlock) positive
  simp only [Geometry.Real, Geometry.place, Geometry.Valid]
  omega

def allocated (geo : Geometry) (fs : FsInfo) (block : Nat) : Bool :=
  (image geo fs .block (geo.place block).1).getBit (geo.place block).2

theorem freeBlockSure {block : Nat} {s : FsInfo} (coherent : Coherent geo s)
    (reliable : s.dev.Reliable) (inside : block < geo.sBlocksCount)
    (notEdge : geo.sFirstDataBlock = 0 ∨ ¬ geo.blocksPerGroup ∣ block)
    (used : allocated geo s block = true) : (ext2FreeBlock geo block s).1 = some () := by
  obtain ⟨low, place, small⟩ := freePlace sound inside notEdge
  have real := (placeReal sound low inside).1
  unfold allocated at used
  rw [place] at real used
  have group := sound.realInside real
  dsimp only at real used group
  unfold ext2FreeBlock
  rw [if_neg (show ¬ geo.sBlocksCount ≤ block by omega), if_neg (by omega)]
  have ready : Ready geo s := ⟨reliable, fun group resident => (coherent.resident group resident).2⟩
  obtain ⟨_, m, load, _⟩ := sureRun (loadSure sound ready group real)
  obtain ⟨keeps, resident⟩ := loadCases sound (block / geo.blocksPerGroup) coherent
  rw [load] at keeps resident
  obtain ⟨_, same, _⟩ := keeps coherent
  rw [← same.bits _ _ _ real (bitSmall sound .block small), imageResident (resident rfl)] at used
  rw [bindOf load, getBind, if_pos used]
  rfl

/-! The inode calls also write the inode table. -/

theorem readInodeKeeping {ino : Nat} {s : FsInfo} :
    Leaves (Keeping geo fun _ => False) (ext2ReadInode geo ino) s := by
  unfold ext2ReadInode
  split
  · exact leavesFail s
  split
  · exact leavesFail s
  split
  · exact leavesFail s
  exact leavesBind (readKeeping sound _) fun _ m _ => leavesPure _ m

omit sound in
theorem writeInodeDev (geo : Geometry) (ino : Nat) (inode : Inode) (s : FsInfo) :
    ∃ d, (ext2WriteInode geo ino inode s).2 = { s with dev := d } := by
  unfold ext2WriteInode
  split
  · exact ⟨s.dev, rfl⟩
  split
  · exact ⟨s.dev, rfl⟩
  split
  · exact ⟨s.dev, rfl⟩
  have first := readBlockDev geo (geo.inodeBlock ino) Buf.zero s
  rcases read : ext2ReadBlock geo (geo.inodeBlock ino) Buf.zero s with ⟨_ | buf, m⟩
  · rw [bindFails read]
    rw [read] at first
    rcases first with rfl | rfl
    · exact ⟨m.dev, rfl⟩
    · exact ⟨_, rfl⟩
  · rw [bindOf read]
    rw [read] at first
    obtain ⟨d, left⟩ := writeBlockDev geo (geo.inodeBlock ino) (fun o =>
      if geo.inodeOffset ino ≤ o ∧ o < geo.inodeOffset ino + 128 then
        inode (o - geo.inodeOffset ino) else buf o) m
    refine ⟨d, left.trans ?_⟩
    rcases first with rfl | rfl <;> rfl

theorem writeInodeKeeping (ino : Nat) (inode : Inode) (s : FsInfo) :
    Leaves (Keeping geo (· = geo.inodeBlock ino)) (ext2WriteInode geo ino inode) s := by
  unfold ext2WriteInode
  by_cases outside : ino < 1 ∨ geo.sInodesCount < ino
  · rw [if_pos outside]
    exact leavesFail s
  rw [if_neg outside]
  split
  · exact leavesFail s
  split
  · exact leavesFail s
  refine leavesBind (readKeeping sound _) fun buf m _ => writeKeeping sound ?_
  intro kind group real same
  refine sound.tableApart ino (by omega) (by omega) (.inl ⟨group, kind, ?_, real, same.symm⟩)
  exact sound.realInside real

omit sound in
theorem addUsedDirsKeeping (mode group n : Nat) (A : Nat → Prop) (s : FsInfo) :
    Keeping geo A s (addUsedDirs mode group n s) := by
  unfold addUsedDirs
  split
  · exact fun coherent => ⟨⟨coherent.unbroken, coherent.resident, coherent.clean⟩,
      ⟨fun _ _ _ _ _ => rfl, rfl, rfl⟩, writesNothing _ _⟩
  · exact refl_of (Keeping geo A) s

omit sound in
theorem addUsedDirsResident (mode group n : Nat) (s : FsInfo) :
    (addUsedDirs mode group n s).bitmapGroup = s.bitmapGroup ∧
      (addUsedDirs mode group n s).bitmap = s.bitmap := by
  unfold addUsedDirs
  split <;> exact ⟨rfl, rfl⟩

structure Fits (geo : Geometry) (fs : FsInfo) : Prop where
  bg : ∀ kind, ∀ group < geo.numGroups, fs.bgFree kind group < 2 ^ 16
  total : ∀ kind, fs.sFree kind < 2 ^ 32

omit sound in
theorem Marks.undone {kind group i} {s m t : FsInfo} (fits : Fits geo s)
    (claimed : Marks geo kind group i true s m) (released : Marks geo kind group i false m t) :
    SameView geo s t where
  bits kind' group' j real small := by
    rw [released.bits kind' group' j real small, claimed.bits kind' group' j real small]
    split
    · next here =>
      obtain ⟨rfl, rfl, rfl⟩ := here
      exact claimed.was.symm
    · rfl
  bgFree := by
    have small := fits.bg kind group claimed.inside
    rw [released.bgFree, claimed.bgFree]
    simp only [Function.update_self, Function.update_idem, if_true, Bool.false_eq_true, if_false]
    rw [show u16 (u16 (s.bgFree kind group + (2 ^ 16 - 1)) + 1) = s.bgFree kind group by
      unfold u16; omega, Function.update_eq_self, Function.update_eq_self]
  sFree := by
    have small := fits.total kind
    rw [released.sFree, claimed.sFree]
    simp only [Function.update_self, Function.update_idem, if_true, Bool.false_eq_true, if_false]
    rw [show u32 (u32 (s.sFree kind + (2 ^ 32 - 1)) + 1) = s.sFree kind by
      unfold u32; omega, Function.update_eq_self]

omit sound in
theorem Fits.same {s t : FsInfo} (fits : Fits geo s) (same : SameView geo s t) :
    Fits geo t where
  bg kind group inside := by rw [same.bgFree]; exact fits.bg kind group inside
  total kind := by rw [same.sFree]; exact fits.total kind

theorem inodePlace {group i : Nat} (inside : group < geo.numGroups)
    (small : i < geo.inodesPerGroup) :
    u32 (group * geo.inodesPerGroup + i + 1) = group * geo.inodesPerGroup + i + 1 ∧
      geo.inodeGroup (group * geo.inodesPerGroup + i + 1) = group ∧
      geo.inodeIndex (group * geo.inodesPerGroup + i + 1) = i := by
  have bound := sound.inodesSmall
  have le := Nat.mul_le_mul_right geo.inodesPerGroup (Nat.succ_le_of_lt inside)
  rw [Nat.succ_mul] at le
  unfold Geometry.inodeGroup Geometry.inodeIndex
  rw [Nat.add_sub_cancel, Nat.mul_comm, Nat.mul_add_div (by omega), Nat.div_eq_of_lt small,
    Nat.mul_add_mod, Nat.mod_eq_of_lt small, Nat.mul_comm]
  exact ⟨Nat.mod_eq_of_lt (by omega), rfl, rfl⟩

theorem claimInodeCases {mode now group i ino : Nat} {s : FsInfo} (coherent : Coherent geo s)
    (fits : Fits geo s) (resident : s.bitmapGroup = some group)
    (free : (s.bitmap .inode).getBit i = false) (positive : 0 < ino)
    (known : ino ≤ geo.sInodesCount) {r t}
    (ran : claimInode geo mode now group i ino s = (r, t)) :
    Coherent geo t ∧ WritesBlocks geo geo.Metadata s.dev t.dev ∧
    ((r = none ∧ SameView geo s t) ∨
      r = some ino ∧ Marks geo .inode group i true s t) := by
  unfold claimInode at ran
  rw [modifyBind, modifyBind, bindOf (attemptRun _ _)] at ran
  obtain ⟨claimed, marks⟩ := claimMarks coherent resident free
  generalize after : addUsedDirs mode group 1 (claim .inode group i s) = m at ran
  have counted : Keeping geo geo.Metadata (claim .inode group i s) m :=
    after ▸ addUsedDirsKeeping mode group 1 geo.Metadata _
  have tables := (writeInodeKeeping sound ino (newInode mode now) m).mono
    fun b here => (.inr ⟨ino, positive, known, here⟩ : geo.Metadata b)
  obtain ⟨coherent₁, same₁, writes₁⟩ := trans_of (Keeping geo _) counted tables claimed
  obtain ⟨d, left⟩ := writeInodeDev geo ino (newInode mode now) m
  rcases wrote : ext2WriteInode geo ino (newInode mode now) m with ⟨_ | _, w⟩
  · rw [wrote] at ran coherent₁ same₁ writes₁ left
    replace left : w = { m with dev := d } := left
    obtain ⟨sameGroup, sameBitmap⟩ := addUsedDirsResident mode group 1 (claim .inode group i s)
    rw [after] at sameGroup sameBitmap
    have residentW : w.bitmapGroup = some group := by
      rw [left]
      exact sameGroup.trans resident
    have usedW : (w.bitmap .inode).getBit i = true := by
      rw [left]
      show (m.bitmap .inode).getBit i = true
      rw [sameBitmap]
      simp [claim, setCount, setDirty, Buf.getBitSet]
    obtain ⟨released, undo⟩ := releaseMarks coherent₁ residentW usedW
    obtain ⟨coherent₂, same₂, writes₂⟩ := addUsedDirsKeeping mode group (2 ^ 16 - 1)
      geo.Metadata (release .inode group i w) released
    cases ran
    refine ⟨coherent₂, writes₁.trans writes₂, .inl ⟨rfl, ?_⟩⟩
    exact ((marks.before same₁).undone fits undo).trans same₂
  · rw [wrote] at ran coherent₁ same₁ writes₁
    cases ran
    exact ⟨coherent₁, writes₁, .inr ⟨rfl, marks.before same₁⟩⟩

theorem allocInodeFromCases (mode now start : Nat) (gs : List Nat) {s : FsInfo}
    (coherent : Coherent geo s) (fits : Fits geo s) {r t}
    (ran : allocInodeFrom geo mode now start gs s = (r, t)) :
    Coherent geo t ∧ WritesBlocks geo geo.Metadata s.dev t.dev ∧
    ((r = none ∧ SameView geo s t) ∨
      ∃ ino, r = some ino ∧ 0 < ino ∧ ino ≤ geo.sInodesCount ∧
        Marks geo .inode (geo.inodeGroup ino) (geo.inodeIndex ino) true s t) := by
  induction gs generalizing s with
  | nil =>
    cases ran
    exact ⟨coherent, writesNothing _ _, .inl ⟨rfl, .refl _⟩⟩
  | cons g gs ih =>
    unfold allocInodeFrom at ran
    dsimp only at ran
    rw [getBind] at ran
    split at ran
    · exact ih coherent fits ran
    obtain ⟨keeps, resident⟩ := loadCases sound ((start + g) % geo.numGroups) coherent
    rcases load : ext2LoadGroupBitmaps geo ((start + g) % geo.numGroups) s with ⟨_ | _, m⟩
    · rw [bindFails load] at ran
      rw [load] at keeps
      cases ran
      obtain ⟨coherent', same, writes⟩ := keeps coherent
      exact ⟨coherent', writes.mono fun _ => .inl, .inl ⟨rfl, same⟩⟩
    rw [bindOf load, getBind] at ran
    rw [load] at keeps resident
    obtain ⟨coherent', same, system⟩ := keeps coherent
    have writes : WritesBlocks geo geo.Metadata s.dev m.dev := system.mono fun _ => .inl
    generalize (start + g) % geo.numGroups = group at ran resident
    replace resident : m.bitmapGroup = some group := resident rfl
    obtain ⟨inside, real⟩ := coherent'.resident group resident
    generalize found : List.find? _ _ = result at ran
    cases result with
    | none =>
      obtain ⟨coherent'', writes', rest⟩ := ih coherent' (fits.same same) ran
      refine ⟨coherent'', writes.trans writes', ?_⟩
      rcases rest with ⟨failed, same'⟩ | ⟨ino, done, low, high, marks⟩
      · exact .inl ⟨failed, same.trans same'⟩
      · refine .inr ⟨ino, done, low, high, marks.after same (bitSmall sound .inode ?_)⟩
        exact Nat.mod_lt _ (sound.perGroupPos .inode)
    | some i =>
      have small : i < geo.inodesPerGroup := List.mem_range.mp (List.mem_of_find?_eq_some found)
      have free : (m.bitmap .inode).getBit i = false := by
        simpa using List.find?_some found
      obtain ⟨noWrap, itsGroup, itsIndex⟩ := inodePlace sound inside small
      dsimp only at ran
      rw [noWrap] at ran
      have positive : 0 < group * geo.inodesPerGroup + i + 1 := Nat.succ_pos _
      generalize group * geo.inodesPerGroup + i + 1 = ino at ran itsGroup itsIndex positive
      split at ran
      · cases ran
        exact ⟨coherent', writes, .inl ⟨rfl, same⟩⟩
      obtain ⟨coherent'', writes', rest⟩ := claimInodeCases sound coherent' (fits.same same)
        resident free positive (by omega) ran
      refine ⟨coherent'', writes.trans writes', ?_⟩
      rcases rest with ⟨failed, same'⟩ | ⟨done, marks⟩
      · exact .inl ⟨failed, same.trans same'⟩
      · refine .inr ⟨ino, done, positive, by omega, ?_⟩
        rw [itsGroup, itsIndex]
        exact marks.after same (bitSmall sound .inode small)

theorem freeInodeCases {ino now : Nat} {s : FsInfo} (coherent : Coherent geo s) {r t}
    (ran : ext2FreeInode geo ino now s = (r, t)) :
    Coherent geo t ∧ WritesBlocks geo geo.Metadata s.dev t.dev ∧
    ((r = none ∧ SameView geo s t) ∨
      0 < ino ∧ ino ≤ geo.sInodesCount ∧
        Marks geo .inode (geo.inodeGroup ino) (geo.inodeIndex ino) false s t) := by
  unfold ext2FreeInode at ran
  by_cases outside : ino < 1 ∨ geo.sInodesCount < ino
  · rw [if_pos outside] at ran
    cases ran
    exact ⟨coherent, writesNothing _ _, .inl ⟨rfl, .refl _⟩⟩
  rw [if_neg outside] at ran
  have keeps : Keeping geo geo.Metadata s (ext2ReadInode geo ino s).2 :=
    (readInodeKeeping sound).mono fun _ => False.elim
  rcases read : ext2ReadInode geo ino s with ⟨_ | inode, m⟩
  · rw [bindFails read] at ran
    rw [read] at keeps
    cases ran
    obtain ⟨coherent', same, writes⟩ := keeps coherent
    exact ⟨coherent', writes, .inl ⟨rfl, same⟩⟩
  rw [bindOf read] at ran
  rw [read] at keeps
  obtain ⟨coherent', same, writes⟩ := keeps coherent
  obtain ⟨loads, resident⟩ := loadCases sound (geo.inodeGroup ino) coherent'
  rcases load : ext2LoadGroupBitmaps geo (geo.inodeGroup ino) m with ⟨_ | _, n⟩
  · rw [bindFails load] at ran
    rw [load] at loads
    cases ran
    obtain ⟨coherent'', same', writes'⟩ := loads coherent'
    exact ⟨coherent'', writes.trans (writes'.mono fun _ => .inl), .inl ⟨rfl, same.trans same'⟩⟩
  rw [bindOf load, getBind] at ran
  rw [load] at loads resident
  obtain ⟨coherent'', same', writes'⟩ := loads coherent'
  have upTo := writes.trans (writes'.mono fun _ => (.inl : _ → geo.Metadata _))
  split at ran
  · next used =>
    rw [modifyBind, modifyBind] at ran
    obtain ⟨released, marks⟩ := releaseMarks coherent'' (resident rfl) used
    obtain ⟨coherent₁, same₁, writes₁⟩ := addUsedDirsKeeping inode.iMode (geo.inodeGroup ino)
      (2 ^ 16 - 1) geo.Metadata _ released
    have tables := leavesOf (writeInodeKeeping sound ino _ _) ran
    obtain ⟨coherent₂, same₂, writes₂⟩ := tables coherent₁
    have small : geo.inodeIndex ino < geo.inodesPerGroup :=
      Nat.mod_lt _ (sound.perGroupPos .inode)
    refine ⟨coherent₂, upTo.trans (writes₁.trans (writes₂.mono fun b here => ?_)),
      .inr ⟨by omega, by omega, ?_⟩⟩
    · exact .inr ⟨ino, by omega, by omega, here⟩
    · exact (marks.before (same₁.trans same₂)).after (same.trans same')
        (bitSmall sound .inode small)
  · cases ran
    exact ⟨coherent'', upTo, .inl ⟨rfl, same.trans same'⟩⟩

end calls

end Scepter.Ext2
