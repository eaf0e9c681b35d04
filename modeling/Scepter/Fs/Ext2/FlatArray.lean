import Scepter.Fs.Ext2.Counts
import Scepter.Fs.Ext2.Tables
import Scepter.Fs.Ext2.Unlink
import Mathlib.Data.List.Find

/-! What the resident bitmaps stand for: an array of the bitmaps of all groups with the
counts of free blocks, free inodes and directories, on which the calls need no transfers.
The inode table is on the device in either case. -/
namespace Scepter.Ext2

open Block Prog

structure FlatArray where
  bit : Kind → Nat → Nat → Bool
  bgFree : Kind → Nat → Nat
  bgUsedDirs : Nat → Nat
  sFree : Kind → Nat

instance (geo : Geometry) (group : Nat) : Decidable (geo.Real group) :=
  inferInstanceAs (Decidable (_ < _))

namespace Geometry

def span (geo : Geometry) (group : Nat) : Nat :=
  min ((group + 1) * geo.blocksPerGroup) (geo.sBlocksCount - geo.sRBlocksCount) -
    (group * geo.blocksPerGroup + geo.sFirstDataBlock)

def Stored (geo : Geometry) (ino : Nat) : Prop :=
  geo.inodeGroup ino < geo.numGroups ∧ geo.bgInodeTable (geo.inodeGroup ino) ≠ 0 ∧
    geo.inodeBlock ino < geo.sBlocksCount

instance (geo : Geometry) (ino : Nat) : Decidable (geo.Stored ino) := by
  unfold Stored
  infer_instance

end Geometry

namespace FlatArray

def turn (flat : FlatArray) (kind : Kind) (group i : Nat) (v : Bool) : FlatArray where
  bit := fun kind' group' j =>
    if kind' = kind ∧ group' = group ∧ j = i then v else flat.bit kind' group' j
  bgFree := Function.update flat.bgFree kind (Function.update (flat.bgFree kind) group
    (u16 (flat.bgFree kind group + if v then 2 ^ 16 - 1 else 1)))
  bgUsedDirs := flat.bgUsedDirs
  sFree := Function.update flat.sFree kind
    (u32 (flat.sFree kind + if v then 2 ^ 32 - 1 else 1))

def countDir (flat : FlatArray) (mode group by_ : Nat) : FlatArray :=
  if ext2IsDir mode then
    { flat with bgUsedDirs :=
        Function.update flat.bgUsedDirs group (u16 (flat.bgUsedDirs group + by_)) }
  else flat

def firstFree (flat : FlatArray) (kind : Kind) (group n : Nat) : Option Nat :=
  (List.range n).find? fun i => !flat.bit kind group i

def allocBlockFrom (geo : Geometry) (flat : FlatArray) (start : Nat) :
    List Nat → Option Nat × FlatArray
  | [] => (none, flat)
  | g :: gs =>
    let group := (start + g) % geo.numGroups
    if flat.bgFree .block group = 0 then allocBlockFrom geo flat start gs
    else if ¬ geo.Real group then (none, flat)
    else match flat.firstFree .block group (geo.span group) with
      | none => allocBlockFrom geo flat start gs
      | some i => (some (group * geo.blocksPerGroup + geo.sFirstDataBlock + i),
          flat.turn .block group i true)

def allocBlock (geo : Geometry) (flat : FlatArray) (ino : Nat) : Option Nat × FlatArray :=
  let inoGroup := if 1 ≤ ino then (ino - 1) / geo.inodesPerGroup else 0
  allocBlockFrom geo flat (if geo.numGroups ≤ inoGroup then 0 else inoGroup)
    (List.range geo.numGroups)

def freeBlock (geo : Geometry) (flat : FlatArray) (block : Nat) : Option Unit × FlatArray :=
  let group := block / geo.blocksPerGroup
  let i := ext2BitOfBlock geo group block
  if block < geo.sBlocksCount ∧ i < geo.blocksPerGroup ∧ flat.bit .block group i then
    (some (), flat.turn .block group i false)
  else (none, flat)

def allocInodeFrom (geo : Geometry) (flat : FlatArray) (mode start : Nat) :
    List Nat → Option Nat × FlatArray
  | [] => (none, flat)
  | g :: gs =>
    let group := (start + g) % geo.numGroups
    if flat.bgFree .inode group = 0 then allocInodeFrom geo flat mode start gs
    else if ¬ geo.Real group then (none, flat)
    else match flat.firstFree .inode group geo.inodesPerGroup with
      | none => allocInodeFrom geo flat mode start gs
      | some i =>
        let ino := group * geo.inodesPerGroup + i + 1
        if ino ≤ geo.sInodesCount ∧ geo.Stored ino then
          (some ino, (flat.turn .inode group i true).countDir mode group 1)
        else (none, flat)

def allocInode (geo : Geometry) (flat : FlatArray) (mode prefGroup : Nat) :
    Option Nat × FlatArray :=
  allocInodeFrom geo flat mode (if geo.numGroups ≤ prefGroup then 0 else prefGroup)
    (List.range geo.numGroups)

def freeInode (geo : Geometry) (flat : FlatArray) (mode ino : Nat) : Option Unit × FlatArray :=
  let group := geo.inodeGroup ino
  let i := geo.inodeIndex ino
  if 1 ≤ ino ∧ ino ≤ geo.sInodesCount ∧ geo.Stored ino ∧ flat.bit .inode group i then
    (some (), (flat.turn .inode group i false).countDir mode group (2 ^ 16 - 1))
  else (none, flat)

structure Fits (geo : Geometry) (flat : FlatArray) : Prop where
  bgFree : ∀ kind, ∀ group < geo.numGroups, flat.bgFree kind group < 2 ^ 16
  bgUsedDirs : ∀ group < geo.numGroups, flat.bgUsedDirs group < 2 ^ 16
  sFree : ∀ kind, flat.sFree kind < 2 ^ 32

end FlatArray

structure Stands (geo : Geometry) (fs : FsInfo) (flat : FlatArray) : Prop where
  bits : ∀ kind group i, geo.Real group → i < 8 * geo.blockSize →
    flat.bit kind group i = (image geo fs kind group).getBit i
  bgFree : flat.bgFree = fs.bgFree
  bgUsedDirs : flat.bgUsedDirs = fs.bgUsedDirs
  sFree : flat.sFree = fs.sFree

/-- The call returns what it would on the flat array and does the same to it, or a
transfer was refused, the call failed and the array is as it was. -/
def Answers {α : Type} (geo : Geometry) (flat : FlatArray) (coming : List Transfer)
    (want : Option α × FlatArray) (got : Option α × FsInfo) : Prop :=
  (got.1 = want.1 ∧ Stands geo got.2 want.2) ∨
    (Transfer.refused ∈ coming ∧ got.1 = none ∧ Stands geo got.2 flat)

/- A freed inode stays free when only the write to its place in the table was refused. -/
def Faithful (geo : Geometry) (fs : FsInfo) (flat : FlatArray) (coming : List Transfer) :
    Call → Prop
  | .allocBlock ino => Answers geo flat coming (flat.allocBlock geo ino)
      (ext2AllocBlock geo ino (fs.facing coming))
  | .freeBlock block => Answers geo flat coming (flat.freeBlock geo block)
      (ext2FreeBlock geo block (fs.facing coming))
  | .allocInode mode now prefGroup => Answers geo flat coming (flat.allocInode geo mode prefGroup)
      (ext2AllocInode geo mode now prefGroup (fs.facing coming))
  | .freeInode ino now =>
    let want := flat.freeInode geo (inodeAt geo fs ino).iMode ino
    let got := ext2FreeInode geo ino now (fs.facing coming)
    Answers geo flat coming want got ∨
      (Transfer.refused ∈ coming ∧ got.1 = none ∧ Stands geo got.2 want.2)
  | .loadGroup group => Stands geo (ext2LoadGroupBitmaps geo group (fs.facing coming)).2 flat
  | .sync =>
    let got := ext2SyncBitmaps geo (fs.facing coming)
    Stands geo got.2 flat ∧ (got.1 = some () →
      BitmapsOnDisk geo got.2 ∧ GdtOnDisk geo got.2 ∧ SuperOnDisk geo got.2)

/-- `rest` are the other bytes of the superblock: s_state and s_wtime are new. Whatever
fails, the call returns 0 and the memory is given up. -/
def ext2Unmount (geo : Geometry) (rest : Buf) : Prog FsInfo Unit := do
  let _ ← attempt (ext2SyncBitmaps geo)
  let _ ← attempt (ext2SyncSuper { geo with sRest := rest })
  pure ()

variable {geo : Geometry} {flat : FlatArray}

theorem Stands.same {s t : FsInfo} (stands : Stands geo s flat) (same : SameView geo s t)
    (used : t.bgUsedDirs = s.bgUsedDirs) : Stands geo t flat where
  bits kind group i real small := by
    rw [stands.bits kind group i real small, same.bits kind group i real small]
  bgFree := stands.bgFree.trans same.bgFree.symm
  bgUsedDirs := stands.bgUsedDirs.trans used.symm
  sFree := stands.sFree.trans same.sFree.symm

theorem Stands.turned {kind group i v} {s t : FsInfo} (stands : Stands geo s flat)
    (marks : Marks geo kind group i v s t) (used : t.bgUsedDirs = s.bgUsedDirs) :
    Stands geo t (flat.turn kind group i v) where
  bits kind' group' j real small := by
    rw [marks.bits kind' group' j real small, ← stands.bits kind' group' j real small]
    rfl
  bgFree := by
    rw [marks.bgFree, ← stands.bgFree]
    rfl
  bgUsedDirs := stands.bgUsedDirs.trans used.symm
  sFree := by
    rw [marks.sFree, ← stands.sFree]
    rfl

theorem Stands.countDir {s : FsInfo} (stands : Stands geo s flat) (mode group by_ : Nat) :
    Stands geo (addUsedDirs mode group by_ s) (flat.countDir mode group by_) := by
  unfold addUsedDirs FlatArray.countDir
  split
  · refine ⟨stands.bits, stands.bgFree, ?_, stands.sFree⟩
    dsimp only
    rw [stands.bgUsedDirs]
  · exact stands

theorem FlatArray.undone {kind : Kind} {group i : Nat} (fits : flat.Fits geo)
    (inside : group < geo.numGroups) (free : flat.bit kind group i = false) (mode : Nat) :
    ((((flat.turn kind group i true).countDir mode group 1).turn kind group i false).countDir
      mode group (2 ^ 16 - 1)) = flat := by
  have bits : (fun kind' group' j => if kind' = kind ∧ group' = group ∧ j = i then false
      else if kind' = kind ∧ group' = group ∧ j = i then true
      else flat.bit kind' group' j) = flat.bit := by
    funext kind' group' j
    split
    · rename_i here
      obtain ⟨rfl, rfl, rfl⟩ := here
      exact free.symm
    · rfl
  have count : u16 (u16 (flat.bgFree kind group + (2 ^ 16 - 1)) + 1) = flat.bgFree kind group := by
    have small := fits.bgFree kind group inside
    unfold u16
    omega
  have total : u32 (u32 (flat.sFree kind + (2 ^ 32 - 1)) + 1) = flat.sFree kind := by
    have small := fits.sFree kind
    unfold u32
    omega
  have dirs : u16 (u16 (flat.bgUsedDirs group + 1) + (2 ^ 16 - 1)) = flat.bgUsedDirs group := by
    have small := fits.bgUsedDirs group inside
    unfold u16
    omega
  unfold countDir turn
  cases isDir : ext2IsDir mode with
  | true =>
    simp only [if_true, Function.update_self, Function.update_idem, Bool.false_eq_true, if_false,
      bits, count, total, dirs, Function.update_eq_self]
  | false =>
    simp only [if_true, Function.update_self, Function.update_idem, Bool.false_eq_true, if_false,
      bits, count, total, Function.update_eq_self]

def Answered {α : Type} (geo : Geometry) (flat : FlatArray) (s : FsInfo)
    (want : Option α × FlatArray) (r : Option α) (t : FsInfo) : Prop :=
  (r = want.1 ∧ Stands geo t want.2) ∨ (¬ s.dev.Reliable ∧ r = none ∧ Stands geo t flat)

theorem Answered.after {α : Type} {s m t : FsInfo} {want : Option α × FlatArray} {r : Option α}
    (sure : s.dev.Reliable → m.dev.Reliable) (answered : Answered geo flat m want r t) :
    Answered geo flat s want r t := by
  rcases answered with same | ⟨unsure, rest⟩
  · exact .inl same
  · exact .inr ⟨fun reliable => unsure (sure reliable), rest⟩

theorem dirtyCurrent {s : FsInfo} {group : Nat} (gdt : s.gdtDirty = true)
    (sb : s.sbDirty = true) (resident : s.bitmapGroup = some group) : Current geo s where
  gdt clean := absurd (gdt.symm.trans clean) nofun
  super clean := absurd (sb.symm.trans clean) nofun
  flushed empty := absurd (resident.symm.trans empty) nofun

section calls

variable (sound : geo.Sound) (first : geo.SuperFirst)
include sound

include first in
theorem loadStands (group : Nat) {s m : FsInfo} (coherent : Coherent geo s)
    (current : Current geo s) (stands : Stands geo s flat) {r}
    (ran : ext2LoadGroupBitmaps geo group s = (r, m)) :
    Coherent geo m ∧ Current geo m ∧ Stands geo m flat ∧
      (s.dev.Reliable → m.dev.Reliable) ∧
      (r = none → ¬ s.dev.Reliable ∨ ¬ geo.Real group) ∧
      (r = some () → m.bitmapGroup = some group ∧ geo.Real group) := by
  obtain ⟨keeps, resident⟩ := loadCases sound group coherent
  obtain ⟨current', used⟩ := loadSettles sound first group coherent current
  rw [ran] at keeps resident current' used
  obtain ⟨coherent', same, writes⟩ := keeps coherent
  refine ⟨coherent', current', stands.same same used, writes.reliable, ?_, ?_⟩
  · rintro rfl
    by_contra neither
    obtain ⟨reliable, real⟩ := not_or.mp neither
    have ready : Ready geo s :=
      ⟨not_not.mp reliable, fun group resident => (coherent.resident group resident).2⟩
    have done := (loadSure sound ready (sound.realInside (not_not.mp real)) (not_not.mp real)).1
    rw [ran] at done
    exact absurd done nofun
  · intro done
    exact ⟨resident done, (coherent'.resident group (resident done)).2⟩

theorem spanBounds {group : Nat} (real : geo.Real group) :
    geo.span group ≤ geo.blocksPerGroup ∧
      group * geo.blocksPerGroup + geo.sFirstDataBlock + geo.span group ≤ 2 ^ 32 ∧
      u32 (u32 (group * geo.blocksPerGroup) + geo.sFirstDataBlock) =
        group * geo.blocksPerGroup + geo.sFirstDataBlock ∧
      min (u32 ((group + 1) * geo.blocksPerGroup)) (sub32 geo.sBlocksCount geo.sRBlocksCount) =
        min ((group + 1) * geo.blocksPerGroup) (geo.sBlocksCount - geo.sRBlocksCount) := by
  have fits := sound.blocksSmall
  have positive : 0 < geo.blocksPerGroup := sound.perGroupPos .block
  have reserved := sound.reserved
  unfold Geometry.span
  unfold Geometry.Real at real
  have low := sound.firstDataBlock
  unfold u32 sub32 u32
  rw [Nat.succ_mul]
  generalize group * geo.blocksPerGroup = base at real
  omega

omit sound in
theorem scanFind (group : Nat) (bitmap : Buf) {fuel k : Nat}
    (fits : k + fuel ≤ geo.blocksPerGroup)
    (small : group * geo.blocksPerGroup + geo.sFirstDataBlock + k + fuel ≤ 2 ^ 32) :
    scanBlocks geo group bitmap fuel (group * geo.blocksPerGroup + geo.sFirstDataBlock + k) =
      ((List.range' k fuel).find? fun i => !bitmap.getBit i).map
        (group * geo.blocksPerGroup + geo.sFirstDataBlock + ·) := by
  induction fuel generalizing k with
  | zero => rfl
  | succ fuel ih =>
    have bit := bitOfBlock geo group
      (group * geo.blocksPerGroup + geo.sFirstDataBlock + k) (by omega) (by omega)
    rw [Nat.add_sub_cancel_left] at bit
    unfold scanBlocks
    dsimp only
    rw [bit, if_neg (show ¬ geo.blocksPerGroup ≤ k by omega), List.range'_succ, List.find?_cons]
    cases free : bitmap.getBit k with
    | true => exact ih (k := k + 1) (by omega) (by omega)
    | false => rfl

include first in
theorem allocBlockFromFlat (start : Nat) (gs : List Nat) {s t : FsInfo}
    (coherent : Coherent geo s) (current : Current geo s) (stands : Stands geo s flat) {r}
    (ran : Ext2.allocBlockFrom geo start gs s = (r, t)) :
    Answered geo flat s (flat.allocBlockFrom geo start gs) r t ∧ Current geo t := by
  induction gs generalizing s with
  | nil =>
    cases ran
    exact ⟨.inl ⟨rfl, stands⟩, current⟩
  | cons g gs ih =>
    unfold Ext2.allocBlockFrom at ran
    unfold FlatArray.allocBlockFrom
    dsimp only at ran ⊢
    rw [getBind, ← stands.bgFree] at ran
    by_cases full : flat.bgFree .block ((start + g) % geo.numGroups) = 0
    · rw [if_pos full] at ran ⊢
      exact ih coherent current stands ran
    rw [if_neg full] at ran ⊢
    generalize (start + g) % geo.numGroups = group at ran ⊢
    rcases load : ext2LoadGroupBitmaps geo group s with ⟨_ | _, m⟩
    · obtain ⟨_, current', stands', _, fails, _⟩ := loadStands sound first group coherent current
        stands load
      rw [bindFails load] at ran
      cases ran
      refine ⟨?_, current'⟩
      rcases fails rfl with unsure | unreal
      · exact .inr ⟨unsure, rfl, stands'⟩
      · rw [if_pos unreal]
        exact .inl ⟨rfl, stands'⟩
    · obtain ⟨coherent', current', stands', sure, _, loaded⟩ := loadStands sound first group
        coherent current stands load
      obtain ⟨resident, real⟩ := loaded rfl
      obtain ⟨bounded, small, base, last⟩ := spanBounds sound real
      rw [if_neg (not_not.mpr real)]
      rw [bindOf load, getBind, base, last] at ran
      have scanned := scanFind group (m.bitmap .block)
        (show 0 + geo.span group ≤ geo.blocksPerGroup by omega) (by omega)
      have sameFree : (List.range (geo.span group)).find? (fun i => !(m.bitmap .block).getBit i) =
          flat.firstFree .block group (geo.span group) := by
        refine List.find?_congr fun i member => ?_
        have low := List.mem_range.mp member
        rw [stands'.bits .block group i real
          (bitSmall sound .block (Nat.lt_of_lt_of_le low bounded)), imageResident resident]
      rw [← List.range_eq_range', sameFree] at scanned
      replace scanned : scanBlocks geo group (m.bitmap .block) (geo.span group)
        (group * geo.blocksPerGroup + geo.sFirstDataBlock) = _ := scanned
      rw [show min ((group + 1) * geo.blocksPerGroup) (geo.sBlocksCount - geo.sRBlocksCount) -
        (group * geo.blocksPerGroup + geo.sFirstDataBlock) = geo.span group from rfl,
        scanned] at ran
      cases free : flat.firstFree .block group (geo.span group) with
      | none =>
        rw [free] at ran
        obtain ⟨answered, current''⟩ := ih coherent' current' stands' ran
        exact ⟨answered.after sure, current''⟩
      | some i =>
        rw [free] at ran
        have low := List.mem_range.mp (List.mem_of_find?_eq_some free)
        have clear : (m.bitmap .block).getBit i = false := by
          simpa using List.find?_some (sameFree.trans free)
        have bit := bitOfBlock geo group
          (group * geo.blocksPerGroup + geo.sFirstDataBlock + i) (by omega) (by omega)
        rw [Nat.add_sub_cancel_left] at bit
        rw [Option.map_some] at ran
        dsimp only at ran
        rw [modifyBind, pureRun, bit] at ran
        cases ran
        obtain ⟨_, marks⟩ := claimMarks coherent' resident clear
        exact ⟨.inl ⟨rfl, stands'.turned marks rfl⟩, dirtyCurrent rfl rfl resident⟩

include first in
theorem freeBlockFlat (block : Nat) {s t : FsInfo} (coherent : Coherent geo s)
    (current : Current geo s) (stands : Stands geo s flat) {r}
    (ran : ext2FreeBlock geo block s = (r, t)) :
    Answered geo flat s (flat.freeBlock geo block) r t ∧ Current geo t := by
  unfold ext2FreeBlock at ran
  unfold FlatArray.freeBlock
  dsimp only at ran ⊢
  generalize place : ext2BitOfBlock geo (block / geo.blocksPerGroup) block = i at ran ⊢
  by_cases outside : geo.sBlocksCount ≤ block
  · rw [if_pos outside] at ran
    cases ran
    rw [if_neg (by omega)]
    exact ⟨.inl ⟨rfl, stands⟩, current⟩
  rw [if_neg outside] at ran
  have positive : 0 < geo.blocksPerGroup := sound.perGroupPos .block
  have counted : block / geo.blocksPerGroup < geo.numGroups := by
    have below := Nat.div_mul_le_self block geo.blocksPerGroup
    rw [sound.numGroups, Nat.lt_iff_add_one_le, Nat.le_div_iff_mul_le positive, Nat.succ_mul]
    omega
  by_cases edge : geo.blocksPerGroup ≤ i
  · rw [if_pos (.inr edge)] at ran
    cases ran
    rw [if_neg (by omega)]
    exact ⟨.inl ⟨rfl, stands⟩, current⟩
  rw [if_neg (by omega)] at ran
  have notEdge : geo.sFirstDataBlock = 0 ∨ ¬ geo.blocksPerGroup ∣ block := by
    by_contra off
    rw [not_or, not_not] at off
    have low := sound.firstDataBlock
    exact edge (place ▸ freeEdge sound (by omega) (by omega) off.2)
  obtain ⟨low, placed, small⟩ := freePlace sound (by omega) notEdge
  have real := (placeReal sound low (by omega)).1
  rw [placed] at real
  rw [place] at small
  generalize block / geo.blocksPerGroup = group at ran real ⊢
  dsimp only at real
  rcases load : ext2LoadGroupBitmaps geo group s with ⟨_ | _, m⟩
  · obtain ⟨_, current', stands', _, fails, _⟩ := loadStands sound first group coherent current
      stands load
    rw [bindFails load] at ran
    cases ran
    exact ⟨.inr ⟨(fails rfl).resolve_right (not_not.mpr real), rfl, stands'⟩, current'⟩
  obtain ⟨coherent', current', stands', _, _, loaded⟩ := loadStands sound first group
    coherent current stands load
  have resident := (loaded rfl).1
  have bit := stands'.bits .block group i real (bitSmall sound .block small)
  rw [imageResident resident] at bit
  rw [bindOf load, getBind, ← bit] at ran
  by_cases used : flat.bit .block group i = true
  · rw [if_pos used] at ran
    rw [if_pos ⟨by omega, by omega, used⟩]
    cases ran
    obtain ⟨_, marks⟩ := releaseMarks coherent' resident (bit.symm.trans used)
    exact ⟨.inl ⟨rfl, stands'.turned marks rfl⟩, dirtyCurrent rfl rfl resident⟩
  · rw [if_neg used] at ran
    rw [if_neg fun h => used h.2.2]
    cases ran
    exact ⟨.inl ⟨rfl, stands'⟩, current'⟩

/-! The inode calls also read and write the inode table. -/

theorem writeInodeSure {ino : Nat} (positive : 0 < ino) (known : ino ≤ geo.sInodesCount)
    (stored : geo.Stored ino) (inode : Inode) {s : FsInfo} (ready : Ready geo s) :
    Sure (Ready geo) (ext2WriteInode geo ino inode) s := by
  obtain ⟨group, table, block⟩ := stored
  unfold ext2WriteInode
  rw [if_neg (by omega), if_neg (by omega), if_neg table]
  refine sureBind (readSure sound ready block _) fun buf m _ ready' => ?_
  exact writeSure sound ready' block _

omit sound in
theorem outsideRead {b : Nat} (outside : geo.sBlocksCount ≤ b) (buf : Buf) (s : FsInfo) :
    ext2ReadBlock geo b buf s = (none, s) := by
  unfold ext2ReadBlock
  rw [if_pos outside]
  rfl

omit sound in
theorem notStored {ino : Nat} (off : ¬ geo.Stored ino) (inode : Inode) (s : FsInfo) :
    ext2ReadInode geo ino s = (none, s) ∧ ext2WriteInode geo ino inode s = (none, s) := by
  unfold ext2ReadInode ext2WriteInode
  split
  · exact ⟨rfl, rfl⟩
  split
  · exact ⟨rfl, rfl⟩
  split
  · exact ⟨rfl, rfl⟩
  have outside : geo.sBlocksCount ≤ geo.inodeBlock ino := by
    by_contra inside
    exact off ⟨by omega, by assumption, by omega⟩
  have fails := outsideRead outside Buf.zero s
  exact ⟨bindFails fails _, bindFails fails _⟩

omit sound in
theorem addUsedDirsFlags (mode group n : Nat) (s : FsInfo) :
    (addUsedDirs mode group n s).gdtDirty = s.gdtDirty ∧
      (addUsedDirs mode group n s).sbDirty = s.sbDirty ∧
      (addUsedDirs mode group n s).dev = s.dev := by
  unfold addUsedDirs
  split <;> exact ⟨rfl, rfl, rfl⟩

theorem writeInodeStands (ino : Nat) (inode : Inode) {s t : FsInfo} (coherent : Coherent geo s)
    (stands : Stands geo s flat) {r} (ran : ext2WriteInode geo ino inode s = (r, t)) :
    Coherent geo t ∧ Stands geo t flat ∧ t = { s with dev := t.dev } := by
  obtain ⟨coherent', same, _⟩ := leavesOf (writeInodeKeeping sound ino inode s) ran coherent
  obtain ⟨d, left⟩ := writeInodeDev geo ino inode s
  rw [ran] at left
  replace left : t = { s with dev := d } := left
  subst left
  exact ⟨coherent', stands.same same rfl, rfl⟩

theorem claimInodeFlat {mode now group i ino : Nat} {s t : FsInfo} (coherent : Coherent geo s)
    (stands : Stands geo s flat) (fits : flat.Fits geo)
    (resident : s.bitmapGroup = some group) (small : i < 8 * geo.blockSize)
    (free : flat.bit .inode group i = false) (positive : 0 < ino)
    (known : ino ≤ geo.sInodesCount) {r} (ran : claimInode geo mode now group i ino s = (r, t)) :
    Answered geo flat s (if geo.Stored ino then
      (some ino, (flat.turn .inode group i true).countDir mode group 1) else (none, flat)) r t ∧
      Current geo t := by
  obtain ⟨inside, real⟩ := coherent.resident group resident
  unfold claimInode at ran
  rw [modifyBind, modifyBind, bindOf (attemptRun _ _)] at ran
  have clear : (s.bitmap .inode).getBit i = false := by
    rw [← imageResident resident, ← stands.bits .inode group i real small, free]
  obtain ⟨claimed, marks⟩ := claimMarks coherent resident clear
  have standsClaimed := (stands.turned marks rfl).countDir mode group 1
  have counted := (addUsedDirsKeeping mode group 1 geo.Metadata _ claimed).1
  obtain ⟨gdtDirty, sbDirty, sameDev⟩ := addUsedDirsFlags mode group 1 (claim .inode group i s)
  obtain ⟨sameGroup, sameBitmap⟩ := addUsedDirsResident mode group 1 (claim .inode group i s)
  generalize addUsedDirs mode group 1 (claim .inode group i s) = m at *
  have residentM : m.bitmapGroup = some group := sameGroup.trans resident
  rcases wrote : ext2WriteInode geo ino (newInode mode now) m with ⟨_ | _, w⟩
  · obtain ⟨coherentW, standsW, left⟩ := writeInodeStands sound ino _ counted standsClaimed wrote
    rw [wrote] at ran
    cases ran
    have residentW : w.bitmapGroup = some group := left ▸ residentM
    have usedW : (w.bitmap .inode).getBit i = true := by
      rw [left]
      show (m.bitmap .inode).getBit i = true
      rw [sameBitmap]
      simp [claim, setCount, setDirty, Buf.getBitSet]
    obtain ⟨_, undo⟩ := releaseMarks coherentW residentW usedW
    have back := (standsW.turned undo rfl).countDir mode group (2 ^ 16 - 1)
    rw [FlatArray.undone fits inside free mode] at back
    obtain ⟨gdtAfter, sbAfter, _⟩ := addUsedDirsFlags mode group (2 ^ 16 - 1)
      (release .inode group i w)
    have groupAfter := (addUsedDirsResident mode group (2 ^ 16 - 1) (release .inode group i w)).1
    refine ⟨?_, dirtyCurrent gdtAfter sbAfter (groupAfter.trans residentW)⟩
    by_cases stored : geo.Stored ino
    · rw [if_pos stored]
      refine .inr ⟨fun reliable => ?_, rfl, back⟩
      have ready : Ready geo m := by
        refine ⟨sameDev ▸ reliable, fun group' resident' => ?_⟩
        cases residentM.symm.trans resident'
        exact real
      have done := (writeInodeSure sound positive known stored (newInode mode now) ready).1
      rw [wrote] at done
      exact absurd done (by simp)
    · rw [if_neg stored]
      exact .inl ⟨rfl, back⟩
  · obtain ⟨_, standsW, left⟩ := writeInodeStands sound ino _ counted standsClaimed wrote
    rw [wrote] at ran
    cases ran
    by_cases stored : geo.Stored ino
    · rw [if_pos stored]
      refine ⟨.inl ⟨rfl, standsW⟩, ?_⟩
      rw [left]
      exact dirtyCurrent gdtDirty sbDirty residentM
    · rw [(notStored stored _ m).2] at wrote
      cases wrote

include first in
theorem allocInodeFromFlat (mode now start : Nat) (gs : List Nat) {s t : FsInfo}
    (coherent : Coherent geo s) (current : Current geo s) (stands : Stands geo s flat)
    (fits : flat.Fits geo) {r}
    (ran : Ext2.allocInodeFrom geo mode now start gs s = (r, t)) :
    Answered geo flat s (flat.allocInodeFrom geo mode start gs) r t ∧ Current geo t := by
  induction gs generalizing s with
  | nil =>
    cases ran
    exact ⟨.inl ⟨rfl, stands⟩, current⟩
  | cons g gs ih =>
    unfold Ext2.allocInodeFrom at ran
    unfold FlatArray.allocInodeFrom
    dsimp only at ran ⊢
    rw [getBind, ← stands.bgFree] at ran
    by_cases full : flat.bgFree .inode ((start + g) % geo.numGroups) = 0
    · rw [if_pos full] at ran ⊢
      exact ih coherent current stands ran
    rw [if_neg full] at ran ⊢
    generalize (start + g) % geo.numGroups = group at ran ⊢
    rcases load : ext2LoadGroupBitmaps geo group s with ⟨_ | _, m⟩
    · obtain ⟨_, current', stands', _, fails, _⟩ := loadStands sound first group coherent current
        stands load
      rw [bindFails load] at ran
      cases ran
      refine ⟨?_, current'⟩
      rcases fails rfl with unsure | unreal
      · exact .inr ⟨unsure, rfl, stands'⟩
      · rw [if_pos unreal]
        exact .inl ⟨rfl, stands'⟩
    obtain ⟨coherent', current', stands', sure, _, loaded⟩ := loadStands sound first group
      coherent current stands load
    obtain ⟨resident, real⟩ := loaded rfl
    rw [if_neg (not_not.mpr real)]
    rw [bindOf load, getBind] at ran
    have sameFree : (List.range geo.inodesPerGroup).find? (fun i => !(m.bitmap .inode).getBit i) =
        flat.firstFree .inode group geo.inodesPerGroup := by
      refine List.find?_congr fun i member => ?_
      rw [stands'.bits .inode group i real (bitSmall sound .inode (List.mem_range.mp member)),
        imageResident resident]
    rw [sameFree] at ran
    cases free : flat.firstFree .inode group geo.inodesPerGroup with
    | none =>
      rw [free] at ran
      obtain ⟨answered, current''⟩ := ih coherent' current' stands' ran
      exact ⟨answered.after sure, current''⟩
    | some i =>
      rw [free] at ran
      have low := List.mem_range.mp (List.mem_of_find?_eq_some free)
      have clear : flat.bit .inode group i = false := by
        simpa using List.find?_some free
      obtain ⟨noWrap, -, -⟩ := inodePlace sound (sound.realInside real) low
      dsimp only at ran ⊢
      rw [noWrap] at ran
      have positive : 0 < group * geo.inodesPerGroup + i + 1 := Nat.succ_pos _
      generalize group * geo.inodesPerGroup + i + 1 = ino at ran positive ⊢
      split at ran
      · cases ran
        rw [if_neg (by omega)]
        exact ⟨.inl ⟨rfl, stands'⟩, current'⟩
      · have known : ino ≤ geo.sInodesCount := by omega
        obtain ⟨answered, current''⟩ := claimInodeFlat sound coherent' stands' fits resident
          (bitSmall sound .inode low) clear positive known ran
        rw [if_congr (and_iff_right known) rfl rfl]
        exact ⟨answered.after sure, current''⟩

theorem readInodeFlat (ino : Nat) {s t : FsInfo} (coherent : Coherent geo s)
    (current : Current geo s) (stands : Stands geo s flat) {r}
    (ran : ext2ReadInode geo ino s = (r, t)) :
    Coherent geo t ∧ Current geo t ∧ Stands geo t flat ∧
      (s.dev.Reliable → t.dev.Reliable) ∧
      (r = none → 1 ≤ ino → ino ≤ geo.sInodesCount → geo.Stored ino → ¬ s.dev.Reliable) := by
  unfold ext2ReadInode at ran
  split at ran
  · cases ran
    exact ⟨coherent, current, stands, id, fun _ low high => by omega⟩
  split at ran
  · cases ran
    exact ⟨coherent, current, stands, id, fun _ _ _ stored => by have := stored.1; omega⟩
  split at ran
  · rename_i missing
    cases ran
    exact ⟨coherent, current, stands, id, fun _ _ _ stored => absurd missing stored.2.1⟩
  have after {d : Device} (writes : ∀ A, WritesBlocks geo A s.dev d) :
      Coherent geo { s with dev := d } ∧ Current geo { s with dev := d } ∧
        Stands geo { s with dev := d } flat ∧ (s.dev.Reliable → d.Reliable) := by
    have nothing := writes fun _ => False
    obtain ⟨coherent', same⟩ := writeApart sound coherent nothing fun _ _ _ => id
    exact ⟨coherent', currentApart sound current nothing (fun _ _ => id) id,
      stands.same same rfl, nothing.reliable⟩
  rcases readBlockCases sound (geo.inodeBlock ino) Buf.zero coherent.unbroken with
    ⟨d, read, writes, outside⟩ | ⟨d, read, writes, _⟩
  · rw [bindFails read] at ran
    cases ran
    obtain ⟨coherent', current', stands', sure⟩ := after writes
    refine ⟨coherent', current', stands', sure, fun _ _ _ stored reliable => ?_⟩
    exact absurd stored.2.2 (Nat.not_lt.mpr (outside reliable))
  · rw [bindOf read] at ran
    cases ran
    obtain ⟨coherent', current', stands', sure⟩ := after writes
    exact ⟨coherent', current', stands', sure, nofun⟩

include first in
theorem freeInodeFlat (ino now : Nat) {s t : FsInfo} (coherent : Coherent geo s)
    (current : Current geo s) (stands : Stands geo s flat) {r}
    (ran : ext2FreeInode geo ino now s = (r, t)) :
    (Answered geo flat s (flat.freeInode geo (inodeAt geo s ino).iMode ino) r t ∨
      (¬ s.dev.Reliable ∧ r = none ∧
        Stands geo t (flat.freeInode geo (inodeAt geo s ino).iMode ino).2)) ∧ Current geo t := by
  unfold ext2FreeInode at ran
  unfold FlatArray.freeInode
  dsimp only at ran ⊢
  by_cases outside : ino < 1 ∨ geo.sInodesCount < ino
  · rw [if_pos outside] at ran
    cases ran
    rw [if_neg (by omega)]
    exact ⟨.inl (.inl ⟨rfl, stands⟩), current⟩
  rw [if_neg outside] at ran
  by_cases stored : geo.Stored ino
  swap
  · rw [bindFails (notStored stored Buf.zero s).1] at ran
    cases ran
    rw [if_neg fun h => stored h.2.2.1]
    exact ⟨.inl (.inl ⟨rfl, stands⟩), current⟩
  rcases read : ext2ReadInode geo ino s with ⟨_ | inode, m⟩
  · obtain ⟨_, current', stands', _, fails⟩ := readInodeFlat sound ino coherent current stands read
    rw [bindFails read] at ran
    cases ran
    exact ⟨.inl (.inr ⟨fails rfl (by omega) (by omega) stored, rfl, stands'⟩), current'⟩
  obtain ⟨coherent', current', stands', sure, _⟩ :=
    readInodeFlat sound ino coherent current stands read
  have mode : inode = inodeAt geo s ino := readInodeSome sound coherent read
  rw [bindOf read] at ran
  have positive : 0 < ino := by omega
  have known : ino ≤ geo.sInodesCount := by omega
  have valid := inodeValid sound positive known
  obtain ⟨real, small⟩ := validReal sound stored.1 valid
  rcases load : ext2LoadGroupBitmaps geo (geo.inodeGroup ino) m with ⟨_ | _, n⟩
  · obtain ⟨_, current'', stands'', _, fails, _⟩ := loadStands sound first _ coherent' current'
      stands' load
    rw [bindFails load] at ran
    cases ran
    refine ⟨.inl (.inr ⟨fun reliable => ?_, rfl, stands''⟩), current''⟩
    exact (fails rfl).resolve_right (not_not.mpr real) (sure reliable)
  obtain ⟨coherent'', current'', stands'', sure', _, loaded⟩ := loadStands sound first _ coherent'
    current' stands' load
  have resident := (loaded rfl).1
  have bit := stands''.bits .inode (geo.inodeGroup ino) (geo.inodeIndex ino) real small
  rw [imageResident resident] at bit
  rw [bindOf load, getBind, ← bit] at ran
  by_cases used : flat.bit .inode (geo.inodeGroup ino) (geo.inodeIndex ino) = true
  swap
  · rw [if_neg used] at ran
    rw [if_neg fun h => used h.2.2.2]
    cases ran
    exact ⟨.inl (.inl ⟨rfl, stands''⟩), current''⟩
  rw [if_pos used, modifyBind, modifyBind] at ran
  rw [if_pos ⟨by omega, by omega, stored, used⟩, ← mode]
  obtain ⟨released, marks⟩ := releaseMarks coherent'' resident (bit.symm.trans used)
  have freed := (stands''.turned marks rfl).countDir inode.iMode (geo.inodeGroup ino) (2 ^ 16 - 1)
  have counted := (addUsedDirsKeeping inode.iMode (geo.inodeGroup ino) (2 ^ 16 - 1)
    geo.Metadata _ released).1
  obtain ⟨gdtDirty, sbDirty, sameDev⟩ := addUsedDirsFlags inode.iMode (geo.inodeGroup ino)
    (2 ^ 16 - 1) (release .inode (geo.inodeGroup ino) (geo.inodeIndex ino) n)
  have sameGroup := (addUsedDirsResident inode.iMode (geo.inodeGroup ino) (2 ^ 16 - 1)
    (release .inode (geo.inodeGroup ino) (geo.inodeIndex ino) n)).1
  generalize addUsedDirs inode.iMode (geo.inodeGroup ino) (2 ^ 16 - 1)
    (release .inode (geo.inodeGroup ino) (geo.inodeIndex ino) n) = p at *
  have residentP : p.bitmapGroup = some (geo.inodeGroup ino) := sameGroup.trans resident
  obtain ⟨_, standsT, left⟩ := writeInodeStands sound ino _ counted freed ran
  have current₃ : Current geo t := by
    rw [left]
    exact dirtyCurrent gdtDirty sbDirty residentP
  refine ⟨?_, current₃⟩
  cases r with
  | some _ => exact .inl (.inl ⟨rfl, standsT⟩)
  | none =>
    refine .inr ⟨fun reliable => ?_, rfl, standsT⟩
    have ready : Ready geo p := by
      refine ⟨sameDev ▸ sure' (sure reliable), fun group' resident' => ?_⟩
      cases residentP.symm.trans resident'
      exact real
    have done := (writeInodeSure sound positive known stored (Buf.zero.setU32 20 now) ready).1
    rw [ran] at done
    exact absurd done nofun

end calls

/-! ## Runs -/

def standing (geo : Geometry) (fs : FsInfo) : FlatArray where
  bit := fun kind group i => (image geo fs kind group).getBit i
  bgFree := fs.bgFree
  bgUsedDirs := fs.bgUsedDirs
  sFree := fs.sFree

theorem standsStanding (geo : Geometry) (fs : FsInfo) : Stands geo fs (standing geo fs) :=
  ⟨fun _ _ _ _ _ => rfl, rfl, rfl, rfl⟩

structure JustMounted (geo : Geometry) (fs : FsInfo) : Prop where
  noneResident : fs.bitmapGroup = none
  gdtClean : fs.gdtDirty = false
  sbClean : fs.sbDirty = false
  gdt : GdtOnDisk geo fs
  super : SuperOnDisk geo fs
  fits : (standing geo fs).Fits geo

structure Resting (geo : Geometry) (fs : FsInfo) : Prop where
  coherent : Coherent geo (fs.facing [])
  current : Current geo fs
  fits : (standing geo fs).Fits geo

theorem mountedResting {fs : FsInfo} (mounted : JustMounted geo fs) : Resting geo fs where
  coherent :=
    { unbroken := noneShortNil
      resident := fun _ resident => absurd (mounted.noneResident.symm.trans resident) nofun
      clean := fun _ _ resident => absurd (mounted.noneResident.symm.trans resident) nofun }
  current := ⟨fun _ => mounted.gdt, fun _ => mounted.super,
    fun _ => ⟨mounted.gdtClean, mounted.sbClean⟩⟩
  fits := mounted.fits

theorem FlatArray.Fits.congr {other : FlatArray} (fits : flat.Fits geo)
    (bgFree : other.bgFree = flat.bgFree) (bgUsedDirs : other.bgUsedDirs = flat.bgUsedDirs)
    (sFree : other.sFree = flat.sFree) : other.Fits geo where
  bgFree := bgFree ▸ fits.bgFree
  bgUsedDirs := bgUsedDirs ▸ fits.bgUsedDirs
  sFree := sFree ▸ fits.sFree

theorem Stands.fits {fs : FsInfo} (stands : Stands geo fs flat) (fits : flat.Fits geo) :
    (standing geo fs).Fits geo :=
  fits.congr stands.bgFree.symm stands.bgUsedDirs.symm stands.sFree.symm

namespace FlatArray

theorem Fits.turn (fits : flat.Fits geo) (kind : Kind) (group i : Nat) (v : Bool) :
    (flat.turn kind group i v).Fits geo where
  bgFree kind' group' inside := by
    dsimp only [FlatArray.turn]
    rw [Function.update_apply]
    split
    · rw [Function.update_apply]
      split
      · exact Nat.mod_lt _ (by decide)
      · exact fits.bgFree kind group' inside
    · exact fits.bgFree kind' group' inside
  bgUsedDirs := fits.bgUsedDirs
  sFree kind' := by
    dsimp only [FlatArray.turn]
    rw [Function.update_apply]
    split
    · exact Nat.mod_lt _ (by decide)
    · exact fits.sFree kind'

theorem Fits.countDir (fits : flat.Fits geo) (mode group by_ : Nat) :
    (flat.countDir mode group by_).Fits geo := by
  unfold FlatArray.countDir
  split
  · refine ⟨fits.bgFree, fun group' inside => ?_, fits.sFree⟩
    dsimp only
    rw [Function.update_apply]
    split
    · exact Nat.mod_lt _ (by decide)
    · exact fits.bgUsedDirs group' inside
  · exact fits

theorem Fits.allocBlockFrom (fits : flat.Fits geo) (start : Nat) (gs : List Nat) :
    (flat.allocBlockFrom geo start gs).2.Fits geo := by
  induction gs with
  | nil => exact fits
  | cons g gs ih =>
    unfold FlatArray.allocBlockFrom
    dsimp only
    split
    · exact ih
    split
    · exact fits
    split
    · exact ih
    · exact fits.turn ..

theorem Fits.freeBlock (fits : flat.Fits geo) (block : Nat) :
    (flat.freeBlock geo block).2.Fits geo := by
  unfold FlatArray.freeBlock
  dsimp only
  split
  · exact fits.turn ..
  · exact fits

theorem Fits.allocInodeFrom (fits : flat.Fits geo) (mode start : Nat) (gs : List Nat) :
    (flat.allocInodeFrom geo mode start gs).2.Fits geo := by
  induction gs with
  | nil => exact fits
  | cons g gs ih =>
    unfold FlatArray.allocInodeFrom
    dsimp only
    split
    · exact ih
    split
    · exact fits
    split
    · exact ih
    split
    · exact (fits.turn ..).countDir ..
    · exact fits

theorem Fits.freeInode (fits : flat.Fits geo) (mode ino : Nat) :
    (flat.freeInode geo mode ino).2.Fits geo := by
  unfold FlatArray.freeInode
  dsimp only
  split
  · exact (fits.turn ..).countDir ..
  · exact fits

end FlatArray

theorem Answered.fits {α : Type} {s t : FsInfo} {want : Option α × FlatArray} {r : Option α}
    (answered : Answered geo flat s want r t) (fits : flat.Fits geo) (after : want.2.Fits geo) :
    (standing geo t).Fits geo := by
  rcases answered with ⟨_, stands⟩ | ⟨_, _, stands⟩
  · exact stands.fits after
  · exact stands.fits fits

theorem refusedOf {fs : FsInfo} {coming : List Transfer} (noneShort : NoneShort coming)
    (unsure : ¬ (fs.facing coming).dev.Reliable) : Transfer.refused ∈ coming := by
  by_contra absent
  refine unsure fun t member => (noneShort t member).resolve_right fun refused => absent ?_
  exact refused ▸ member

theorem Answered.answers {α : Type} {fs t : FsInfo} {coming : List Transfer}
    {want : Option α × FlatArray} {r : Option α} (noneShort : NoneShort coming)
    (answered : Answered geo flat (fs.facing coming) want r t) :
    Answers geo flat coming want (r, t) := by
  rcases answered with same | ⟨unsure, rest⟩
  · exact .inl same
  · exact .inr ⟨refusedOf noneShort unsure, rest⟩

section runs

variable (sound : geo.Sound) (first : geo.SuperFirst)
include sound first

theorem callFaithful (call : Call) {fs : FsInfo} {coming : List Transfer}
    (resting : Resting geo fs) (noneShort : NoneShort coming) (stands : Stands geo fs flat) :
    Faithful geo fs flat coming call ∧
      Coherent geo (call.leave geo (fs.facing coming)) ∧
      Current geo (call.leave geo (fs.facing coming)) ∧
      (standing geo (call.leave geo (fs.facing coming))).Fits geo := by
  have coherent : Coherent geo (fs.facing coming) := facingAnew resting.coherent noneShort
  have current : Current geo (fs.facing coming) :=
    ⟨resting.current.gdt, resting.current.super, resting.current.flushed⟩
  have standsF : Stands geo (fs.facing coming) flat :=
    ⟨stands.bits, stands.bgFree, stands.bgUsedDirs, stands.sFree⟩
  have fits : flat.Fits geo := resting.fits.congr stands.bgFree stands.bgUsedDirs stands.sFree
  cases call with
  | allocBlock ino =>
    dsimp only [Faithful, Call.leave]
    rcases ran : ext2AllocBlock geo ino (fs.facing coming) with ⟨r, t⟩
    obtain ⟨answered, current'⟩ := allocBlockFromFlat sound first _ _ coherent current standsF ran
    exact ⟨answered.answers noneShort, (allocBlockCases sound coherent ran).1, current',
      answered.fits fits (fits.allocBlockFrom ..)⟩
  | freeBlock block =>
    dsimp only [Faithful, Call.leave]
    rcases ran : ext2FreeBlock geo block (fs.facing coming) with ⟨r, t⟩
    obtain ⟨answered, current'⟩ := freeBlockFlat sound first block coherent current standsF ran
    exact ⟨answered.answers noneShort, (freeBlockCases sound coherent ran).1, current',
      answered.fits fits (fits.freeBlock ..)⟩
  | allocInode mode now prefGroup =>
    dsimp only [Faithful, Call.leave]
    rcases ran : ext2AllocInode geo mode now prefGroup (fs.facing coming) with ⟨r, t⟩
    obtain ⟨answered, current'⟩ :=
      allocInodeFromFlat sound first mode now _ _ coherent current standsF fits ran
    have fields : Ext2.Fits geo (fs.facing coming) := by
      refine ⟨fun kind group inside => ?_, fun kind => ?_⟩
      · exact standsF.bgFree ▸ fits.bgFree kind group inside
      · exact standsF.sFree ▸ fits.sFree kind
    have coherent' := (allocInodeFromCases sound mode now _ _ coherent fields ran).1
    exact ⟨answered.answers noneShort, coherent', current',
      answered.fits fits (fits.allocInodeFrom ..)⟩
  | freeInode ino now =>
    dsimp only [Faithful, Call.leave]
    rcases ran : ext2FreeInode geo ino now (fs.facing coming) with ⟨r, t⟩
    obtain ⟨answered, current'⟩ := freeInodeFlat sound first ino now coherent current standsF ran
    have coherent' := (freeInodeCases sound coherent ran).1
    have freed := fits.freeInode (inodeAt geo fs ino).iMode ino
    rcases answered with answered | ⟨unsure, failed, gone⟩
    · exact ⟨.inl (answered.answers noneShort), coherent', current', answered.fits fits freed⟩
    · exact ⟨.inr ⟨refusedOf noneShort unsure, failed, gone⟩, coherent', current', gone.fits freed⟩
  | loadGroup group =>
    dsimp only [Faithful, Call.leave]
    rcases ran : ext2LoadGroupBitmaps geo group (fs.facing coming) with ⟨r, t⟩
    obtain ⟨coherent', current', stands', _⟩ :=
      loadStands sound first group coherent current standsF ran
    exact ⟨stands', coherent', current', stands'.fits fits⟩
  | sync =>
    dsimp only [Faithful, Call.leave]
    obtain ⟨settles, _⟩ := syncSettles sound first coherent current
    have same := ((syncLeaves sound _ coherent).1.1 coherent).2.1
    have stands' := standsF.same same settles.usedDirs
    exact ⟨⟨stands', syncWrites sound first coherent current⟩, settles.coherent, settles.current,
      stands'.fits fits⟩

theorem runResting {fs₀ fs : FsInfo} (mounted : JustMounted geo fs₀)
    {calls : List (Call × List Transfer)}
    (noneShort : Run.Meets (step geo) (fun _ a => NoneShort a.2) fs₀ calls)
    (ran : Run.run (step geo) fs₀ calls = some fs) : Resting geo fs := by
  refine Run.invariantMeets ?_ (mountedResting mounted) noneShort ran
  rintro s ⟨call, coming⟩ t resting short stepped
  cases stepped
  obtain ⟨_, coherent, current, fits⟩ :=
    callFaithful sound first call resting short (standsStanding geo s)
  exact ⟨facingAnew coherent noneShortNil, current, fits⟩

theorem unmountKeeps {fs : FsInfo} (resting : Resting geo fs) {coming : List Transfer}
    (noneShort : NoneShort coming) (rest : Buf)
    (done : (ext2SyncBitmaps geo (fs.facing coming)).1 = some ()) :
    BitmapsOnDisk geo (ext2Unmount geo rest (fs.facing coming)).2 ∧
      GdtOnDisk geo (ext2Unmount geo rest (fs.facing coming)).2 := by
  have coherent : Coherent geo (fs.facing coming) := facingAnew resting.coherent noneShort
  have current : Current geo (fs.facing coming) :=
    ⟨resting.current.gdt, resting.current.super, resting.current.flushed⟩
  obtain ⟨bitmaps, gdt, _⟩ := syncWrites sound first coherent current done
  obtain ⟨settles, _⟩ := syncSettles sound first coherent current
  show BitmapsOnDisk geo (ext2SyncSuper { geo with sRest := rest } _).2 ∧
    GdtOnDisk geo (ext2SyncSuper { geo with sRest := rest } _).2
  generalize (ext2SyncBitmaps geo (fs.facing coming)).2 = m at *
  obtain ⟨d, left, writes, _⟩ := syncSuperCases sound rest settles.coherent.unbroken
  rw [left]
  have super (b : Nat) (off : b ≠ geo.superBlock) : blockAt geo d b = blockAt geo m.dev b :=
    blockKept sound writes off
  refine ⟨fun kind group real o small => ?_, fun i low => ?_⟩
  · have kept := super _ (sound.superApart kind group real)
    have before := bitmaps kind group real o small
    unfold image at before ⊢
    rw [kept]
    exact before
  · exact gdtBlockKept sound writes (superBelow sound first i) (gdt i low)

end runs

/-- In every state that a run of allocations, frees, loads and syncs reaches, the next
call is faithful to the flat array, and so is an unmount whose sync succeeds. -/
theorem bitmapsRefine (geo : Geometry) (sound : geo.Sound) (first : geo.SuperFirst)
    (fs₀ fs : FsInfo) (mounted : JustMounted geo fs₀) (calls : List (Call × List Transfer))
    (noneShort : Run.Meets (step geo) (fun _ a => NoneShort a.2) fs₀ calls)
    (ran : Run.run (step geo) fs₀ calls = some fs) (coming : List Transfer)
    (nextShort : NoneShort coming) :
    (∀ flat, Stands geo fs flat → ∀ call, Faithful geo fs flat coming call) ∧
    ∀ rest, (ext2SyncBitmaps geo (fs.facing coming)).1 = some () →
      BitmapsOnDisk geo (ext2Unmount geo rest (fs.facing coming)).2 ∧
        GdtOnDisk geo (ext2Unmount geo rest (fs.facing coming)).2 := by
  have resting := runResting sound first mounted noneShort ran
  refine ⟨fun flat stands call => ?_, fun rest done => ?_⟩
  · exact (callFaithful sound first call resting nextShort stands).1
  · exact unmountKeeps sound first resting nextShort rest done

def writtenFs : FsInfo :=
  { fullFs with
    dev :=
      { fullFs.dev with
        sector := fun s o =>
          if s = 4 then groupDesc bootBlockGeometry fullFs (o / 32) (o % 32)
          else if s = 2 ∨ s = 3 then superBytes bootBlockGeometry fullFs ((s - 2) * 512 + o)
          else 0xFF } }

theorem bootBlockFirst : bootBlockGeometry.SuperFirst := fun _ => rfl

theorem writtenMounted : JustMounted bootBlockGeometry writtenFs where
  noneResident := rfl
  gdtClean := rfl
  sbClean := rfl
  gdt i low x small inBlock := by
    have one : i = 0 := Nat.lt_one_iff.mp low
    subst one
    have small : x < 64 := small
    have sector : 2 * 2 + x % 1024 / 512 = 4 := by omega
    have offset : x % 1024 % 512 = x := by omega
    show (if x % 1024 < 1024 then writtenFs.dev.sector (2 * 2 + x % 1024 / 512) (x % 1024 % 512)
      else 0) = _
    rw [if_pos (Nat.mod_lt _ (by decide)), sector, offset]
    rfl
  super o small := by
    have low : o / 512 = 0 ∨ o / 512 = 1 := by omega
    have at_ : (2 + o / 512 - 2) * 512 + o % 512 = o := by
      rw [Nat.add_sub_cancel_left, Nat.div_add_mod']
    simp only [writtenFs]
    rw [if_neg (by omega), if_pos (by omega), at_]
    rfl
  fits := ⟨fun _ _ _ => Nat.two_pow_pos 16, fun _ _ => Nat.two_pow_pos 16,
    fun _ => Nat.two_pow_pos 32⟩

def switchingCalls : List (Call × List Transfer) :=
  [(.freeBlock 5000, []), (.loadGroup 1, []), (.allocBlock 1, [.refused])]

theorem switchingRefines : ∃ fs,
    Run.run (step bootBlockGeometry) writtenFs switchingCalls = some fs ∧
    Faithful bootBlockGeometry fs (standing bootBlockGeometry fs) [] .sync := by
  have ends : (Run.run (step bootBlockGeometry) writtenFs switchingCalls).isSome := rfl
  have ran := (Option.some_get ends).symm
  have noneShort : Run.Meets (step bootBlockGeometry) (fun _ a => NoneShort a.2) writtenFs
      switchingCalls := by
    simp [switchingCalls, Run.Meets, NoneShort]
  refine ⟨_, ran, ?_⟩
  exact (bitmapsRefine bootBlockGeometry bootBlockSound bootBlockFirst writtenFs _ writtenMounted
    switchingCalls noneShort ran [] noneShortNil).1 _ (standsStanding ..) .sync

/-- The bitmap of the group left is written by half, and the block that was freed in the
other half is used again. -/
theorem halfWrittenBitmap : bootBlockGeometry.Sound ∧ JustMounted bootBlockGeometry writtenFs ∧
    ∃ fs, Run.run (step bootBlockGeometry) writtenFs [(.freeBlock 5000, [])] = some fs ∧
      ¬ Faithful bootBlockGeometry fs (standing bootBlockGeometry fs) [.short 0]
        (.loadGroup 1) := by
  refine ⟨bootBlockSound, writtenMounted, _, rfl, fun stands => ?_⟩
  have bit := Stands.bits stands .block 0 4999 (by decide) (by decide)
  exact absurd bit (by decide +kernel)

end Scepter.Ext2
