import Scepter.Driver.Block
import Scepter.Lib.Prog

/-! The mounted ext2 filesystem (ext2.h, ext2_super.c) and its block transfers.
What no operation changes after the mount (the superblock's geometry and the
block numbers in the group descriptors) is the `Geometry`; `FsInfo` is the
rest. A local block buffer starts as zero bytes. -/
namespace Scepter.Ext2

open Block Prog

def u16 (x : Nat) : Nat := x % 2 ^ 16

def u32 (x : Nat) : Nat := x % 2 ^ 32

def sub32 (a b : Nat) : Nat := u32 (a + (2 ^ 32 - b))

inductive Kind
  | block
  | inode
deriving DecidableEq

structure Geometry where
  blockSize : Nat
  blocksPerGroup : Nat
  inodesPerGroup : Nat
  inodeSize : Nat
  numGroups : Nat
  sBlocksCount : Nat
  sRBlocksCount : Nat
  sInodesCount : Nat
  sFirstDataBlock : Nat
  -- the other bytes of the superblock
  sRest : Buf
  -- bg_block_bitmap and bg_inode_bitmap
  bgBitmap : Kind → Nat → Nat
  bgInodeTable : Nat → Nat
  -- bg_pad and bg_reserved
  bgRest : Nat → Buf

structure FsInfo where
  bgFree : Kind → Nat → Nat
  bgUsedDirs : Nat → Nat
  sFree : Kind → Nat
  -- the one group whose bitmaps are resident
  bitmapGroup : Option Nat
  bitmap : Kind → Buf
  bitmapDirty : Kind → Bool
  gdtDirty : Bool
  sbDirty : Bool
  dev : Device

/- struct ext2_inode is overlaid on its 128 bytes. -/
abbrev Inode := Buf

namespace Inode

def iMode (inode : Inode) : Nat := inode.getU16 0
def iSize (inode : Inode) : Nat := inode.getU32 4
def iLinksCount (inode : Inode) : Nat := inode.getU16 26
def iBlocks (inode : Inode) : Nat := inode.getU32 28
def iBlock (inode : Inode) (k : Nat) : Nat := inode.getU32 (40 + 4 * k)

def setIBlock (inode : Inode) (k blk : Nat) : Inode := inode.setU32 (40 + 4 * k) blk

end Inode

namespace Geometry

variable (geo : Geometry)

def sectorsPerBlock : Nat := geo.blockSize / 512

def perGroup : Kind → Nat
  | .block => geo.blocksPerGroup
  | .inode => geo.inodesPerGroup

def gdtBytes : Nat := geo.numGroups * 32

def gdtBlocks : Nat := (geo.gdtBytes + geo.blockSize - 1) / geo.blockSize

/- The group holds at least one block of the filesystem. With a first data
block of 1 the last group the driver counts may hold none. -/
def Real (group : Nat) : Prop :=
  group * geo.blocksPerGroup + geo.sFirstDataBlock < geo.sBlocksCount

def Valid : Kind → Nat → Nat → Prop
  | .block, group, i => i < geo.blocksPerGroup ∧
      group * geo.blocksPerGroup + geo.sFirstDataBlock + i < geo.sBlocksCount
  | .inode, group, i => i < geo.inodesPerGroup ∧
      group * geo.inodesPerGroup + i < geo.sInodesCount

instance (kind : Kind) (group i : Nat) : Decidable (geo.Valid kind group i) := by
  cases kind <;> unfold Valid <;> infer_instance

def inodeGroup (ino : Nat) : Nat := (ino - 1) / geo.inodesPerGroup

def inodeIndex (ino : Nat) : Nat := (ino - 1) % geo.inodesPerGroup

def inodeBlock (ino : Nat) : Nat :=
  u32 (geo.bgInodeTable (geo.inodeGroup ino) + geo.inodeIndex ino * geo.inodeSize / geo.blockSize)

def inodeOffset (ino : Nat) : Nat := geo.inodeIndex ino * geo.inodeSize % geo.blockSize

def superBlock : Nat := 2 / geo.sectorsPerBlock

def System (b : Nat) : Prop :=
  (∃ group kind, group < geo.numGroups ∧ geo.Real group ∧ b = geo.bgBitmap kind group) ∨
    (∃ i < geo.gdtBlocks, b = geo.sFirstDataBlock + 1 + i) ∨ b = geo.superBlock

def Table (b : Nat) : Prop := ∃ ino, 0 < ino ∧ ino ≤ geo.sInodesCount ∧ b = geo.inodeBlock ino

def Metadata (b : Nat) : Prop := geo.System b ∨ geo.Table b

structure Sound : Prop where
  blockSize : geo.blockSize = 1024 ∨ geo.blockSize = 2048 ∨ geo.blockSize = 4096
  firstDataBlock : geo.sFirstDataBlock ≤ 1
  perGroupPos : ∀ kind, 0 < geo.perGroup kind
  perGroupLe : ∀ kind, geo.perGroup kind ≤ 8 * geo.blockSize
  numGroups : geo.numGroups = (geo.sBlocksCount + geo.blocksPerGroup - 1) / geo.blocksPerGroup
  blocksSmall : geo.sBlocksCount + geo.blocksPerGroup ≤ 2 ^ 32
  fitsDevice : geo.sBlocksCount * geo.sectorsPerBlock ≤ 2 ^ 32
  inodesSmall : geo.numGroups * geo.inodesPerGroup < 2 ^ 32
  reserved : geo.sRBlocksCount ≤ geo.sBlocksCount
  emptyGroup : ∀ group < geo.numGroups, ¬ geo.Real group →
    geo.bgBitmap .block group = 0 ∧ geo.sInodesCount ≤ group * geo.inodesPerGroup
  bitmapsInside : ∀ kind group, geo.Real group →
    0 < geo.bgBitmap kind group ∧ geo.bgBitmap kind group < geo.sBlocksCount
  gdtInside : geo.sFirstDataBlock + geo.gdtBlocks < geo.sBlocksCount
  bitmapsApart : ∀ kind group kind' group', geo.Real group → geo.Real group' →
    geo.bgBitmap kind group = geo.bgBitmap kind' group' → kind = kind' ∧ group = group'
  gdtApart : ∀ kind group, geo.Real group → ∀ i < geo.gdtBlocks,
    geo.bgBitmap kind group ≠ geo.sFirstDataBlock + 1 + i
  superApart : ∀ kind group, geo.Real group → geo.bgBitmap kind group ≠ geo.superBlock
  tableApart : ∀ ino, 0 < ino → ino ≤ geo.sInodesCount → ¬ geo.System (geo.inodeBlock ino)

end Geometry

def blockAt (geo : Geometry) (d : Device) (block : Nat) : Buf :=
  Buf.overlay geo.blockSize
    (fun o => d.sector (block * geo.sectorsPerBlock + o / 512) (o % 512)) Buf.zero

def onDev {α : Type} (f : Device → Option α × Device) : Prog FsInfo α :=
  fun fs => ((f fs.dev).1, { fs with dev := (f fs.dev).2 })

def ext2ReadBlock (geo : Geometry) (block : Nat) (buf : Buf) : Prog FsInfo Buf :=
  if geo.sBlocksCount ≤ block then fail
  else onDev (bread (u32 (block * geo.sectorsPerBlock)) geo.sectorsPerBlock buf)

def ext2WriteBlock (geo : Geometry) (block : Nat) (buf : Buf) : Prog FsInfo Unit :=
  if geo.sBlocksCount ≤ block then fail
  else onDev (bwrite (u32 (block * geo.sectorsPerBlock)) geo.sectorsPerBlock buf)

def WritesBlocks (geo : Geometry) (A : Nat → Prop) (d d' : Device) : Prop :=
  WritesOnly (fun s => A (s / geo.sectorsPerBlock)) d d'

variable {geo : Geometry}

theorem Geometry.Sound.sectors (sound : geo.Sound) :
    0 < geo.sectorsPerBlock ∧ geo.blockSize = 512 * geo.sectorsPerBlock := by
  unfold Geometry.sectorsPerBlock
  rcases sound.blockSize with h | h | h <;> omega

theorem Geometry.Sound.sector (sound : geo.Sound) {block : Nat}
    (inside : block < geo.sBlocksCount) :
    u32 (block * geo.sectorsPerBlock) = block * geo.sectorsPerBlock := by
  refine Nat.mod_eq_of_lt (Nat.lt_of_lt_of_le ?_ sound.fitsDevice)
  exact Nat.mul_lt_mul_of_pos_right inside sound.sectors.1

theorem Geometry.Sound.realInside (sound : geo.Sound) {group : Nat} (real : geo.Real group) :
    group < geo.numGroups := by
  have positive : 0 < geo.blocksPerGroup := sound.perGroupPos .block
  unfold Geometry.Real at real
  rw [sound.numGroups, Nat.lt_iff_add_one_le, Nat.le_div_iff_mul_le positive, Nat.succ_mul]
  omega

theorem blockKept (sound : geo.Sound) {A : Nat → Prop} {d d' : Device}
    (writes : WritesBlocks geo A d d') {block : Nat} (outside : ¬ A block) :
    blockAt geo d' block = blockAt geo d block := by
  obtain ⟨positive, size⟩ := sound.sectors
  funext o
  unfold blockAt Buf.overlay
  split
  · beta_reduce
    rw [writes.keeps]
    have within : o / 512 < geo.sectorsPerBlock := by omega
    rw [Nat.mul_comm, Nat.mul_add_div positive, Nat.div_eq_of_lt within]
    exact outside
  · rfl

theorem readBlockDev (geo : Geometry) (block : Nat) (buf : Buf) (fs : FsInfo) :
    (ext2ReadBlock geo block buf fs).2 = fs ∨
      (ext2ReadBlock geo block buf fs).2 = { fs with dev := fs.dev.advance } := by
  unfold ext2ReadBlock
  by_cases inside : geo.sBlocksCount ≤ block
  · rw [if_pos inside]
    exact .inl rfl
  · rw [if_neg inside]
    unfold onDev bread
    dsimp only
    split <;> exact .inr rfl

theorem writeBlockDev (geo : Geometry) (block : Nat) (buf : Buf) (fs : FsInfo) :
    ∃ d, (ext2WriteBlock geo block buf fs).2 = { fs with dev := d } := by
  unfold ext2WriteBlock
  by_cases inside : geo.sBlocksCount ≤ block
  · rw [if_pos inside]
    exact ⟨fs.dev, rfl⟩
  · rw [if_neg inside]
    exact ⟨_, rfl⟩

section transfers

variable (sound : geo.Sound)
include sound

theorem readBlockCases (block : Nat) (buf : Buf) {fs : FsInfo} (whole : fs.dev.Unbroken) :
    (∃ d, ext2ReadBlock geo block buf fs = (none, { fs with dev := d }) ∧
      (∀ A, WritesBlocks geo A fs.dev d) ∧ (fs.dev.Reliable → geo.sBlocksCount ≤ block)) ∨
    ∃ d, ext2ReadBlock geo block buf fs =
        (some (Buf.overlay geo.blockSize (blockAt geo fs.dev block) buf), { fs with dev := d }) ∧
      (∀ A, WritesBlocks geo A fs.dev d) ∧ block < geo.sBlocksCount := by
  obtain ⟨positive, size⟩ := sound.sectors
  unfold ext2ReadBlock
  by_cases inside : geo.sBlocksCount ≤ block
  · rw [if_pos inside]
    exact .inl ⟨fs.dev, rfl, fun A => writesNothing _ _, fun _ => inside⟩
  rw [if_neg inside]
  rcases breadCases (u32 (block * geo.sectorsPerBlock)) geo.sectorsPerBlock buf whole positive with
    ⟨read, refused⟩ | read
  · refine .inl ⟨fs.dev.advance, by simp only [onDev, read], fun A => advanceWrites _ _, ?_⟩
    intro reliable
    rw [reliable.next] at refused
    cases refused
  · refine .inr ⟨fs.dev.advance, ?_, fun A => advanceWrites _ _, by omega⟩
    simp only [onDev, read]
    rw [sound.sector (by omega), Nat.mul_comm geo.sectorsPerBlock 512, ← size]
    congr 2
    funext o
    unfold blockAt Buf.overlay
    split <;> rfl

theorem writeBlockCases (block : Nat) (buf : Buf) {fs : FsInfo} (whole : fs.dev.Unbroken) :
    (∃ d, ext2WriteBlock geo block buf fs = (none, { fs with dev := d }) ∧
      WritesBlocks geo (fun _ => False) fs.dev d ∧
      (fs.dev.Reliable → geo.sBlocksCount ≤ block)) ∨
    ∃ d, ext2WriteBlock geo block buf fs = (some (), { fs with dev := d }) ∧
      WritesBlocks geo (· = block) fs.dev d ∧ block < geo.sBlocksCount ∧
      blockAt geo d block = Buf.overlay geo.blockSize buf Buf.zero := by
  obtain ⟨positive, size⟩ := sound.sectors
  unfold ext2WriteBlock
  by_cases inside : geo.sBlocksCount ≤ block
  · rw [if_pos inside]
    exact .inl ⟨fs.dev, rfl, writesNothing _ _, fun _ => inside⟩
  rw [if_neg inside]
  rcases bwriteCases (u32 (block * geo.sectorsPerBlock)) geo.sectorsPerBlock buf whole
    positive with ⟨d, wrote, refused, nothing⟩ | ⟨d, wrote, writes, data⟩
  · refine .inl ⟨d, by simp only [onDev, wrote], nothing, ?_⟩
    intro reliable
    rw [reliable.next] at refused
    cases refused
  · rw [sound.sector (by omega)] at wrote writes data
    refine .inr ⟨d, by rw [sound.sector (by omega)]; simp only [onDev, wrote], ?_, by omega, ?_⟩
    · refine writes.mono fun s bounds => ?_
      show s / geo.sectorsPerBlock = block
      rw [Nat.div_eq_iff positive]
      omega
    · funext o
      unfold blockAt Buf.overlay
      split
      · beta_reduce
        rw [data _ (by omega) (by omega)]
        congr 1
        omega
      · rfl

end transfers

end Scepter.Ext2
