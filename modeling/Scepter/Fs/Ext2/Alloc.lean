import Scepter.Fs.Ext2.Layout

/-! Bitmaps and allocation of ext2 (ext2_inode.c). Only one group's bitmaps are
resident; switching to another group writes them back first, together with the
group descriptors and the superblock. -/
namespace Scepter.Ext2

open Block Prog

def setDirty (fs : FsInfo) (kind : Kind) (dirty : Bool) : FsInfo :=
  { fs with bitmapDirty := Function.update fs.bitmapDirty kind dirty }

def flushBitmap (geo : Geometry) (kind : Kind) (group : Nat) : Prog FsInfo Unit := do
  let fs ← get
  if fs.bitmapDirty kind then
    ext2WriteBlock geo (geo.bgBitmap kind group) (fs.bitmap kind)
    modify fun fs => setDirty fs kind false
  else pure ()

/- One 32-byte struct ext2_group_desc. -/
def groupDesc (geo : Geometry) (fs : FsInfo) (group : Nat) : Buf :=
  (((((geo.bgRest group).setU32 0 (geo.bgBitmap .block group)).setU32 4
    (geo.bgBitmap .inode group)).setU32 8 (geo.bgInodeTable group)).setU16 12
    (fs.bgFree .block group)).setU16 14 (fs.bgFree .inode group) |>.setU16 16
    (fs.bgUsedDirs group)

def writeGdtBlock (geo : Geometry) (i : Nat) : Prog FsInfo Unit := do
  let fs ← get
  let block := geo.sFirstDataBlock + 1 + i
  let chunk := min (geo.gdtBytes - i * geo.blockSize) geo.blockSize
  let buf ← ext2ReadBlock geo block Buf.zero
  ext2WriteBlock geo block (Buf.overlay chunk
    (fun o => groupDesc geo fs ((i * geo.blockSize + o) / 32) ((i * geo.blockSize + o) % 32)) buf)

def flushGdt (geo : Geometry) : Prog FsInfo Unit := do
  let fs ← get
  if fs.gdtDirty || fs.sbDirty then
    (List.range geo.gdtBlocks).forM (writeGdtBlock geo)
    modify fun fs => { fs with gdtDirty := false }
  else pure ()

def superBytes (geo : Geometry) (fs : FsInfo) : Buf :=
  (geo.sRest.setU32 12 (fs.sFree .block)).setU32 16 (fs.sFree .inode)

def ext2SyncSuper (geo : Geometry) : Prog FsInfo Unit := do
  let fs ← get
  onDev (bwrite 2 2 (superBytes geo fs))

def flushSuper (geo : Geometry) : Prog FsInfo Unit := do
  let fs ← get
  if fs.sbDirty then
    ext2SyncSuper geo
    modify fun fs => { fs with sbDirty := false }
  else pure ()

def ext2SyncBitmaps (geo : Geometry) : Prog FsInfo Unit := do
  let fs ← get
  match fs.bitmapGroup with
  | none => pure ()
  | some group =>
    flushBitmap geo .block group
    flushBitmap geo .inode group
    flushGdt geo
    flushSuper geo

def readBitmap (geo : Geometry) (kind : Kind) (group : Nat) : Prog FsInfo Unit := do
  let fs ← get
  let buf ← ext2ReadBlock geo (geo.bgBitmap kind group) (fs.bitmap kind)
  modify fun fs => { fs with bitmap := Function.update fs.bitmap kind buf }

def ext2LoadGroupBitmaps (geo : Geometry) (group : Nat) : Prog FsInfo Unit := do
  let fs ← get
  if geo.numGroups ≤ group then fail
  else if fs.bitmapGroup = some group then pure ()
  else
    ext2SyncBitmaps geo
    modify fun fs => { fs with bitmapGroup := none }
    if geo.bgBitmap .block group = 0 ∨ geo.bgBitmap .inode group = 0 then fail
    else
      readBitmap geo .block group
      readBitmap geo .inode group
      modify fun fs => { fs with bitmapDirty := fun _ => false, bitmapGroup := some group }

def ext2BitOfBlock (geo : Geometry) (group block : Nat) : Nat :=
  sub32 (sub32 block (u32 (group * geo.blocksPerGroup))) geo.sFirstDataBlock

def setCount (fs : FsInfo) (kind : Kind) (group bg s : Nat) : FsInfo :=
  { fs with
    bgFree := Function.update fs.bgFree kind (Function.update (fs.bgFree kind) group bg)
    gdtDirty := true
    sFree := Function.update fs.sFree kind s
    sbDirty := true }

def claim (kind : Kind) (group i : Nat) (fs : FsInfo) : FsInfo :=
  setCount (setDirty { fs with
    bitmap := Function.update fs.bitmap kind ((fs.bitmap kind).setBit i) } kind true)
    kind group (u16 (fs.bgFree kind group + (2 ^ 16 - 1))) (u32 (fs.sFree kind + (2 ^ 32 - 1)))

def release (kind : Kind) (group i : Nat) (fs : FsInfo) : FsInfo :=
  setCount (setDirty { fs with
    bitmap := Function.update fs.bitmap kind ((fs.bitmap kind).clearBit i) } kind true)
    kind group (u16 (fs.bgFree kind group + 1)) (u32 (fs.sFree kind + 1))

/- The inner loop of ext2_alloc_block over `fuel` blocks from `blk`. -/
def scanBlocks (geo : Geometry) (group : Nat) (bitmap : Buf) : Nat → Nat → Option Nat
  | 0, _ => none
  | fuel + 1, blk =>
    let i := ext2BitOfBlock geo group blk
    if geo.blocksPerGroup ≤ i then none
    else if bitmap.getBit i then scanBlocks geo group bitmap fuel (blk + 1)
    else some blk

def allocBlockFrom (geo : Geometry) (start : Nat) : List Nat → Prog FsInfo Nat
  | [] => fail
  | g :: gs => do
    let group := (start + g) % geo.numGroups
    let fs ← get
    if fs.bgFree .block group = 0 then allocBlockFrom geo start gs
    else
      ext2LoadGroupBitmaps geo group
      let fs ← get
      let first := u32 (u32 (group * geo.blocksPerGroup) + geo.sFirstDataBlock)
      let last := min (u32 ((group + 1) * geo.blocksPerGroup))
        (sub32 geo.sBlocksCount geo.sRBlocksCount)
      match scanBlocks geo group (fs.bitmap .block) (last - first) first with
      | none => allocBlockFrom geo start gs
      | some blk =>
        modify (claim .block group (ext2BitOfBlock geo group blk))
        pure blk

def ext2AllocBlock (geo : Geometry) (ino : Nat) : Prog FsInfo Nat :=
  let inoGroup := if 1 ≤ ino then (ino - 1) / geo.inodesPerGroup else 0
  allocBlockFrom geo (if geo.numGroups ≤ inoGroup then 0 else inoGroup)
    (List.range geo.numGroups)

def ext2FreeBlock (geo : Geometry) (block : Nat) : Prog FsInfo Unit :=
  let group := block / geo.blocksPerGroup
  let index := ext2BitOfBlock geo group block
  if geo.sBlocksCount ≤ block then fail
  else if geo.numGroups ≤ group ∨ geo.blocksPerGroup ≤ index then fail
  else do
    ext2LoadGroupBitmaps geo group
    let fs ← get
    if (fs.bitmap .block).getBit index then modify (release .block group index)
    else fail

def ext2ReadInode (geo : Geometry) (ino : Nat) : Prog FsInfo Inode :=
  if ino < 1 ∨ geo.sInodesCount < ino then fail
  else if geo.numGroups ≤ geo.inodeGroup ino then fail
  else if geo.bgInodeTable (geo.inodeGroup ino) = 0 then fail
  else do
    let buf ← ext2ReadBlock geo (geo.inodeBlock ino) Buf.zero
    pure (Buf.overlay 128 (fun o => buf (geo.inodeOffset ino + o)) Buf.zero)

def ext2WriteInode (geo : Geometry) (ino : Nat) (inode : Inode) : Prog FsInfo Unit :=
  if ino < 1 ∨ geo.sInodesCount < ino then fail
  else if geo.numGroups ≤ geo.inodeGroup ino then fail
  else if geo.bgInodeTable (geo.inodeGroup ino) = 0 then fail
  else do
    let buf ← ext2ReadBlock geo (geo.inodeBlock ino) Buf.zero
    let at_ := geo.inodeOffset ino
    ext2WriteBlock geo (geo.inodeBlock ino)
      (fun o => if at_ ≤ o ∧ o < at_ + 128 then inode (o - at_) else buf o)

def ext2IsDir (mode : Nat) : Bool := mode &&& 0xF000 = 0x4000

def addUsedDirs (mode group by_ : Nat) (fs : FsInfo) : FsInfo :=
  if ext2IsDir mode then
    { fs with bgUsedDirs :=
        Function.update fs.bgUsedDirs group (u16 (fs.bgUsedDirs group + by_)) }
  else fs

def newInode (mode now : Nat) : Inode :=
  (((((Buf.zero).setU16 0 mode).setU16 26 1).setU32 8 now).setU32 12 now).setU32 16 now

/- Claims the bit and writes the fresh inode; a failed write rolls the claim back. -/
def claimInode (geo : Geometry) (mode now group i ino : Nat) : Prog FsInfo Nat := do
  modify (claim .inode group i)
  modify (addUsedDirs mode group 1)
  match ← attempt (ext2WriteInode geo ino (newInode mode now)) with
  | some _ => pure ino
  | none =>
    modify (release .inode group i)
    modify (addUsedDirs mode group (2 ^ 16 - 1))
    fail

def allocInodeFrom (geo : Geometry) (mode now start : Nat) : List Nat → Prog FsInfo Nat
  | [] => fail
  | g :: gs => do
    let group := (start + g) % geo.numGroups
    let fs ← get
    if fs.bgFree .inode group = 0 then allocInodeFrom geo mode now start gs
    else
      ext2LoadGroupBitmaps geo group
      let fs ← get
      match (List.range geo.inodesPerGroup).find? fun i => !(fs.bitmap .inode).getBit i with
      | none => allocInodeFrom geo mode now start gs
      | some i =>
        let ino := u32 (group * geo.inodesPerGroup + i + 1)
        if geo.sInodesCount < ino then fail
        else claimInode geo mode now group i ino

def ext2AllocInode (geo : Geometry) (mode now prefGroup : Nat) : Prog FsInfo Nat :=
  allocInodeFrom geo mode now (if geo.numGroups ≤ prefGroup then 0 else prefGroup)
    (List.range geo.numGroups)

def ext2FreeInode (geo : Geometry) (ino now : Nat) : Prog FsInfo Unit :=
  if ino < 1 ∨ geo.sInodesCount < ino then fail
  else do
    let group := geo.inodeGroup ino
    let index := geo.inodeIndex ino
    let inode ← ext2ReadInode geo ino
    ext2LoadGroupBitmaps geo group
    let fs ← get
    if (fs.bitmap .inode).getBit index then
      modify (release .inode group index)
      modify (addUsedDirs inode.iMode group (2 ^ 16 - 1))
      ext2WriteInode geo ino (Buf.zero.setU32 20 now)
    else fail

end Scepter.Ext2
