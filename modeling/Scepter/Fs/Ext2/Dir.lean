import Scepter.Fs.Ext2.Truncate

/-! Directories and removal of a name (ext2_dir.c; path helpers, unlink and rmdir
of ext2.c). A path is a C string of at most 255 bytes, the size of the
source's buffers. `now` stands for the clock, which the source reads anew each time. -/
namespace Scepter.Ext2

open Block Prog

def slash : Byte := 0x2F
def dot : Byte := 0x2E

def rootIno : Nat := 2

/-! The entry at `off`: inode, rec_len, name_len, name. Both formats of an entry
have these four in the same place; the legacy name_len is cut to a byte. -/

def direntIno (buf : Buf) (off : Nat) : Nat := buf.getU32 off

def recLen (buf : Buf) (off : Nat) : Nat := buf.getU16 (off + 4)

def nameLen (buf : Buf) (off : Nat) : Nat := (buf (off + 6)).toNat

def direntName (buf : Buf) (off len : Nat) : List Byte :=
  (List.range len).map fun k => buf (off + 8 + k)

def named (buf : Buf) (name : List Byte) (off : Nat) : Bool :=
  direntIno buf off != 0 && nameLen buf off == name.length &&
    direntName buf off name.length == name

/- The loop over the entries of a block, up to the first one that satisfies `hit`;
with it comes the entry before. `none` is a corrupt entry. -/
def scanDirents (geo : Geometry) (buf : Buf) (hit : Nat → Bool) :
    Nat → Nat → Option Nat → Option (Option (Nat × Option Nat))
  | 0, _, _ => some none
  | fuel + 1, off, prev =>
    if geo.blockSize < off + 8 then some none
    else if recLen buf off < 8 ∨ geo.blockSize < off + recLen buf off then none
    else if hit off then some (some (off, prev))
    else scanDirents geo buf hit fuel (off + recLen buf off) (some off)

def scanBlocksOf {α : Type} (geo : Geometry) (dir : Inode) (hit : Buf → Nat → Bool)
    (found : Nat → Buf → Nat → Option Nat → Prog FsInfo α) (none_ : Prog FsInfo α) :
    List Nat → Buf → Prog FsInfo α
  | [], _ => none_
  | b :: rest, buf => do
    let dblk ← ext2Bmap geo dir b
    if dblk = 0 then scanBlocksOf geo dir hit found none_ rest buf
    else
      let buf ← ext2ReadBlock geo dblk buf
      match scanDirents geo buf (hit buf) geo.blockSize 0 none with
      | none => fail
      | some (some (off, prev)) => found dblk buf off prev
      | some none => scanBlocksOf geo dir hit found none_ rest buf

def dirBlocks (geo : Geometry) (dir : Inode) : List Nat := List.range (blocksOf geo dir.iSize)

def ext2Lookup (geo : Geometry) (dir : Inode) (name : List Byte) : Prog FsInfo Nat :=
  if !ext2IsDir dir.iMode then fail
  else if name.length = 0 ∨ 255 < name.length then fail
  else scanBlocksOf geo dir (fun buf => named buf name)
    (fun _ buf off _ => pure (direntIno buf off)) fail (dirBlocks geo dir) Buf.zero

/- The entry loses its inode and name; it is merged with a deleted entry behind it,
or, when it is the last one, absorbed by a deleted entry before it. -/
def deleteEntry (geo : Geometry) (buf : Buf) (off : Nat) (prev : Option Nat) : Buf :=
  let rl := recLen buf off
  let next := off + rl
  let buf := ((buf.setU32 off 0).setU16 (off + 4) rl).setU16 (off + 6) 0
  if next < geo.blockSize then
    if direntIno buf next = 0 ∧ next + recLen buf next ≤ geo.blockSize then
      buf.setU16 (off + 4) (rl + recLen buf next)
    else buf
  else
    match prev with
    | some p =>
      if direntIno buf p = 0 then buf.setU16 (p + 4) (recLen buf p + rl) else buf
    | none => buf

def ext2RemoveDirent (geo : Geometry) (dir : Inode) (name : List Byte) (now : Nat) :
    Prog FsInfo Inode :=
  if !ext2IsDir dir.iMode then fail
  else if name.length = 0 ∨ 255 < name.length then fail
  else scanBlocksOf geo dir (fun buf => named buf name)
    (fun dblk buf off prev => do
      ext2WriteBlock geo dblk (deleteEntry geo buf off prev)
      pure ((dir.setU32 16 now).setU32 12 now))
    fail (dirBlocks geo dir) Buf.zero

def notDots (buf : Buf) (off : Nat) : Bool :=
  direntIno buf off != 0 &&
    !((nameLen buf off == 1 && direntName buf off 1 == [dot]) ||
      (nameLen buf off == 2 && direntName buf off 2 == [dot, dot]))

/- Fails where ext2_dir_is_empty returns 0: on an error and when an entry is left. -/
def ext2DirIsEmpty (geo : Geometry) (dir : Inode) : Prog FsInfo Unit :=
  scanBlocksOf geo dir notDots (fun _ _ _ _ => fail) (pure ()) (dirBlocks geo dir) Buf.zero

def parseParentAndName (path : List Byte) : Option (List Byte × List Byte) :=
  if path = [] then none
  else if slash ∈ path then
    let name := (path.reverse.takeWhile (· != slash)).reverse
    let parent := path.take (path.length - name.length - 1)
    some (if parent = [] then [slash] else parent, name)
  else some ([slash], path)

def walkTokens (geo : Geometry) : List (List Byte) → Nat × Inode → Prog FsInfo (Nat × Inode)
  | [], dir => pure dir
  | token :: rest, dir =>
    if token = [] then walkTokens geo rest dir
    else do
      let ino ← ext2Lookup geo dir.2 token
      let inode ← ext2ReadInode geo ino
      if rest ≠ [] ∧ !ext2IsDir inode.iMode then fail
      else walkTokens geo rest (ino, inode)

def lookupDirectoryByPath (geo : Geometry) (path : List Byte) : Prog FsInfo (Nat × Inode) := do
  let root ← ext2ReadInode geo rootIno
  if path = [] ∨ path = [slash] ∨ path = [dot] then pure (rootIno, root)
  else
    let path := if path.head? = some slash then path.tail else path
    walkTokens geo ((path.take 255).splitOn slash) (rootIno, root)

structure Entry where
  parentIno : Nat
  parent : Inode
  name : List Byte
  ino : Nat
  inode : Inode

def findEntry (geo : Geometry) (path : List Byte) : Prog FsInfo Entry :=
  match parseParentAndName path with
  | none => fail
  | some (parentPath, name) =>
    if name = [] ∨ name = [dot] ∨ name = [dot, dot] ∨ slash ∈ name then fail
    else do
      let (parentIno, parent) ← lookupDirectoryByPath geo parentPath
      let ino ← ext2Lookup geo parent name
      let inode ← ext2ReadInode geo ino
      pure ⟨parentIno, parent, name, ino, inode⟩

def unlinkEntry (geo : Geometry) (path : List Byte) (now : Nat) : Prog FsInfo Entry := do
  let entry ← findEntry geo path
  if ext2IsDir entry.inode.iMode then fail
  else
    let parent ← ext2RemoveDirent geo entry.parent entry.name now
    ext2WriteInode geo entry.parentIno (parent.setU32 16 now)
    pure entry

def rmdirEntry (geo : Geometry) (path : List Byte) (now : Nat) : Prog FsInfo Entry := do
  let entry ← findEntry geo path
  if !ext2IsDir entry.inode.iMode then fail
  else
    ext2DirIsEmpty geo entry.inode
    let parent ← ext2RemoveDirent geo entry.parent entry.name now
    let links := u16 (parent.iLinksCount + (2 ^ 16 - 1))
    ext2WriteInode geo entry.parentIno ((parent.setU16 26 links).setU32 16 now)
    pure entry

def dropInode (geo : Geometry) (ino : Nat) (inode : Inode) (now : Nat) : Prog FsInfo Unit := do
  let inode ← withSnd inode (ext2TruncateFile geo 0 now)
  ext2WriteInode geo ino inode
  ext2FreeInode geo ino now

def ext2VfsUnlink (geo : Geometry) (path : List Byte) (now : Nat) : Prog FsInfo Unit := do
  let entry ← unlinkEntry geo path now
  let inode : Inode := entry.inode.setU16 26 (u16 (entry.inode.iLinksCount + (2 ^ 16 - 1)))
  if inode.iLinksCount = 0 then dropInode geo entry.ino inode now
  else ext2WriteInode geo entry.ino (inode.setU32 12 now)
  let _ ← attempt (ext2SyncBitmaps geo)
  pure ()

def ext2VfsRmdir (geo : Geometry) (path : List Byte) (now : Nat) : Prog FsInfo Unit := do
  let entry ← rmdirEntry geo path now
  dropInode geo entry.ino entry.inode now
  let _ ← attempt (ext2SyncBitmaps geo)
  pure ()

end Scepter.Ext2
