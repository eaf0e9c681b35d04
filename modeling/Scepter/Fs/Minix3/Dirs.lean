import Scepter.Fs.Names
import Scepter.Lib.Run

/-! Directories of minix3 (fs/minix3/dir.c, minix3.c): create, mkdir, rmdir, link,
unlink, symlink and rename with the inodes as each of them reads, changes and writes
back. The transfers of the disk succeed; zones and inodes may run out. A call gives
whether it succeeds and what it leaves. -/
namespace Scepter.Minix3
open Scepter.Path (Str)
open Names

structure Geometry where
  -- directory entries in a block of 1024 or 4096 bytes
  perBlock : Nat
  sized : perBlock = 16 ∨ perBlock = 64
  sNinodes : Nat
  sZones : Nat
  dataZoneStart : Nat

def ROOT_INO : Nat := 1
def NAME_LEN : Nat := 60
def DIRECT_ZONES : Nat := 7

variable (geo : Geometry)

/-! ## Zones and inodes -/

def allocZone (s : Fs) : Option (Nat × Fs) :=
  ((List.range geo.sZones).find? fun z => !s.zmap z).map fun z =>
    (z + geo.dataZoneStart, {s with zmap := Function.update s.zmap z true})

def freeZone (s : Fs) (zone : Nat) : Fs :=
  if zone < geo.dataZoneStart ∨ zone ≥ geo.sZones then s
  else {s with
    zmap := Function.update s.zmap (zone - geo.dataZoneStart) false
    freed := zone :: s.freed}

def allocInode (s : Fs) (mode : Mode) : Option (Nat × Fs) :=
  ((List.range' 1 geo.sNinodes).find? fun ino => !s.used ino).map fun ino =>
    (ino, (s.setUsed ino true).setInode ino ⟨mode, 1, []⟩)

def freeInode (s : Fs) (ino : Nat) : Fs :=
  if ino = 0 ∨ ino > geo.sNinodes then s else s.setUsed ino false

def readInode (s : Fs) (ino : Nat) : Option Inode :=
  if ino = 0 ∨ ino > geo.sNinodes then none else some (s.inodes ino)

def writeInode (s : Fs) (ino : Nat) (inode : Inode) : Fs :=
  if ino = 0 ∨ ino > geo.sNinodes then s else s.setInode ino inode

def truncateFile (s : Fs) (inode : Inode) : Fs :=
  if inode.mode = .reg ∨ inode.mode = .lnk then inode.zones.foldl (freeZone geo) s else s

/-! ## Entries -/

def replaceFirst {α : Type} (p : α → Bool) (b : α) : List α → Option (List α)
  | [] => none
  | a :: rest => if p a then some (b :: rest) else (replaceFirst p b rest).map (a :: ·)

def unusedEntry : Dirent := ⟨0, []⟩

def free (e : Dirent) : Bool := e.inode = 0

def hasName (name : Str) (e : Dirent) : Bool := e.inode ≠ 0 ∧ e.name = name.take NAME_LEN

def slots (s : Fs) (ino : Nat) (dir : Inode) : List Dirent :=
  (s.dirs ino).take (dir.zones.length * geo.perBlock)

def setSlots (s : Fs) (ino : Nat) (dir : Inode) (entries : List Dirent) : Fs :=
  s.setDir ino (entries ++ (s.dirs ino).drop (dir.zones.length * geo.perBlock))

def lookup (s : Fs) (ino : Nat) (dir : Inode) (name : Str) : Option Nat :=
  if dir.mode ≠ .dir then none
  else ((slots geo s ino dir).find? (hasName name)).map Dirent.inode

def addDirent (s : Fs) (ino : Nat) (dir : Inode) (name : Str) (target : Nat) :
    Option (Fs × Inode) :=
  if dir.mode ≠ .dir ∨ name.length ≥ NAME_LEN then none
  else match replaceFirst free ⟨target, name⟩ (slots geo s ino dir) with
    | some entries => some (setSlots geo s ino dir entries, dir)
    | none =>
      if dir.zones.length < DIRECT_ZONES then
        (allocZone geo s).map fun (zone, s) =>
          let block := ⟨target, name⟩ :: List.replicate (geo.perBlock - 1) unusedEntry
          (s.setDir ino (slots geo s ino dir ++ block), {dir with zones := dir.zones ++ [zone]})
      else none

def removeDirent (s : Fs) (ino : Nat) (dir : Inode) (name : Str) : Option Fs :=
  if dir.mode ≠ .dir then none
  else (replaceFirst (hasName name) unusedEntry (slots geo s ino dir)).map
    (setSlots geo s ino dir)

def dirEmpty (s : Fs) (ino : Nat) (dir : Inode) : Bool :=
  (slots geo s ino dir).all fun e => e.inode = 0 ∨ e.name = DOT ∨ e.name = DOTDOT

def freeDir (s : Fs) (ino : Nat) (dir : Inode) : Fs :=
  freeInode geo ((dir.zones.take DIRECT_ZONES).foldl (freeZone geo) s) ino

def updateDotdot (s : Fs) (ino parent : Nat) : Fs :=
  match s.dirs ino with
  | self :: up :: rest =>
    if (s.inodes ino).zones ≠ [] ∧ up.inode ≠ 0 ∧ up.name = DOTDOT then
      s.setDir ino (self :: ⟨parent, up.name⟩ :: rest)
    else s
  | _ => s

/-! ## Paths -/

def walk (s : Fs) : List Str → Nat → Inode → Option (Nat × Inode)
  | [], ino, inode => some (ino, inode)
  | name :: rest, ino, inode => match lookup geo s ino inode name with
    | none => none
    | some next => match readInode geo s next with
      | none => none
      | some inode =>
        if rest ≠ [] ∧ inode.mode ≠ .dir then none else walk s rest next inode

def lookupDirectory (s : Fs) (names : List Str) : Option (Nat × Inode) :=
  match names with
  | [] => (readInode geo s ROOT_INO).map fun root => (ROOT_INO, root)
  | _ => match readInode geo s ROOT_INO with
    | none => none
    | some root => (walk geo s names ROOT_INO root).filter fun found => found.2.mode = .dir

def lastName (path : FsPath) : Str := path.name.take (NAME_LEN - 1)

/-! ## Calls -/

def openFile (s : Fs) (path : FsPath) : Option (Nat × Inode) :=
  (readInode geo s ROOT_INO).bind fun root => walk geo s path.names ROOT_INO root

/-- open with O_CREAT, and O_TRUNC for a file that is there, and close. The name is that
of the path, not of a buffer. -/
def create (s : Fs) (path : FsPath) (trunc : Bool) : Bool × Fs :=
  match openFile geo s path with
  | some (ino, inode) =>
    if trunc ∧ inode.mode = .reg then
      (true, writeInode geo (truncateFile geo s inode) ino {inode with zones := []})
    else (true, s)
  | none =>
    if path.names = [] then (false, s)
    else match (readInode geo s ROOT_INO).bind fun root =>
        walk geo s path.parent ROOT_INO root with
      | none => (false, s)
      | some (parent, dir) =>
        if dir.mode ≠ .dir ∨ (lookup geo s parent dir path.name).isSome then (false, s)
        else match allocInode geo s .reg with
          | none => (false, s)
          | some (ino, s) => match addDirent geo s parent dir path.name ino with
            | none => (false, freeInode geo s ino)
            | some (s, dir) => (true, writeInode geo s parent dir)

def unlink (s : Fs) (path : FsPath) : Bool × Fs :=
  let name := lastName path
  match lookupDirectory geo s path.parent with
  | none => (false, s)
  | some (parent, dir) => match lookup geo s parent dir name with
    | none => (false, s)
    | some ino => match readInode geo s ino with
      | none => (false, s)
      | some inode =>
        if inode.mode = .dir then (false, s)
        else
          let inode := inode.less
          let s :=
            if inode.nlinks = 0 then freeInode geo (truncateFile geo s inode) ino
            else writeInode geo s ino inode
          match removeDirent geo s parent dir name with
          | none => (false, s)
          | some s => (true, writeInode geo s parent dir)

def mkdir (s : Fs) (path : FsPath) : Bool × Fs :=
  let name := lastName path
  if name = [] then (false, s)
  else match lookupDirectory geo s path.parent with
    | none => (false, s)
    | some (parent, dir) =>
      if (lookup geo s parent dir name).isSome then (false, s)
      else match allocInode geo s .dir with
        | none => (false, s)
        | some (ino, s) => match allocZone geo s with
          | none => (false, freeInode geo s ino)
          | some (zone, s) =>
            let entries :=
              ⟨ino, DOT⟩ :: ⟨parent, DOTDOT⟩ :: List.replicate (geo.perBlock - 2) unusedEntry
            let s := writeInode geo (s.setDir ino entries) ino ⟨.dir, 2, [zone]⟩
            match addDirent geo s parent dir name ino with
            | none => (false, freeInode geo (freeZone geo s zone) ino)
            | some (s, dir) => (true, writeInode geo s parent dir.more)

def rmdir (s : Fs) (path : FsPath) : Bool × Fs :=
  let name := lastName path
  match lookupDirectory geo s path.parent with
  | none => (false, s)
  | some (parent, dir) => match lookup geo s parent dir name with
    | none => (false, s)
    | some ino => match readInode geo s ino with
      | none => (false, s)
      | some inode =>
        if inode.mode ≠ .dir then (false, s)
        else if !dirEmpty geo s ino inode then (false, s)
        else
          let s := freeDir geo s ino inode
          let s := (removeDirent geo s parent dir name).getD s
          (true, writeInode geo s parent dir.less)

def link (s : Fs) (old new : FsPath) : Bool × Fs :=
  let name := lastName new
  match openFile geo s old with
  | none => (false, s)
  | some (ino, inode) =>
    if inode.mode = .dir ∨ name = [] then (false, s)
    else match lookupDirectory geo s new.parent with
      | none => (false, s)
      | some (parent, dir) =>
        if (lookup geo s parent dir name).isSome then (false, s)
        else match addDirent geo s parent dir name ino with
          | none => (false, s)
          | some (s, dir) => (true, writeInode geo (writeInode geo s ino inode.more) parent dir)

def symlink (s : Fs) (length : Nat) (path : FsPath) : Bool × Fs :=
  let name := lastName path
  if name = [] then (false, s)
  else match lookupDirectory geo s path.parent with
    | none => (false, s)
    | some (parent, dir) =>
      if (lookup geo s parent dir name).isSome ∨ length > 512 then (false, s)
      else match allocInode geo s .lnk with
        | none => (false, s)
        | some (ino, s) =>
          let written := if length = 0 then some ([], s)
            else (allocZone geo s).map fun (zone, s) => ([zone], s)
          match written with
          | none => (false, freeInode geo s ino)
          | some (zones, s) =>
            let s := writeInode geo s ino ⟨.lnk, 1, zones⟩
            match addDirent geo s parent dir name ino with
            | none => (false, freeInode geo ((removeDirent geo s parent dir name).getD s) ino)
            | some (s, dir) => (true, writeInode geo s parent dir)

/-- The part of minix3_vfs_rename that handles a new name that exists. `none` refuses. -/
def replace (s : Fs) (parent : Nat) (dir : Inode) (name : Str) : Option Fs :=
  match lookup geo s parent dir name with
  | none => some s
  | some existing => match readInode geo s existing with
    | none => none
    | some inode =>
      let cleared :=
        if inode.mode = .dir then
          if dirEmpty geo s existing inode then some (freeDir geo s existing inode) else none
        else some (freeInode geo (truncateFile geo s inode) existing)
      cleared.map fun s => (removeDirent geo s parent dir name).getD s

def rename (s : Fs) (old new : FsPath) : Bool × Fs :=
  let oldName := lastName old
  let newName := lastName new
  match lookupDirectory geo s old.parent, lookupDirectory geo s new.parent with
  | some (oldParent, oldDir), some (newParent, newDir) =>
    match lookup geo s oldParent oldDir oldName with
    | none => (false, s)
    | some target => match readInode geo s target with
      | none => (false, s)
      | some inode => match replace geo s newParent newDir newName with
        | none => (false, s)
        | some s => match addDirent geo s newParent newDir newName target with
          | none => (false, s)
          | some (s, newDir) => match removeDirent geo s oldParent oldDir oldName with
            | none => (false, s)
            | some s =>
              let moved := inode.mode = .dir ∧ oldParent ≠ newParent
              let s := if moved then updateDotdot s target newParent else s
              let oldDir := if moved then oldDir.less else oldDir
              let newDir := if moved then newDir.more else newDir
              let s := writeInode geo (writeInode geo s oldParent oldDir) newParent newDir
              (true, writeInode geo s target inode)
  | _, _ => (false, s)

/-! ## Runs -/

inductive Action where
  | create (path : FsPath) (trunc : Bool)
  | mkdir (path : FsPath)
  | rmdir (path : FsPath)
  | link (old new : FsPath)
  | unlink (path : FsPath)
  | symlink (length : Nat) (path : FsPath)
  | rename (old new : FsPath)

def perform (s : Fs) : Action → Bool × Fs
  | .create path trunc => create geo s path trunc
  | .mkdir path => mkdir geo s path
  | .rmdir path => rmdir geo s path
  | .link old new => link geo s old new
  | .unlink path => unlink geo s path
  | .symlink length path => symlink geo s length path
  | .rename old new => rename geo s old new

def step (s : Fs) (a : Action) : Option Fs := some (perform geo s a).2

end Scepter.Minix3
