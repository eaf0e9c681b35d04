import Scepter.Lib.Path
import Mathlib.Algebra.Group.Nat.Defs
import Mathlib.Logic.Function.Basic

/-! What minix3 and ext2 share as filesystems of names: inodes, of which a bitmap
tells the used ones, and directories, whose entries name inodes. An inode has the
zones that a truncation to 0 gives back, a directory those of its blocks. `freed`
lists the zones given back, for the statements only. -/
namespace Scepter.Names
open Scepter.Path (Str)

def ROOT_NAME : Str := []
def DOT : Str := ['.']
def DOTDOT : Str := ['.', '.']

structure FsPath where
  names : List Str
  proper : Path.Names names
  short : (Path.flat names).length ≤ 256

def FsPath.parent (path : FsPath) : List Str := path.names.dropLast

def FsPath.name (path : FsPath) : Str := path.names.getLastD ROOT_NAME

structure Dirent where
  inode : Nat
  name : Str
  deriving DecidableEq

/-- The type bits of i_mode. -/
inductive Mode where
  | reg | dir | lnk | other
  deriving DecidableEq

structure Inode where
  mode : Mode
  nlinks : Nat
  zones : List Nat
  deriving DecidableEq

structure Fs where
  inodes : Nat → Inode
  used : Nat → Bool
  zmap : Nat → Bool
  -- the entries of a directory, by its inode number
  dirs : Nat → List Dirent
  freed : List Nat

def Fs.setInode (s : Fs) (ino : Nat) (inode : Inode) : Fs :=
  {s with inodes := Function.update s.inodes ino inode}

def Fs.setUsed (s : Fs) (ino : Nat) (used : Bool) : Fs :=
  {s with used := Function.update s.used ino used}

def Fs.setDir (s : Fs) (ino : Nat) (entries : List Dirent) : Fs :=
  {s with dirs := Function.update s.dirs ino entries}

/-- i_nlinks has 16 bits. -/
def Inode.more (inode : Inode) : Inode := {inode with nlinks := (inode.nlinks + 1) % 2 ^ 16}

def Inode.less (inode : Inode) : Inode := {inode with nlinks := (inode.nlinks + 65535) % 2 ^ 16}

theorem moreMode (inode : Inode) : inode.more.mode = inode.mode := by
  unfold Inode.more
  dsimp only

-- On a variable the kernel would compare the whole records, with the 65535 as successors.
theorem lessMode (inode : Inode) : inode.less.mode = inode.mode := by
  cases inode
  unfold Inode.less
  dsimp only

theorem moreZones (inode : Inode) : inode.more.zones = inode.zones := by
  unfold Inode.more
  dsimp only

theorem lessZones (inode : Inode) : inode.less.zones = inode.zones := by
  cases inode
  unfold Inode.less
  dsimp only

theorem moreNarrow (inode : Inode) : inode.more.nlinks < 2 ^ 16 := by
  unfold Inode.more
  exact Nat.mod_lt _ (by decide)

theorem lessNarrow (inode : Inode) : inode.less.nlinks < 2 ^ 16 := by
  unfold Inode.less
  exact Nat.mod_lt _ (by decide)

theorem moreLinks {inode : Inode} (room : inode.nlinks < 65535) :
    inode.more.nlinks = inode.nlinks + 1 := by
  unfold Inode.more
  exact Nat.mod_eq_of_lt (by omega)

theorem lessLinks {inode : Inode} (some' : 0 < inode.nlinks) (narrow : inode.nlinks < 2 ^ 16) :
    inode.less.nlinks = inode.nlinks - 1 := by
  unfold Inode.less
  dsimp only
  omega

end Scepter.Names
