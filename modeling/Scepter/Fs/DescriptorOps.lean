import Mathlib.Data.Int.Basic
import Scepter.Kernel.Errno

/-! What the calls on a descriptor do with the driver table (fs/vfs.c). A call leaves a
trace: each index into fs_drivers, each callback with the private data it gets, each use
of a pipe. An index outside the table ends the trace, since what is read there is not a
driver. The answers of the drivers and pipes are given from outside. -/
namespace Scepter.DescriptorOps

def MAX_MOUNT_POINTS : Nat := 16

def O_RDONLY : Nat := 1
def O_WRONLY : Nat := 2
def O_RDWR : Nat := 3

inductive Callback where
  | close | read | write | seek | truncate | ioctl | readdir | fstat | fchmod | fchown | statfs
  | getpath | poll | mmap
  deriving DecidableEq

inductive Private where
  | mount (driver : Int) (n : Nat)
  | file (driver : Int) (n : Nat)
  deriving DecidableEq

def Private.driver : Private → Int
  | .mount driver _ => driver
  | .file driver _ => driver

/-- open_file_t: of the flags only the access mode; none is NULL. -/
structure OpenFile where
  fsId : Int
  fsPrivate : Option Private
  filePrivate : Option Private
  offset : Int
  mode : Nat
  refcount : Int
  pipe : Option Nat
  isFifo : Bool

inductive Touch where
  | index (i : Int)
  | call (i : Int) (cb : Callback) (arg : Option Private)
  | pipe
  deriving DecidableEq

structure Trace where
  touches : List Touch
  ret : Option Int

abbrev Drivers := Nat → Callback → Bool

/-- What is answered: by the callbacks, by seek as the new offset, by fstat as the type, by the
pipe, and whether resolve_path takes the path of getpath. -/
structure Answers where
  ret : Callback → Int
  newOffset : Int
  isDir : Bool
  pipe : Int
  resolves : Bool

def InTable (i : Int) : Prop := 0 ≤ i ∧ i < MAX_MOUNT_POINTS

instance (i) : Decidable (InTable i) := by unfold InTable; infer_instance

def value (r : Int) : Trace := ⟨[], some r⟩

def Trace.after (touches : List Touch) (t : Trace) : Trace := ⟨touches ++ t.touches, t.ret⟩

def Trace.andThen (t : Trace) (next : Int → Trace) : Trace :=
  match t.ret with
  | none => t
  | some r => (next r).after t.touches

/-- `if (fs_drivers[file->fs_id].ops.cb) called else absent`, with the call at the front of `called`. -/
def viaDriver (d : Drivers) (file : OpenFile) (cb : Callback) (arg : Option Private)
    (absent called : Trace) : Trace :=
  if InTable file.fsId then
    if d file.fsId.toNat cb then
      called.after [.index file.fsId, .index file.fsId, .call file.fsId cb arg]
    else absent.after [.index file.fsId]
  else ⟨[.index file.fsId], none⟩

section calls
variable (d : Drivers) (a : Answers) (file : OpenFile)

def fsRead (buf : Bool) : Trace :=
  if !buf then value (-1)
  else if file.mode = O_WRONLY then value (-1)
  else if file.pipe.isSome then ⟨[.pipe], some a.pipe⟩
  else viaDriver d file .read file.filePrivate (value (-1)) (value (a.ret .read))

def fsWrite (buf : Bool) : Trace :=
  if !buf then value (-1)
  else if file.mode = O_RDONLY then value (-1)
  else if file.pipe.isSome then ⟨[.pipe], some a.pipe⟩
  else viaDriver d file .write file.filePrivate (value (-1)) (value (a.ret .write))

-- SEEK_SET, SEEK_CUR, SEEK_END and every other value
inductive Whence where
  | set | cur | end' | other
  deriving DecidableEq

def seekFallback (offset : Int) : Whence → Int
  | .set => if offset < 0 then -1 else offset
  | .cur => if (file.offset + offset).bmod (2 ^ 32) < 0 then -1 else (file.offset + offset).bmod (2 ^ 32)
  | .end' => -1
  | .other => -1

def fsSeek (offset : Int) (whence : Whence) : Trace :=
  viaDriver d file .seek file.filePrivate (value (seekFallback file offset whence))
    (value (if a.ret .seek ≠ 0 then -1 else a.newOffset))

def fsTruncate : Trace :=
  if file.mode = O_RDONLY then value (-1)
  else viaDriver d file .truncate file.filePrivate (value (-1)) (value (a.ret .truncate))

def fsReaddir (dirent : Bool) : Trace :=
  if !dirent then value (-1)
  else viaDriver d file .readdir file.filePrivate (value (-1)) (value (a.ret .readdir))

def fsIoctl : Trace :=
  viaDriver d file .ioctl file.filePrivate (value (-1)) (value (a.ret .ioctl))

def fsMmap : Trace :=
  viaDriver d file .mmap file.filePrivate (value (-1)) (value (a.ret .mmap))

def fsFstat (st : Bool) : Trace :=
  if !st then value (-1)
  else if file.pipe.isSome && !file.isFifo then value 0
  else viaDriver d file .fstat file.filePrivate (value (-1)) (value (a.ret .fstat))

def fsFchmod : Trace :=
  if file.pipe.isSome then value (-1)
  else viaDriver d file .fchmod file.filePrivate (value (-1)) (value (a.ret .fchmod))

def fsFchown : Trace :=
  viaDriver d file .fchown file.filePrivate (value (-ENOSYS)) (value (a.ret .fchown))

def fsFstatfs (buf : Bool) : Trace :=
  if !buf then value (-EINVAL)
  else viaDriver d file .statfs file.fsPrivate (value (-ENOSYS)) (value (a.ret .statfs))

def fchdirPath : Trace :=
  viaDriver d file .getpath file.filePrivate (value (-ENOSYS))
    (value (if a.ret .getpath ≠ 0 then -ENOENT else if !a.resolves then -ENOENT else 0))

def fsFchdir : Trace :=
  viaDriver d file .fstat file.filePrivate (fchdirPath d a file)
    (if a.ret .fstat ≠ 0 then value (-EINVAL)
      else if !a.isDir then value (-ENOTDIR)
      else fchdirPath d a file)

def fsPoll : Trace :=
  if file.pipe.isSome then ⟨[.pipe], some a.pipe⟩
  else viaDriver d file .poll file.filePrivate (value 5) (value (a.ret .poll))

-- fs_pread and fs_pwrite around the read or write that they make
def atOffset (offset : Int) (io : Trace) : Trace :=
  if file.pipe.isSome then value (-1)
  else (fsSeek d a file offset .set).andThen fun r =>
    if r < 0 then value (-1)
    else io.andThen fun n => (fsSeek d a file file.offset .set).andThen fun _ => value n

def fsPread (buf : Bool) (offset : Int) : Trace := atOffset d a file offset (fsRead d a file buf)

def fsPwrite (buf : Bool) (offset : Int) : Trace := atOffset d a file offset (fsWrite d a file buf)

def openFilePut : Trace :=
  if file.refcount - 1 = 0 then
    if file.pipe.isSome then
      if file.isFifo then
        (viaDriver d file .close file.filePrivate (value 0) (value 0)).after [.pipe]
      else ⟨[.pipe], some 0⟩
    else viaDriver d file .close file.filePrivate (value 0) (value 0)
  else value 0

end calls

inductive Op where
  | read (buf : Bool) | write (buf : Bool)
  | pread (buf : Bool) (offset : Int) | pwrite (buf : Bool) (offset : Int)
  | seek (offset : Int) (whence : Whence)
  | truncate
  | readdir (dirent : Bool)
  | ioctl | mmap
  | fstat (st : Bool)
  | fchmod | fchown
  | fstatfs (buf : Bool)
  | fchdir | poll
  -- sys_fsync looks the descriptor up, and sys_syncfs does not
  | sync
  | close

def perform (d : Drivers) (a : Answers) (file : OpenFile) : Op → Trace
  | .read buf => fsRead d a file buf
  | .write buf => fsWrite d a file buf
  | .pread buf offset => fsPread d a file buf offset
  | .pwrite buf offset => fsPwrite d a file buf offset
  | .seek offset whence => fsSeek d a file offset whence
  | .truncate => fsTruncate d a file
  | .readdir dirent => fsReaddir d a file dirent
  | .ioctl => fsIoctl d a file
  | .mmap => fsMmap d a file
  | .fstat st => fsFstat d a file st
  | .fchmod => fsFchmod d a file
  | .fchown => fsFchown d a file
  | .fstatfs buf => fsFstatfs d a file buf
  | .fchdir => fsFchdir d a file
  | .poll => fsPoll d a file
  | .sync => value 0
  | .close => openFilePut d file

/-! ## The open files there are -/

def allocOpenFile (garbage : Bool) (fsId : Int) (fsPrivate filePrivate : Option Private) (mode : Nat) :
    OpenFile :=
  ⟨fsId, fsPrivate, filePrivate, 0, mode, 1, none, garbage⟩

inductive Held : OpenFile → Prop where
  -- a file, directory or device
  | opened (garbage : Bool) (i : Int) (m n mode : Nat) (registered : InTable i) :
    Held (allocOpenFile garbage i (some (.mount i m)) (some (.file i n)) mode)
  | fifo (i : Int) (m n mode p : Nat) (registered : InTable i) :
    Held {allocOpenFile true i (some (.mount i m)) (some (.file i n)) mode with pipe := some p}
  | pipeEnd (garbage : Bool) (mode p : Nat) :
    Held {allocOpenFile garbage (-1) none none mode with pipe := some p}
  | used {file : OpenFile} (held : Held file) (offset refcount : Int) :
    Held {file with offset := offset, refcount := refcount}

def HasCallback (d : Drivers) (file : OpenFile) (cb : Callback) : Prop :=
  InTable file.fsId ∧ d file.fsId.toNat cb = true

def Applies (d : Drivers) (file : OpenFile) : Op → Prop
  | .read _ => file.mode ≠ O_WRONLY ∧ (file.pipe.isSome ∨ HasCallback d file .read)
  | .write _ => file.mode ≠ O_RDONLY ∧ (file.pipe.isSome ∨ HasCallback d file .write)
  | .pread .. | .pwrite .. => file.pipe = none
  | .seek .. => InTable file.fsId
  | .truncate => file.mode ≠ O_RDONLY ∧ HasCallback d file .truncate
  | .readdir _ => HasCallback d file .readdir
  | .ioctl => HasCallback d file .ioctl
  | .mmap => HasCallback d file .mmap
  | .fstat _ => file.pipe.isSome ∨ HasCallback d file .fstat
  | .fchmod => file.pipe = none ∧ HasCallback d file .fchmod
  | .fchown => HasCallback d file .fchown
  | .fstatfs _ => HasCallback d file .statfs
  | .fchdir => HasCallback d file .getpath
  | .poll | .sync | .close => True

structure Proper (d : Drivers) (file : OpenFile) (op : Op) : Prop where
  inside : ∀ a i, .index i ∈ (perform d a file op).touches → InTable i
  own : ∀ a i cb arg, .call i cb arg ∈ (perform d a file op).touches →
    (arg = file.filePrivate ∨ arg = file.fsPrivate) ∧ ∃ p, arg = some p ∧ p.driver = i
  refuses : ∀ a, ¬ Applies d file op → ∃ r, (perform d a file op).ret = some r ∧ r < 0

def Guarded (file : OpenFile) : Op → Prop
  | .seek .. | .ioctl | .mmap | .fchown | .fchdir => False
  | .truncate => file.mode = O_RDONLY
  | .readdir given | .fstatfs given => given = false
  | .fstat st => st = false ∨ file.isFifo = false
  | .close => file.isFifo = false ∨ file.refcount ≠ 1
  | .read _ | .write _ | .pread .. | .pwrite .. | .fchmod | .poll | .sync => True

section traces
variable {d : Drivers} {a : Answers} {file : OpenFile} {t absent called : Trace} {cb : Callback}
  {arg : Option Private}

def Touch.On (file : OpenFile) : Touch → Prop
  | .index i => i = file.fsId
  | .call i _ arg => i = file.fsId ∧ (arg = file.filePrivate ∨ arg = file.fsPrivate)
  | .pipe => True

def Trace.On (file : OpenFile) (t : Trace) : Prop := ∀ x ∈ t.touches, x.On file

theorem valueOn (r : Int) : (value r).On file := fun _ absurd' => nomatch absurd'

theorem pipeOn (r : Option Int) : (⟨[.pipe], r⟩ : Trace).On file := by
  intro x member
  cases List.mem_singleton.mp member
  trivial

theorem afterOn {touches : List Touch} (front : ∀ x ∈ touches, x.On file) (on : t.On file) :
    (t.after touches).On file := by
  intro x member
  rcases List.mem_append.mp member with inside | behind
  · exact front x inside
  · exact on x behind

theorem viaDriverOn (own : arg = file.filePrivate ∨ arg = file.fsPrivate) (absentOn : absent.On file)
    (calledOn : called.On file) : (viaDriver d file cb arg absent called).On file := by
  have index : (Touch.index file.fsId).On file := rfl
  have call : (Touch.call file.fsId cb arg).On file := ⟨rfl, own⟩
  unfold viaDriver
  split
  · split
    · exact afterOn (by simp [index, call]) calledOn
    · exact afterOn (by simp [index]) absentOn
  · intro x member
    cases List.mem_singleton.mp member
    exact index

theorem andThenOn {next : Int → Trace} (on : t.On file) (each : ∀ r, (next r).On file) :
    (t.andThen next).On file := by
  unfold Trace.andThen
  split
  · exact on
  · exact afterOn on (each _)

theorem iteOn {p : Prop} [Decidable p] {t u : Trace} (yes : t.On file) (no : u.On file) :
    (if p then t else u).On file := by
  split
  · exact yes
  · exact no

theorem seekOn (offset : Int) (whence : Whence) : (fsSeek d a file offset whence).On file :=
  viaDriverOn (.inl rfl) (valueOn _) (valueOn _)

theorem readOn (buf : Bool) : (fsRead d a file buf).On file :=
  iteOn (valueOn _) (iteOn (valueOn _) (iteOn (pipeOn _)
    (viaDriverOn (.inl rfl) (valueOn _) (valueOn _))))

theorem writeOn (buf : Bool) : (fsWrite d a file buf).On file :=
  iteOn (valueOn _) (iteOn (valueOn _) (iteOn (pipeOn _)
    (viaDriverOn (.inl rfl) (valueOn _) (valueOn _))))

theorem atOffsetOn (offset : Int) {io : Trace} (on : io.On file) :
    (atOffset d a file offset io).On file :=
  iteOn (valueOn _) (andThenOn (seekOn _ _) fun _ => iteOn (valueOn _)
    (andThenOn on fun _ => andThenOn (seekOn _ _) fun _ => valueOn _))

theorem fchdirPathOn : (fchdirPath d a file).On file :=
  viaDriverOn (.inl rfl) (valueOn _) (valueOn _)

theorem performOn (op : Op) : (perform d a file op).On file := by
  cases op with
  | read buf => exact readOn buf
  | write buf => exact writeOn buf
  | pread buf offset => exact atOffsetOn offset (readOn buf)
  | pwrite buf offset => exact atOffsetOn offset (writeOn buf)
  | seek offset whence => exact seekOn offset whence
  | truncate => exact iteOn (valueOn _) (viaDriverOn (.inl rfl) (valueOn _) (valueOn _))
  | readdir dirent => exact iteOn (valueOn _) (viaDriverOn (.inl rfl) (valueOn _) (valueOn _))
  | ioctl => exact viaDriverOn (.inl rfl) (valueOn _) (valueOn _)
  | mmap => exact viaDriverOn (.inl rfl) (valueOn _) (valueOn _)
  | fstat st =>
    exact iteOn (valueOn _) (iteOn (valueOn _) (viaDriverOn (.inl rfl) (valueOn _) (valueOn _)))
  | fchmod => exact iteOn (valueOn _) (viaDriverOn (.inl rfl) (valueOn _) (valueOn _))
  | fchown => exact viaDriverOn (.inl rfl) (valueOn _) (valueOn _)
  | fstatfs buf => exact iteOn (valueOn _) (viaDriverOn (.inr rfl) (valueOn _) (valueOn _))
  | fchdir =>
    exact viaDriverOn (.inl rfl) fchdirPathOn (iteOn (valueOn _) (iteOn (valueOn _) fchdirPathOn))
  | poll => exact iteOn (pipeOn _) (viaDriverOn (.inl rfl) (valueOn _) (valueOn _))
  | sync => exact valueOn _
  | close =>
    refine iteOn (iteOn (iteOn (afterOn (by simp [Touch.On]) ?_) (pipeOn _)) ?_) (valueOn _)
    · exact viaDriverOn (.inl rfl) (valueOn _) (valueOn _)
    · exact viaDriverOn (.inl rfl) (valueOn _) (valueOn _)

theorem viaDriverLacks (inTable : InTable file.fsId) (lacks : ¬ HasCallback d file cb) :
    (viaDriver d file cb arg absent called).ret = absent.ret := by
  unfold viaDriver
  rw [if_pos inTable, if_neg fun has => lacks ⟨inTable, has⟩]
  rfl

theorem viaDriverOutside (outside : ¬ InTable file.fsId) :
    viaDriver d file cb arg absent called = ⟨[.index file.fsId], none⟩ := if_neg outside

end traces

section files
variable {d : Drivers} {a : Answers} {file : OpenFile} {op : Op}

theorem refusesVia {cb : Callback} {arg : Option Private} {absent called : Trace} {r : Int}
    (inTable : InTable file.fsId) (lacks : ¬ HasCallback d file cb) (ret : absent.ret = some r)
    (negative : r < 0) : ∃ r, (viaDriver d file cb arg absent called).ret = some r ∧ r < 0 :=
  ⟨r, (viaDriverLacks inTable lacks).trans ret, negative⟩

theorem inTableRefuses (inTable : InTable file.fsId) (not : ¬ Applies d file op) :
    ∃ r, (perform d a file op).ret = some r ∧ r < 0 := by
  have minus : ∃ r, (value (-1)).ret = some r ∧ r < 0 := ⟨-1, rfl, by decide⟩
  cases op with
  | read buf =>
    simp only [Applies, not_and_or, not_or, not_not] at not
    simp only [perform, fsRead]
    split
    · exact minus
    · split <;> rename_i mode
      · exact minus
      · obtain ⟨none_, lacks⟩ := not.resolve_left mode
        rw [if_neg none_]
        exact refusesVia inTable lacks rfl (by decide)
  | write buf =>
    simp only [Applies, not_and_or, not_or, not_not] at not
    simp only [perform, fsWrite]
    split
    · exact minus
    · split <;> rename_i mode
      · exact minus
      · obtain ⟨none_, lacks⟩ := not.resolve_left mode
        rw [if_neg none_]
        exact refusesVia inTable lacks rfl (by decide)
  | pread buf offset | pwrite buf offset =>
    have piped : file.pipe.isSome = true := Option.isSome_iff_ne_none.mpr not
    simp only [perform, fsPread, fsPwrite, atOffset, piped, if_true]
    exact minus
  | seek offset whence => exact absurd inTable not
  | truncate =>
    simp only [Applies, not_and_or, not_not] at not
    simp only [perform, fsTruncate]
    split <;> rename_i mode
    · exact minus
    · exact refusesVia inTable (not.resolve_left mode) rfl (by decide)
  | readdir dirent =>
    simp only [perform, fsReaddir]
    split
    · exact minus
    · exact refusesVia inTable not rfl (by decide)
  | ioctl => exact refusesVia inTable not rfl (by decide)
  | mmap => exact refusesVia inTable not rfl (by decide)
  | fstat st =>
    simp only [Applies, not_or] at not
    simp only [perform, fsFstat, not.1, Bool.false_and, Bool.false_eq_true, if_false]
    split
    · exact minus
    · exact refusesVia inTable not.2 rfl (by decide)
  | fchmod =>
    simp only [Applies, not_and_or] at not
    simp only [perform, fsFchmod]
    split <;> rename_i piped
    · exact minus
    · have none_ : file.pipe = none := by simpa using piped
      exact refusesVia inTable (not.resolve_left fun not => not none_) rfl (by decide)
  | fchown => exact refusesVia inTable not rfl (by decide)
  | fstatfs buf =>
    simp only [perform, fsFstatfs]
    split
    · exact ⟨-EINVAL, rfl, by decide⟩
    · exact refusesVia inTable not rfl (by decide)
  | fchdir =>
    have path := @refusesVia d file .getpath file.filePrivate (value (-ENOSYS))
      (value (if a.ret .getpath ≠ 0 then -ENOENT else if !a.resolves then -ENOENT else 0)) (-ENOSYS)
      inTable not rfl (by decide)
    simp only [perform, fsFchdir, viaDriver, if_pos inTable]
    split
    · dsimp only [Trace.after]
      split
      · exact ⟨-EINVAL, rfl, by decide⟩
      · split
        · exact ⟨-ENOTDIR, rfl, by decide⟩
        · exact path
    · exact path
  | poll => exact absurd trivial not
  | sync => exact absurd trivial not
  | close => exact absurd trivial not

structure Backed (file : OpenFile) : Prop where
  inTable : InTable file.fsId
  mount : ∃ m, file.fsPrivate = some (.mount file.fsId m)
  node : ∃ n, file.filePrivate = some (.file file.fsId n)

structure PipeEnd (file : OpenFile) : Prop where
  sentinel : file.fsId = -1
  piped : file.pipe.isSome = true

theorem heldKinds (held : Held file) : Backed file ∨ PipeEnd file := by
  induction held with
  | opened garbage i m n mode registered => exact .inl ⟨registered, ⟨m, rfl⟩, n, rfl⟩
  | fifo i m n mode p registered => exact .inl ⟨registered, ⟨m, rfl⟩, n, rfl⟩
  | pipeEnd garbage mode p => exact .inr ⟨rfl, rfl⟩
  | used held offset refcount ih =>
    rcases ih with ⟨inTable, mount, node⟩ | ⟨sentinel, piped⟩
    · exact .inl ⟨inTable, mount, node⟩
    · exact .inr ⟨sentinel, piped⟩

theorem backedProper (backed : Backed file) (op : Op) : Proper d file op := by
  refine ⟨fun a i member => ?_, fun a i cb arg member => ?_, fun a not =>
    inTableRefuses backed.inTable not⟩
  · have same : i = file.fsId := performOn op _ member
    exact same ▸ backed.inTable
  · obtain ⟨same, own⟩ : i = file.fsId ∧ _ := performOn op _ member
    refine ⟨own, ?_⟩
    obtain ⟨m, mount⟩ := backed.mount
    obtain ⟨n, node⟩ := backed.node
    rcases own with rfl | rfl
    · exact ⟨_, node, same.symm⟩
    · exact ⟨_, mount, same.symm⟩

theorem quietProper (quiet : ∀ a, ∀ x ∈ (perform d a file op).touches, x = .pipe)
    (refuses : ∀ a, ¬ Applies d file op → ∃ r, (perform d a file op).ret = some r ∧ r < 0) :
    Proper d file op :=
  ⟨fun a _ member => (nomatch quiet a _ member), fun a _ _ _ member => (nomatch quiet a _ member),
    refuses⟩

theorem leavesTable (outside : ¬ InTable file.fsId)
    (touched : ∀ a, .index file.fsId ∈ (perform d a file op).touches) : ¬ Proper d file op :=
  fun proper => outside (proper.inside ⟨fun _ => 0, 0, false, 0, false⟩ _ (touched _))

theorem pipeEndIff (pipe : PipeEnd file) : Proper d file op ↔ Guarded file op := by
  have outside : ¬ InTable file.fsId := by
    rw [pipe.sentinel]
    decide
  have piped := pipe.piped
  have some_ : file.pipe ≠ none := Option.isSome_iff_ne_none.mp piped
  have lacks : ∀ cb, ¬ HasCallback d file cb := fun cb has => outside has.1
  have minus : ∀ r : Int, r < 0 → ∃ r', (value r).ret = some r' ∧ r' < 0 := fun r low => ⟨r, rfl, low⟩
  have silent (r : Int) (low : r < 0) (same : ∀ a, perform d a file op = value r) :
      Proper d file op := by
    refine quietProper (fun a x member => ?_) fun a _ => ?_
    · rw [same a] at member
      cases member
    · rw [same a]
      exact minus r low
  have leaves (same : ∀ a, perform d a file op = ⟨[.index file.fsId], none⟩) :
      ¬ Proper d file op := by
    refine leavesTable outside fun a => ?_
    rw [same a]
    exact List.mem_cons_self
  have via {cb : Callback} {arg : Option Private} {absent called : Trace} :
      viaDriver d file cb arg absent called = ⟨[.index file.fsId], none⟩ := viaDriverOutside outside
  cases op with
  | read buf =>
    refine iff_of_true (quietProper (fun a x member => ?_) fun a not => ?_) trivial
    · simp only [perform, fsRead, piped, if_true] at member
      split at member
      · cases member
      · split at member
        · cases member
        · exact List.mem_singleton.mp member
    · have mode : file.mode = O_WRONLY := by
        by_contra other
        exact not ⟨other, .inl piped⟩
      simp only [perform, fsRead, mode, if_true]
      split <;> exact minus _ (by decide)
  | write buf =>
    refine iff_of_true (quietProper (fun a x member => ?_) fun a not => ?_) trivial
    · simp only [perform, fsWrite, piped, if_true] at member
      split at member
      · cases member
      · split at member
        · cases member
        · exact List.mem_singleton.mp member
    · have mode : file.mode = O_RDONLY := by
        by_contra other
        exact not ⟨other, .inl piped⟩
      simp only [perform, fsWrite, mode, if_true]
      split <;> exact minus _ (by decide)
  | pread buf offset => exact iff_of_true (silent (-1) (by decide) fun _ => if_pos piped) trivial
  | pwrite buf offset => exact iff_of_true (silent (-1) (by decide) fun _ => if_pos piped) trivial
  | seek offset whence => exact iff_of_false (leaves fun _ => via) id
  | truncate =>
    by_cases mode : file.mode = O_RDONLY
    · exact iff_of_true (silent (-1) (by decide) fun _ => if_pos mode) mode
    · exact iff_of_false (leaves fun _ => (if_neg mode).trans via) mode
  | readdir dirent =>
    cases dirent with
    | false => exact iff_of_true (silent (-1) (by decide) fun _ => rfl) rfl
    | true => exact iff_of_false (leaves fun _ => via) Bool.noConfusion
  | ioctl => exact iff_of_false (leaves fun _ => via) id
  | mmap => exact iff_of_false (leaves fun _ => via) id
  | fstat st =>
    cases st with
    | false => exact iff_of_true (silent (-1) (by decide) fun _ => rfl) (.inl rfl)
    | true =>
      cases stale : file.isFifo with
      | false =>
        refine iff_of_true (quietProper (fun a x member => ?_) fun a not => ?_) (.inr stale)
        · simp only [perform, fsFstat, piped, stale] at member
          cases member
        · exact absurd (.inl piped) not
      | true =>
        refine iff_of_false (leaves fun _ => ?_) ?_
        · simp only [perform, fsFstat, piped, stale]
          exact via
        · rintro (absurd' | other)
          · cases absurd'
          · cases stale.symm.trans other
  | fchmod => exact iff_of_true (silent (-1) (by decide) fun _ => if_pos piped) trivial
  | fchown => exact iff_of_false (leaves fun _ => via) id
  | fstatfs buf =>
    cases buf with
    | false => exact iff_of_true (silent (-EINVAL) (by decide) fun _ => rfl) rfl
    | true => exact iff_of_false (leaves fun _ => via) Bool.noConfusion
  | fchdir => exact iff_of_false (leaves fun _ => via) id
  | poll =>
    refine iff_of_true (quietProper (fun a x member => ?_) fun a not => absurd trivial not) trivial
    simp only [perform, fsPoll, piped, if_true] at member
    exact List.mem_singleton.mp member
  | sync =>
    exact iff_of_true (quietProper (fun _ _ member => nomatch member) fun _ not => absurd trivial not)
      trivial
  | close =>
    by_cases last : file.refcount = 1
    · have zero : file.refcount - 1 = 0 := by omega
      cases stale : file.isFifo with
      | false =>
        refine iff_of_true (quietProper (fun a x member => ?_) fun a not => absurd trivial not)
          (.inl stale)
        simp only [perform, openFilePut, zero, piped, stale, if_true] at member
        exact List.mem_singleton.mp member
      | true =>
        refine iff_of_false (leavesTable outside fun a => ?_) ?_
        · simp only [perform, openFilePut, zero, piped, stale, if_true, via]
          exact List.mem_cons_of_mem _ List.mem_cons_self
        · rintro (other | other)
          · cases stale.symm.trans other
          · exact other last
    · have more : file.refcount - 1 ≠ 0 := by omega
      refine iff_of_true (quietProper (fun a x member => ?_) fun a not => absurd trivial not)
        (.inr last)
      simp only [perform, openFilePut, more, if_false] at member
      cases member

/-- For every driver table, every open file there can be and every call: the call stays in the
table and with the file's own data, and is refused where it does not apply, just when the
file is a driver's or the call looks at the pipe first. -/
theorem properIff (d : Drivers) (file : OpenFile) (op : Op) (held : Held file) :
    Proper d file op ↔ file.fsId ≠ -1 ∨ Guarded file op := by
  rcases heldKinds held with backed | pipe
  · refine iff_of_true (backedProper backed op) (.inl fun sentinel => ?_)
    have low := backed.inTable.1
    omega
  · rw [pipeEndIff pipe]
    simp only [pipe.sentinel, ne_eq, not_true_eq_false, false_or]

end files

def readEnd : OpenFile := {allocOpenFile false (-1) none none O_RDONLY with pipe := some 0}

theorem readEndRead : Proper (fun _ _ => true) readEnd (.read true) :=
  (properIff (fun _ _ => true) readEnd (.read true) (.pipeEnd false O_RDONLY 0)).mpr (.inr trivial)

/-- readdir of a pipe indexes the table at -1. -/
theorem readdirOfPipe : ¬ ∀ d file op, Held file → Proper d file op := by
  intro claimed
  have proper := claimed (fun _ _ => true) readEnd (.readdir true) (.pipeEnd false O_RDONLY 0)
  have inside := proper.inside ⟨fun _ => 0, 0, false, 0, false⟩ (-1) (by decide)
  exact absurd inside (by decide)

end Scepter.DescriptorOps
