import Mathlib.Logic.Function.Basic
import Scepter.Lib.Run
import Scepter.Lib.Tally

/-! Open files, descriptor tables and the locks that hang on open files (fs/vfs.c,
kernel/process.c, the release half of fs/locks.c). Descriptor entries of all tasks
share open files by reference count; the last close releases the locks. -/
namespace Scepter.OpenFiles

/- What `file_private` leads to, with what the driver's fstat makes of it: minix3,
ext2 and tmpfs answer the inode number, procfs 1 for every file, devfs the index of
the node, and devfs has no node and no answer for its root directory. -/
inductive Node where
  | inode (number : Nat)
  | proc (path : Nat)
  | dev (index : Nat)
  | devRoot
  deriving DecidableEq

def fstatInode : Node → Option Nat
  | .inode number => some number
  | .proc _ => some 1
  | .dev index => some (index + 1)
  | .devRoot => none

-- LOCK_SH and LOCK_EX; an open file without a flock has type 0 in the source.
inductive FlockType where
  | sh
  | ex
  deriving DecidableEq

-- F_RDLCK and F_WRLCK, the types a record on the list can have.
inductive RecType where
  | rdlck
  | wrlck
  deriving DecidableEq

-- flock_rec_t
structure FlockRec where
  type : RecType
  start : BitVec 32
  len : BitVec 32
  owner : Nat
  deriving DecidableEq

structure OpenFile where
  fsId : Int
  fsPrivate : Nat
  node : Node
  pipe : Option Nat
  offset : BitVec 32
  refcount : Nat
  flockType : Option FlockType
  flockOwner : Nat
  locks : List FlockRec

structure FdEntry where
  fd : Int
  file : Nat
  cloexec : Bool
  deriving DecidableEq

-- A call blocked on lock_wq: the locals its loop goes round with.
inductive Wait where
  | flock (file : Nat) (type : FlockType)
  | setlk (file : Nat) (type : RecType) (start len : BitVec 32)
  deriving DecidableEq

def Wait.file : Wait → Nat
  | .flock file _ => file
  | .setlk file .. => file

inductive Phase where
  | ready
  | asleep (wait : Wait)
  | woken (wait : Wait)
  | exited
  deriving DecidableEq

structure Task where
  pid : Nat
  files : List FdEntry
  phase : Phase
  deriving DecidableEq

-- `files` is every open file ever allocated, the first `next` of them.
structure State where
  files : Nat → OpenFile
  next : Nat
  tasks : List Task

def noFile : OpenFile := ⟨-1, 0, .devRoot, none, 0, 0, none, 0, []⟩

def setOpen (s : State) (id : Nat) (file : OpenFile) : State :=
  {s with files := Function.update s.files id file}

def setTask (s : State) (t : Nat) (task : Task) : State :=
  {s with tasks := s.tasks.set t task}

/-! ## Release -/

def Task.wake (task : Task) : Task :=
  match task.phase with
  | .asleep wait => {task with phase := .woken wait}
  | _ => task

-- wake_up(&lock_wq)
def wakeLocks (s : State) : State := {s with tasks := s.tasks.map Task.wake}

-- The two halves of locks_release_file.
def releaseRecords (s : State) (id : Nat) : State :=
  if (s.files id).locks ≠ [] then wakeLocks (setOpen s id {s.files id with locks := []}) else s

def releaseFlock (s : State) (id : Nat) : State :=
  if (s.files id).flockType ≠ none then
    wakeLocks (setOpen s id {s.files id with flockType := none, flockOwner := 0})
  else s

def locksReleaseFile (s : State) (id : Nat) : State := releaseFlock (releaseRecords s id) id

def openFilePut (s : State) (id : Nat) : State :=
  let refcount := (s.files id).refcount - 1
  let s := setOpen s id {s.files id with refcount := refcount}
  if refcount = 0 then locksReleaseFile s id else s

/-! ## Descriptors -/

def findFdEntry (task : Task) (fd : Int) : Option FdEntry := task.files.find? fun e => e.fd = fd

-- open_file_put and free_fd_entry of the first entry numbered `fd`.
def fsClose (s : State) (t : Nat) (fd : Int) : State :=
  match s.tasks[t]? with
  | none => s
  | some task =>
    match findFdEntry task fd with
    | none => s
    | some e =>
      let s := openFilePut s e.file
      {s with tasks := s.tasks.modify t fun task =>
        {task with files := task.files.eraseP fun e => e.fd = fd}}

def addEntry (s : State) (t : Nat) (task : Task) (e : FdEntry) : State :=
  setTask s t {task with files := task.files ++ [e]}

-- alloc_open_file and alloc_fd_entry; `file` says what was opened.
def fsOpen (s : State) (t : Nat) (task : Task) (fd : Int) (file : OpenFile) : State :=
  let file := {file with offset := 0, refcount := 1, flockType := none, flockOwner := 0, locks := []}
  let id := s.next
  addEntry {setOpen s id file with next := id + 1} t task ⟨fd, id, false⟩

def takeRef (s : State) (id : Nat) : State :=
  setOpen s id {s.files id with refcount := (s.files id).refcount + 1}

-- fs_dup_min: another entry for the file of `fd`, under a number not in use.
def fsDup (s : State) (t : Nat) (task : Task) (fd newfd : Int) (cloexec : Bool) : State :=
  match findFdEntry task fd with
  | none => s
  | some e => addEntry (takeRef s e.file) t task ⟨newfd, e.file, cloexec⟩

-- fs_dup2_fd: `newfd` is closed before the new entry is allocated.
def fsDup2 (s : State) (t : Nat) (task : Task) (oldfd newfd : Int) (cloexec allocFails : Bool) :
    State :=
  match findFdEntry task oldfd with
  | none => s
  | some e =>
    if oldfd = newfd then
      setTask s t {task with files := task.files.map fun e =>
        if e.fd = oldfd then {e with cloexec := cloexec} else e}
    else
      let s := fsClose s t newfd
      match s.tasks[t]? with
      | none => s
      | some task =>
        if allocFails then s else addEntry (takeRef s e.file) t task ⟨newfd, e.file, cloexec⟩

-- The descriptor part of a fork that succeeds: the child shares every open file.
def sysFork (s : State) (task : Task) (pid : Nat) : State :=
  let shared := task.files.foldl (fun s e => takeRef s e.file) s
  {shared with tasks := shared.tasks ++ [⟨pid, task.files, .ready⟩]}

def closeAll (s : State) (t : Nat) (fds : List Int) : State :=
  fds.foldl (fun s fd => fsClose s t fd) s

def fsCloseOnExec (s : State) (t : Nat) (task : Task) : State :=
  closeAll s t ((task.files.filter FdEntry.cloexec).map FdEntry.fd)

def doExit (s : State) (t : Nat) (task : Task) : State :=
  let s := closeAll s t (task.files.map FdEntry.fd)
  {s with tasks := s.tasks.modify t fun task => {task with phase := .exited}}

/-! ## Reference counts -/

def Task.refs (task : Task) (id : Nat) : Nat := task.files.countP fun e => e.file = id

def refs (tasks : List Task) (id : Nat) : Nat := (tasks.map fun task => task.refs id).sum

/- The count of an open file is the number of entries for it; with none left its locks
are gone; and a blocked call keeps the entry it came through. -/
structure Refs (s : State) : Prop where
  counts : ∀ id, (s.files id).refcount = refs s.tasks id
  released : ∀ id, (s.files id).refcount = 0 → (s.files id).flockType = none ∧ (s.files id).locks = []
  fresh : ∀ id, s.next ≤ id → (s.files id).refcount = 0
  held : ∀ task ∈ s.tasks, ∀ wait, task.phase = .asleep wait ∨ task.phase = .woken wait →
    ∃ e ∈ task.files, e.file = wait.file

-- The lock state of no open file has grown and none has become another file.
def Fades (before after : OpenFile) : Prop :=
  after.locks = [] ∧ after.flockType = none ∨
  after.fsId = before.fsId ∧ after.fsPrivate = before.fsPrivate ∧ after.node = before.node ∧
    after.pipe = before.pipe ∧ after.locks ⊆ before.locks ∧
    (after.flockType = before.flockType ∨ after.flockType = none)

def Shrinks (s t : State) : Prop := ∀ id, Fades (s.files id) (t.files id)

theorem fadesRefl (file : OpenFile) : Fades file file :=
  .inr ⟨rfl, rfl, rfl, rfl, List.Subset.refl _, .inl rfl⟩

theorem fadesTrans {a b c : OpenFile} (first : Fades a b) (second : Fades b c) : Fades a c := by
  rcases second with gone | ⟨fsId, fsPrivate, node, pipe, locks, type⟩
  · exact .inl gone
  · rcases first with ⟨noLocks, noType⟩ | ⟨fsId', fsPrivate', node', pipe', locks', type'⟩
    · left
      rw [noLocks] at locks
      refine ⟨List.eq_nil_of_subset_nil locks, ?_⟩
      rcases type with same | zero
      · rw [same, noType]
      · exact zero
    · right
      refine ⟨fsId.trans fsId', fsPrivate.trans fsPrivate', node.trans node', pipe.trans pipe',
        fun _ member => locks' (locks member), ?_⟩
      rcases type with same | zero
      · rwa [same]
      · exact .inr zero

theorem shrinksRefl (s : State) : Shrinks s s := fun id => fadesRefl (s.files id)

theorem shrinksTrans {s t u : State} (first : Shrinks s t) (second : Shrinks t u) : Shrinks s u :=
  fun id => fadesTrans (first id) (second id)

theorem shrinksUpdate {s : State} {id : Nat} {file : OpenFile} (fades : Fades (s.files id) file) :
    Shrinks s (setOpen s id file) := by
  intro other
  simp only [setOpen, Function.update_apply]
  split
  · rename_i same
    exact same ▸ fades
  · exact fadesRefl _

/-! ## Counting entries -/

theorem refsModify {tasks : List Task} {t : Nat} {task : Task} (change : Task → Task)
    (found : tasks[t]? = some task) (id : Nat) :
    refs (tasks.modify t change) id + task.refs id = refs tasks id + (change task).refs id :=
  Tally.totalModify (fun task => task.refs id) change found

theorem refsSame {tasks : List Task} {t : Nat} (change : Task → Task)
    (same : ∀ task, (change task).files = task.files) (id : Nat) :
    refs (tasks.modify t change) id = refs tasks id := by
  cases found : tasks[t]? with
  | none =>
    rw [List.modify_eq_self]
    exact List.getElem?_eq_none_iff.mp found
  | some task =>
    have moved := refsModify change found id
    simp only [Task.refs, same] at moved
    omega

theorem setIsModify {tasks : List Task} {t : Nat} {task : Task} :
    tasks.set t task = tasks.modify t fun _ => task := by
  induction tasks generalizing t with
  | nil => simp
  | cons first rest ih =>
    cases t with
    | zero => rfl
    | succ t => simp [ih]

theorem refsSet {tasks : List Task} {t : Nat} {task : Task} (task' : Task)
    (found : tasks[t]? = some task) (id : Nat) :
    refs (tasks.set t task') id + task.refs id = refs tasks id + task'.refs id := by
  rw [setIsModify]
  exact refsModify _ found id

theorem refsLe {tasks : List Task} {task : Task} (member : task ∈ tasks) (id : Nat) :
    task.refs id ≤ refs tasks id :=
  Tally.weightLe (fun task => task.refs id) member

theorem entryHeld {s : State} (counted : Refs s) {task : Task} (member : task ∈ s.tasks)
    {e : FdEntry} (entry : e ∈ task.files) : 0 < (s.files e.file).refcount := by
  have one : 0 < task.refs e.file := List.countP_pos_iff.mpr ⟨e, entry, by simp⟩
  have all := refsLe member e.file
  rw [counted.counts]
  omega

-- The entry found by number is the one that free_fd_entry takes out.
theorem eraseRefs {entries : List FdEntry} {fd : Int} {e : FdEntry}
    (found : entries.find? (fun e => e.fd = fd) = some e) (id : Nat) :
    (entries.eraseP fun e => e.fd = fd).countP (fun e => e.file = id) +
      (if e.file = id then 1 else 0) = entries.countP fun e => e.file = id := by
  induction entries with
  | nil => simp at found
  | cons first rest ih =>
    rw [List.find?_cons] at found
    split at found
    · rename_i hit
      cases found
      rw [show (e :: rest).eraseP (fun e => decide (e.fd = fd)) = rest from
        List.eraseP_cons_of_pos hit, List.countP_cons]
      simp
    · rename_i miss
      have later := ih found
      rw [show (first :: rest).eraseP (fun e => decide (e.fd = fd)) =
        first :: rest.eraseP (fun e => decide (e.fd = fd)) from
        List.eraseP_cons_of_neg (by simp [miss]), List.countP_cons, List.countP_cons]
      omega

/-! ## Wake-ups -/

def WakeOnly (wake : Task → Task) : Prop :=
  ∀ task, (wake task).files = task.files ∧ ((wake task).phase = task.phase ∨
    ∃ wait, task.phase = .asleep wait ∧ (wake task).phase = .woken wait)

theorem wakeOnlyId : WakeOnly id := fun _ => ⟨rfl, .inl rfl⟩

theorem wakeOnlyWake : WakeOnly Task.wake := by
  intro task
  unfold Task.wake
  split
  · rename_i wait asleep
    exact ⟨rfl, .inr ⟨wait, asleep, rfl⟩⟩
  · exact ⟨rfl, .inl rfl⟩

theorem wakeOnlyComp {f g : Task → Task} (first : WakeOnly f) (second : WakeOnly g) :
    WakeOnly (g ∘ f) := by
  intro task
  obtain ⟨files, phase⟩ := first task
  obtain ⟨files', phase'⟩ := second (f task)
  refine ⟨files'.trans files, ?_⟩
  rcases phase with same | ⟨wait, asleep, woken⟩
  · simpa only [Function.comp, same] using phase'
  · rcases phase' with same' | ⟨wait', asleep', -⟩
    · exact .inr ⟨wait, asleep, same'.trans woken⟩
    · rw [woken] at asleep'
      contradiction

theorem wakeRefs {wake : Task → Task} (only : WakeOnly wake) (tasks : List Task) (id : Nat) :
    refs (tasks.map wake) id = refs tasks id := by
  simp only [refs, List.map_map]
  congr 2
  funext task
  simp only [Function.comp, Task.refs, (only task).1]

theorem wakeHeld {wake : Task → Task} (only : WakeOnly wake) {task : Task}
    (held : ∀ wait, task.phase = .asleep wait ∨ task.phase = .woken wait →
      ∃ e ∈ task.files, e.file = wait.file) :
    ∀ wait, (wake task).phase = .asleep wait ∨ (wake task).phase = .woken wait →
      ∃ e ∈ (wake task).files, e.file = wait.file := by
  intro wait waiting
  obtain ⟨files, phase⟩ := only task
  rw [files]
  rcases phase with same | ⟨wait', asleep, woken⟩
  · exact held wait (same ▸ waiting)
  · rw [woken] at waiting
    rcases waiting with no | yes
    · contradiction
    · cases yes
      exact held _ (.inl asleep)

theorem wakeReady {wake : Task → Task} (only : WakeOnly wake) {task : Task}
    (ready : task.phase = .ready) : (wake task).phase = .ready := by
  rcases (only task).2 with same | ⟨wait, asleep, -⟩
  · exact same.trans ready
  · rw [ready] at asleep
    contradiction

/-! ## The last reference releases the locks -/

-- Only the open file `id` changes, and sleepers may be woken.
structure Touches (s t : State) (id : Nat) : Prop where
  tasks : ∃ wake, WakeOnly wake ∧ t.tasks = s.tasks.map wake
  next : t.next = s.next
  others : ∀ other, other ≠ id → t.files other = s.files other

theorem touchesRefl (s : State) (id : Nat) : Touches s s id :=
  ⟨⟨_, wakeOnlyId, by simp⟩, rfl, fun _ _ => rfl⟩

theorem touchesTrans {s t u : State} {id : Nat} (first : Touches s t id) (second : Touches t u id) :
    Touches s u id := by
  obtain ⟨wake, only, tasks⟩ := first.tasks
  obtain ⟨wake', only', tasks'⟩ := second.tasks
  refine ⟨⟨_, wakeOnlyComp only only', by simp [tasks, tasks']⟩, second.next.trans first.next, ?_⟩
  intro other differ
  rw [second.others other differ, first.others other differ]

theorem setOpenTouches (s : State) (id : Nat) (file : OpenFile) : Touches s (setOpen s id file) id :=
  ⟨⟨_, wakeOnlyId, by simp [setOpen]⟩, rfl, fun _ differ => Function.update_of_ne differ ..⟩

theorem wakeLocksTouches (s : State) (id : Nat) : Touches s (wakeLocks s) id :=
  ⟨⟨_, wakeOnlyWake, rfl⟩, rfl, fun _ _ => rfl⟩

theorem releaseRecordsSpec (s : State) (id : Nat) :
    Touches s (releaseRecords s id) id ∧
      (releaseRecords s id).files id = {s.files id with locks := []} := by
  unfold releaseRecords
  split
  · refine ⟨touchesTrans (setOpenTouches s id _) (wakeLocksTouches _ id), ?_⟩
    simp [wakeLocks, setOpen]
  · rename_i none
    refine ⟨touchesRefl s id, ?_⟩
    simp [← not_ne_iff.mp none]

theorem releaseFlockSpec (s : State) (id : Nat) :
    Touches s (releaseFlock s id) id ∧ ∃ owner,
      (releaseFlock s id).files id = {s.files id with flockType := none, flockOwner := owner} := by
  unfold releaseFlock
  split
  · refine ⟨touchesTrans (setOpenTouches s id _) (wakeLocksTouches _ id), 0, ?_⟩
    simp [wakeLocks, setOpen]
  · rename_i none
    refine ⟨touchesRefl s id, (s.files id).flockOwner, ?_⟩
    simp [← not_ne_iff.mp none]

theorem putSpec (s : State) (id : Nat) :
    Touches s (openFilePut s id) id ∧
      ((openFilePut s id).files id).refcount = (s.files id).refcount - 1 ∧
      Fades (s.files id) ((openFilePut s id).files id) ∧
      ((s.files id).refcount - 1 = 0 →
        ((openFilePut s id).files id).flockType = none ∧ ((openFilePut s id).files id).locks = []) := by
  have counted := setOpenTouches s id {s.files id with refcount := (s.files id).refcount - 1}
  unfold openFilePut locksReleaseFile
  simp only
  split
  · obtain ⟨records, noLocks⟩ := releaseRecordsSpec
      (setOpen s id {s.files id with refcount := (s.files id).refcount - 1}) id
    obtain ⟨flock, owner, noFlock⟩ := releaseFlockSpec
      (releaseRecords (setOpen s id {s.files id with refcount := (s.files id).refcount - 1}) id) id
    rw [noFlock, noLocks]
    refine ⟨touchesTrans counted (touchesTrans records flock), ?_, .inl ⟨rfl, rfl⟩,
      fun _ => ⟨rfl, rfl⟩⟩
    simp [setOpen]
  · rename_i more
    refine ⟨counted, by simp [setOpen], ?_, fun zero => absurd zero more⟩
    simp only [setOpen, Function.update_self]
    exact .inr ⟨rfl, rfl, rfl, rfl, List.Subset.refl _, .inl rfl⟩

/-! ## The descriptor calls keep the counts and take no lock -/

def Ready (s : State) (t : Nat) : Prop := ∀ task, s.tasks[t]? = some task → task.phase = .ready

structure Keeps (s u : State) : Prop where
  counted : Refs u
  shrinks : Shrinks s u

theorem keepsTrans {s u v : State} (first : Keeps s u) (second : Keeps u v) : Keeps s v :=
  ⟨second.counted, shrinksTrans first.shrinks second.shrinks⟩

theorem memModify {tasks : List Task} {t : Nat} {change : Task → Task} {task : Task}
    (member : task ∈ tasks.modify t change) :
    (∃ old, tasks[t]? = some old ∧ task = change old) ∨ task ∈ tasks := by
  obtain ⟨j, found⟩ := List.mem_iff_getElem?.mp member
  rw [List.getElem?_modify] at found
  split at found
  · rename_i same
    obtain ⟨old, foundOld, rfl⟩ := Option.map_eq_some_iff.mp found
    exact .inl ⟨old, same ▸ foundOld, rfl⟩
  · right
    simp only [Option.map_eq_map, Option.map_id_fun', id] at found
    exact List.mem_of_getElem? found

theorem closeKeeps {s : State} {t : Nat} (fd : Int) (counted : Refs s) (ready : Ready s t) :
    Keeps s (fsClose s t fd) ∧ Ready (fsClose s t fd) t := by
  unfold fsClose
  split
  · exact ⟨⟨counted, shrinksRefl s⟩, ready⟩
  rename_i task foundTask
  split
  · exact ⟨⟨counted, shrinksRefl s⟩, ready⟩
  rename_i e foundE
  obtain ⟨touches, count, fades, released⟩ := putSpec s e.file
  obtain ⟨wake, only, tasks⟩ := touches.tasks
  have foundWoken : (s.tasks.map wake)[t]? = some (wake task) := by simp [foundTask]
  have readyWoken : (wake task).phase = .ready := wakeReady only (ready task foundTask)
  simp only [tasks]
  refine ⟨⟨⟨?_, ?_, ?_, ?_⟩, ?_⟩, ?_⟩
  · intro id
    have moved := refsModify (fun task =>
      {task with files := task.files.eraseP fun e => e.fd = fd}) foundWoken id
    have erased := eraseRefs foundE id
    rw [wakeRefs only] at moved
    simp only [Task.refs, (only task).1] at moved
    have before := counted.counts id
    rcases eq_or_ne e.file id with rfl | differ
    · simp only [if_true] at erased
      simp only
      omega
    · simp only [differ, if_false] at erased
      simp only [touches.others id differ.symm]
      omega
  · intro id zero
    simp only at zero ⊢
    rcases eq_or_ne id e.file with rfl | differ
    · exact released (count.symm.trans zero)
    · rw [touches.others id differ] at zero ⊢
      exact counted.released id zero
  · intro id later
    simp only [touches.next] at later ⊢
    have none := counted.fresh id later
    rcases eq_or_ne id e.file with rfl | differ
    · omega
    · rw [touches.others id differ]
      exact none
  · intro other member
    rcases memModify member with ⟨old, foundOld, rfl⟩ | memberOld
    · rw [foundWoken] at foundOld
      cases foundOld
      intro wait waiting
      simp [readyWoken] at waiting
    · obtain ⟨old, memberSame, rfl⟩ := List.mem_map.mp memberOld
      exact wakeHeld only (counted.held old memberSame)
  · intro id
    rcases eq_or_ne id e.file with rfl | differ
    · exact fades
    · simp only [touches.others id differ]
      exact fadesRefl _
  · intro after foundAfter
    simp only [List.getElem?_modify, foundWoken] at foundAfter
    simp at foundAfter
    rw [← foundAfter]
    exact readyWoken

theorem closeAllKeeps {s : State} {t : Nat} (fds : List Int) (counted : Refs s)
    (ready : Ready s t) : Keeps s (closeAll s t fds) ∧ Ready (closeAll s t fds) t := by
  induction fds generalizing s with
  | nil => exact ⟨⟨counted, shrinksRefl s⟩, ready⟩
  | cons fd rest ih =>
    obtain ⟨keeps, ready'⟩ := closeKeeps fd counted ready
    obtain ⟨later, ready''⟩ := ih keeps.counted ready'
    exact ⟨keepsTrans keeps later, ready''⟩

@[simp] theorem takeRefTasks (s : State) (id : Nat) : (takeRef s id).tasks = s.tasks := rfl
@[simp] theorem takeRefNext (s : State) (id : Nat) : (takeRef s id).next = s.next := rfl

theorem takeRefCount (s : State) (id other : Nat) :
    ((takeRef s id).files other).refcount =
      (s.files other).refcount + if id = other then 1 else 0 := by
  simp only [takeRef, setOpen, Function.update_apply]
  rcases eq_or_ne other id with rfl | differ
  · simp
  · simp [differ, differ.symm]

theorem takeRefShrinks (s : State) (id : Nat) : Shrinks s (takeRef s id) :=
  shrinksUpdate (.inr ⟨rfl, rfl, rfl, rfl, List.Subset.refl _, .inl rfl⟩)

-- A reference count going up leaves what is released as it was.
theorem takeRefReleased {s : State} {id : Nat}
    (released : ∀ other, (s.files other).refcount = 0 →
      (s.files other).flockType = none ∧ (s.files other).locks = []) (other : Nat)
    (zero : ((takeRef s id).files other).refcount = 0) :
    ((takeRef s id).files other).flockType = none ∧ ((takeRef s id).files other).locks = [] := by
  rw [takeRefCount] at zero
  have differ : other ≠ id := by
    rintro rfl
    simp at zero
  simp only [takeRef, setOpen, Function.update_of_ne differ]
  exact released other (by omega)

theorem setRefs {s : State} {t : Nat} {task task' : Task} {files : Nat → OpenFile} {next : Nat}
    (counted : Refs s) (found : s.tasks[t]? = some task) (ready : task'.phase = .ready)
    (counts : ∀ id, (files id).refcount + task.refs id = (s.files id).refcount + task'.refs id)
    (released : ∀ id, (files id).refcount = 0 → (files id).flockType = none ∧ (files id).locks = [])
    (fresh : ∀ id, next ≤ id → (files id).refcount = 0) :
    Refs ⟨files, next, s.tasks.set t task'⟩ where
  counts := by
    intro id
    have moved := refsSet task' found id
    have before := counted.counts id
    have now := counts id
    simp only
    omega
  released := released
  fresh := fresh
  held := by
    intro other member wait waiting
    rcases List.mem_or_eq_of_mem_set member with old | rfl
    · exact counted.held other old wait waiting
    · simp [ready] at waiting

theorem dupEntryKeeps {s : State} {t : Nat} {task : Task} {e : FdEntry} (fd : Int) (cloexec : Bool)
    (counted : Refs s) (found : s.tasks[t]? = some task) (ready : task.phase = .ready)
    (entry : 0 < (s.files e.file).refcount) :
    Keeps s (addEntry (takeRef s e.file) t task ⟨fd, e.file, cloexec⟩) := by
  refine ⟨setRefs (s := s) counted found ready ?_ (takeRefReleased counted.released) ?_,
    takeRefShrinks s e.file⟩
  · intro id
    rw [takeRefCount]
    simp only [Task.refs, List.countP_append, List.countP_singleton, decide_eq_true_eq]
    omega
  · intro id later
    have none := counted.fresh id later
    rw [takeRefCount]
    split
    · rename_i same
      subst same
      omega
    · omega

theorem openKeeps {s : State} {t : Nat} {task : Task} (fd : Int) (file : OpenFile)
    (counted : Refs s) (found : s.tasks[t]? = some task) (ready : task.phase = .ready) :
    Keeps s (fsOpen s t task fd file) := by
  have unused := counted.fresh s.next (Nat.le_refl _)
  refine ⟨setRefs (s := s) counted found ready ?_ ?_ ?_, ?_⟩
  · intro id
    simp only [setOpen, Function.update_apply, Task.refs, List.countP_append,
      List.countP_singleton, decide_eq_true_eq]
    rcases eq_or_ne id s.next with rfl | differ
    · simp only [if_true]
      omega
    · simp [differ, differ.symm]
  · intro id
    simp only [setOpen, Function.update_apply]
    split
    · simp
    · exact counted.released id
  · intro id later
    replace later : s.next + 1 ≤ id := later
    have differ : id ≠ s.next := by omega
    simp only [setOpen, Function.update_of_ne differ]
    exact counted.fresh id (by omega)
  · exact shrinksUpdate (s := s) (.inl ⟨rfl, rfl⟩)

theorem foundMember {task : Task} {fd : Int} {e : FdEntry} (found : findFdEntry task fd = some e) :
    e ∈ task.files := List.mem_of_find?_eq_some found

theorem dupKeeps {s : State} {t : Nat} {task : Task} (fd newfd : Int) (cloexec : Bool)
    (counted : Refs s) (found : s.tasks[t]? = some task) (ready : task.phase = .ready) :
    Keeps s (fsDup s t task fd newfd cloexec) := by
  unfold fsDup
  split
  · exact ⟨counted, shrinksRefl s⟩
  · rename_i e foundE
    exact dupEntryKeeps newfd cloexec counted found ready
      (entryHeld counted (List.mem_of_getElem? found) (foundMember foundE))

-- A close takes out no entry of another number.
theorem closeOthers {s : State} {t : Nat} {task : Task} {fd : Int} {e : FdEntry}
    (found : s.tasks[t]? = some task) (entry : e ∈ task.files) (differ : e.fd ≠ fd) :
    ∀ task', (fsClose s t fd).tasks[t]? = some task' → e ∈ task'.files := by
  intro task' found'
  simp only [fsClose, found] at found'
  split at found'
  · rw [found] at found'
    exact Option.some.inj found' ▸ entry
  · rename_i f foundF
    obtain ⟨wake, only, tasks⟩ := (putSpec s f.file).1.tasks
    simp only [tasks, List.getElem?_modify, List.getElem?_map, found] at found'
    simp only [Option.map_eq_map, Option.map_some, if_true, Option.some.injEq] at found'
    rw [← found', (only task).1]
    exact (List.mem_eraseP_of_neg (by simpa using differ)).mpr entry

theorem dup2Keeps {s : State} {t : Nat} {task : Task} (oldfd newfd : Int)
    (cloexec allocFails : Bool) (counted : Refs s) (found : s.tasks[t]? = some task)
    (ready : task.phase = .ready) : Keeps s (fsDup2 s t task oldfd newfd cloexec allocFails) := by
  have readyT : Ready s t := by
    intro other foundOther
    rw [found] at foundOther
    exact Option.some.inj foundOther ▸ ready
  unfold fsDup2
  split
  · exact ⟨counted, shrinksRefl s⟩
  rename_i e foundE
  split
  · refine ⟨setRefs (s := s) counted found ready ?_ counted.released counted.fresh, shrinksRefl s⟩
    intro id
    simp only [Task.refs, List.countP_map]
    congr 2
    funext e
    simp only [Function.comp]
    split <;> rfl
  · obtain ⟨closed, readyC⟩ := closeKeeps newfd counted readyT
    simp only
    split
    · exact closed
    · rename_i task' found'
      split
      · exact closed
      · refine keepsTrans closed (dupEntryKeeps newfd cloexec closed.counted found'
          (readyC task' found') (entryHeld closed.counted (List.mem_of_getElem? found') ?_))
        have number : e.fd = oldfd := by simpa using List.find?_some foundE
        exact closeOthers found (foundMember foundE) (by rwa [number]) task' found'

/-! Fork: each entry of the parent takes a reference, and the child holds them all. -/

theorem sharedFiles (entries : List FdEntry) (s : State) :
    (entries.foldl (fun s e => takeRef s e.file) s).tasks = s.tasks ∧
      (entries.foldl (fun s e => takeRef s e.file) s).next = s.next ∧
      ∀ id, ((entries.foldl (fun s e => takeRef s e.file) s).files id).refcount =
        (s.files id).refcount + entries.countP fun e => e.file = id := by
  induction entries generalizing s with
  | nil => simp
  | cons e rest ih =>
    obtain ⟨tasks, next, counts⟩ := ih (takeRef s e.file)
    refine ⟨tasks, next, ?_⟩
    intro id
    rw [List.foldl_cons, counts id, takeRefCount, List.countP_cons]
    simp only [decide_eq_true_eq]
    omega

theorem sharedShrinks (entries : List FdEntry) (s : State) :
    Shrinks s (entries.foldl (fun s e => takeRef s e.file) s) := by
  induction entries generalizing s with
  | nil => exact shrinksRefl s
  | cons e rest ih => exact shrinksTrans (takeRefShrinks s e.file) (ih (takeRef s e.file))

theorem sharedReleased (entries : List FdEntry) {s : State}
    (released : ∀ id, (s.files id).refcount = 0 →
      (s.files id).flockType = none ∧ (s.files id).locks = []) (id : Nat)
    (zero : ((entries.foldl (fun s e => takeRef s e.file) s).files id).refcount = 0) :
    ((entries.foldl (fun s e => takeRef s e.file) s).files id).flockType = none ∧
      ((entries.foldl (fun s e => takeRef s e.file) s).files id).locks = [] := by
  induction entries generalizing s with
  | nil => exact released id zero
  | cons e rest ih => exact ih (takeRefReleased released) zero

theorem forkKeeps {s : State} {task : Task} (pid : Nat) (counted : Refs s)
    (member : task ∈ s.tasks) : Keeps s (sysFork s task pid) := by
  obtain ⟨tasks, next, counts⟩ := sharedFiles task.files s
  refine ⟨⟨?_, sharedReleased task.files counted.released, ?_, ?_⟩, sharedShrinks task.files s⟩
  · intro id
    have before := counted.counts id
    simp only [sysFork, tasks, counts id, refs, List.map_append, List.sum_append, List.map_cons,
      List.map_nil, List.sum_singleton, Task.refs] at before ⊢
    omega
  · intro id later
    have none := counted.fresh id (next ▸ later)
    have unused : task.files.countP (fun e => e.file = id) = 0 := by
      refine List.countP_eq_zero.mpr fun e entry => ?_
      have held := entryHeld counted member entry
      rintro same
      rw [decide_eq_true_eq] at same
      rw [same] at held
      omega
    change ((task.files.foldl (fun s e => takeRef s e.file) s).files id).refcount = 0
    rw [counts id, none, unused]
  · intro other inTasks wait waiting
    simp only [sysFork, tasks] at inTasks
    rcases List.mem_append.mp inTasks with old | child
    · exact counted.held other old wait waiting
    · rw [List.mem_singleton.mp child] at waiting
      simp at waiting

theorem exitKeeps {s : State} {t : Nat} {task : Task} (counted : Refs s)
    (found : s.tasks[t]? = some task) (ready : task.phase = .ready) :
    Keeps s (doExit s t task) := by
  have readyT : Ready s t := by
    intro other foundOther
    rw [found] at foundOther
    exact Option.some.inj foundOther ▸ ready
  obtain ⟨keeps, -⟩ := closeAllKeeps (task.files.map FdEntry.fd) counted readyT
  refine ⟨⟨?_, keeps.counted.released, keeps.counted.fresh, ?_⟩, keeps.shrinks⟩
  · intro id
    exact (keeps.counted.counts id).trans
      (refsSame (fun task => {task with phase := .exited}) (fun _ => rfl) id).symm
  · intro other member wait waiting
    rcases memModify member with ⟨old, foundOld, rfl⟩ | old
    · simp at waiting
    · exact keeps.counted.held other old wait waiting

theorem execKeeps {s : State} {t : Nat} {task : Task} (counted : Refs s) (ready : Ready s t) :
    Keeps s (fsCloseOnExec s t task) :=
  (closeAllKeeps _ counted ready).1

end Scepter.OpenFiles
