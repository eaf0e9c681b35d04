import Scepter.Fs.OpenFiles
import Scepter.Lib.Tally

/-! Descriptor numbers and reference counts (fs/vfs.c, fork in kernel/process.c),
with the error paths. A counted reference is a descriptor entry of some task; the
numbers come from a task's next_fd, which dup2 and F_DUPFD push up. `releases`
counts how often an open file has been freed, and `clash` tells that a number was
handed out that was in use; the code has neither. sys_exec opens and closes its
binary as any task does, and then closes what is marked. -/
namespace Scepter.Descriptors
open OpenFiles (FdEntry)

def INT_MAX : Int := 2 ^ 31 - 1

def cInt (n : Int) : Int := n.bmod (2 ^ 32)

/-- `nofile` is RLIMIT_NOFILE as an int, `none` for RLIM_INFINITY. -/
structure Task where
  files : List FdEntry
  nextFd : Int
  nofile : Option Int
  exited : Bool

structure File where
  refcount : Int
  releases : Nat

structure State where
  files : Nat → File
  next : Nat
  tasks : List Task
  clash : Bool

def setFile (s : State) (id : Nat) (file : File) : State :=
  {s with files := Function.update s.files id file}

def takeRef (s : State) (id : Nat) : State :=
  setFile s id ⟨(s.files id).refcount + 1, (s.files id).releases⟩

def openFilePut (s : State) (id : Nat) : State :=
  let refcount := (s.files id).refcount - 1
  let releases := (s.files id).releases
  setFile s id ⟨refcount, if refcount = 0 then releases + 1 else releases⟩

-- kfree of an open file that no entry has been made for
def kfreeFile (s : State) (id : Nat) : State := setFile s id ⟨0, (s.files id).releases + 1⟩

def allocOpenFile (s : State) : State := {setFile s s.next ⟨1, 0⟩ with next := s.next + 1}

def findFdEntry (task : Task) (fd : Int) : Option FdEntry := task.files.find? fun e => e.fd = fd

def inUse (task : Task) (fd : Int) : Bool := task.files.any fun e => e.fd = fd

def atLimit (task : Task) (wanted : Nat) : Bool :=
  match task.nofile with
  | none => false
  | some cur => decide ((task.files.length + wanted : Int) > cur)

def addEntry (s : State) (t : Nat) (task : Task) (e : FdEntry) (nextFd : Int) : State :=
  {s with
    tasks := s.tasks.modify t fun task => {task with files := task.files ++ [e], nextFd := nextFd}
    clash := s.clash || inUse task e.fd}

def allocFdEntry (s : State) (t : Nat) (task : Task) (file : Nat) (cloexec room : Bool) :
    Option State :=
  if atLimit task 1 then none
  else if !room then none
  else some (addEntry s t task ⟨task.nextFd, file, cloexec⟩ (cInt (task.nextFd + 1)))

def fsOpen (s : State) (t : Nat) (task : Task) (fileRoom entryRoom cloexec : Bool) : State :=
  if !fileRoom then s
  else
    let file := s.next
    let s := allocOpenFile s
    match allocFdEntry s t task file cloexec entryRoom with
    | none => openFilePut s file
    | some s => s

def fsClose (s : State) (t : Nat) (fd : Int) : State :=
  match s.tasks[t]? with
  | none => s
  | some task => match findFdEntry task fd with
    | none => s
    | some e =>
      let s := openFilePut s e.file
      {s with tasks := s.tasks.modify t fun task =>
        {task with files := task.files.eraseP fun e => e.fd = fd}}

structure PipeRoom where
  pipe : Bool
  rfile : Bool
  rfde : Bool
  wfile : Bool
  wfde : Bool

def fsPipe (s : State) (t : Nat) (task : Task) (room : PipeRoom) : State :=
  if atLimit task 2 then s
  else if !room.pipe then s
  else if !room.rfile then s
  else
    let rfile := s.next
    let s := allocOpenFile s
    if !room.rfde then kfreeFile s rfile
    else
      let rfd := task.nextFd
      let e : FdEntry := ⟨rfd, rfile, false⟩
      let wfd := cInt (rfd + 1)
      let s := addEntry s t task e wfd
      if !room.wfile then fsClose s t rfd
      else
        let wfile := s.next
        let s := allocOpenFile s
        if !room.wfde then fsClose (kfreeFile s wfile) t rfd
        else
          let task := {task with files := task.files ++ [e], nextFd := wfd}
          addEntry s t task ⟨wfd, wfile, false⟩ (cInt (wfd + 1))

def lowestFree (fds : List Int) : Nat → Int → Int
  | 0, newfd => newfd
  | fuel + 1, newfd => if newfd ∈ fds then lowestFree fds fuel (cInt (newfd + 1)) else newfd

def bumped (task : Task) (newfd : Int) : Int :=
  if newfd ≥ task.nextFd then cInt (newfd + 1) else task.nextFd

def fsDupMin (s : State) (t : Nat) (task : Task) (oldfd minfd : Int) (cloexec room : Bool) : State :=
  match findFdEntry task oldfd with
  | none => s
  | some old =>
    let newfd := lowestFree (task.files.map FdEntry.fd) task.files.length minfd
    if !room then s
    else addEntry (takeRef s old.file) t task ⟨newfd, old.file, cloexec⟩ (bumped task newfd)

def setCloexec (s : State) (t : Nat) (fd : Int) (cloexec : Bool) : State :=
  {s with tasks := s.tasks.modify t fun task =>
    {task with files := task.files.map fun e => if e.fd = fd then {e with cloexec := cloexec} else e}}

def fsDup2Fd (s : State) (t : Nat) (task : Task) (oldfd newfd : Int) (cloexec room : Bool) : State :=
  if newfd < 0 then s
  else if oldfd = newfd then setCloexec s t oldfd cloexec
  else match findFdEntry task oldfd with
    | none => s
    | some old =>
      let s := fsClose s t newfd
      let task := {task with files := task.files.eraseP fun e => e.fd = newfd}
      if !room then s
      else addEntry (takeRef s old.file) t task ⟨newfd, old.file, cloexec⟩ (bumped task newfd)

def closeAll (s : State) (t : Nat) (fds : List Int) : State :=
  fds.foldl (fun s fd => fsClose s t fd) s

def fsCloseOnExec (s : State) (t : Nat) (task : Task) : State :=
  closeAll s t ((task.files.filter FdEntry.cloexec).map FdEntry.fd)

def fsCloseRange (s : State) (t : Nat) (task : Task) (first last : Int) : State :=
  closeAll s t ((task.files.map FdEntry.fd).filter fun fd => first ≤ fd ∧ fd ≤ last)

def doExit (s : State) (t : Nat) (task : Task) : State :=
  let s := closeAll s t (task.files.map FdEntry.fd)
  {s with tasks := s.tasks.modify t fun task => {task with exited := true}}

/-- `failsAfter` is the number of entries shared before fork fails, if it does:
fork_cleanup_failed frees the child, but puts none of its files. -/
def sysFork (s : State) (task : Task) (failsAfter : Option Nat) : State :=
  match failsAfter with
  | none =>
    let s := task.files.foldl (fun s e => takeRef s e.file) s
    {s with tasks := s.tasks ++ [task]}
  | some shared => (task.files.take shared).foldl (fun s e => takeRef s e.file) s

inductive Action where
  | spawn (nofile : Option Int)
  | openFile (t : Nat) (fileRoom entryRoom cloexec : Bool)
  | close (t : Nat) (fd : Int)
  | pipe (t : Nat) (room : PipeRoom)
  -- sys_dup, and F_DUPFD with its least number
  | dupMin (t : Nat) (oldfd minfd : Int) (cloexec room : Bool)
  | dup2 (t : Nat) (oldfd newfd : Int) (cloexec room : Bool)
  | setCloexec (t : Nat) (fd : Int) (cloexec : Bool)
  | closeRange (t : Nat) (first last : Int)
  | setrlimit (t : Nat) (nofile : Option Int)
  | fork (t : Nat) (failsAfter : Option Nat)
  | exec (t : Nat)
  | exit (t : Nat)

def runningTask (s : State) (t : Nat) : Option Task :=
  s.tasks[t]?.filter fun task => !task.exited

def boot (nofile : Option Int) : State := ⟨fun _ => ⟨0, 0⟩, 0, [⟨[], 3, nofile, false⟩], false⟩

def step (s : State) : Action → Option State
  | .spawn nofile => some {s with tasks := s.tasks ++ [⟨[], 0, nofile, false⟩]}
  | .openFile t fileRoom entryRoom cloexec =>
    (runningTask s t).map fun task => fsOpen s t task fileRoom entryRoom cloexec
  | .close t fd => (runningTask s t).map fun _ => fsClose s t fd
  | .pipe t room => (runningTask s t).map fun task => fsPipe s t task room
  | .dupMin t oldfd minfd cloexec room =>
    (runningTask s t).map fun task => fsDupMin s t task oldfd minfd cloexec room
  | .dup2 t oldfd newfd cloexec room =>
    (runningTask s t).map fun task => fsDup2Fd s t task oldfd newfd cloexec room
  | .setCloexec t fd cloexec => (runningTask s t).map fun _ => setCloexec s t fd cloexec
  | .closeRange t first last => (runningTask s t).map fun task => fsCloseRange s t task first last
  | .setrlimit t nofile => (runningTask s t).map fun _ =>
    {s with tasks := s.tasks.modify t fun task => {task with nofile := nofile}}
  | .fork t failsAfter => (runningTask s t).map fun task => sysFork s task failsAfter
  | .exec t => (runningTask s t).map fun task => fsCloseOnExec s t task
  | .exit t => (runningTask s t).map fun task => doExit s t task

def Task.refs (task : Task) (id : Nat) : Nat := task.files.countP fun e => e.file = id

def refs (s : State) (id : Nat) : Nat := Tally.total (fun task => task.refs id) s.tasks

structure Numbers (task : Task) : Prop where
  unique : (task.files.map FdEntry.fd).Nodup
  range : ∀ e ∈ task.files, 0 ≤ e.fd ∧ e.fd < task.nextFd
  counter : 0 ≤ task.nextFd ∧ task.nextFd ≤ INT_MAX

structure Good (s : State) : Prop where
  counts : ∀ id < s.next, (s.files id).refcount = refs s id
  releases : ∀ id < s.next, (s.files id).releases = if refs s id = 0 then 1 else 0
  known : ∀ task ∈ s.tasks, ∀ e ∈ task.files, e.file < s.next
  numbers : ∀ task ∈ s.tasks, Numbers task
  calm : s.clash = false

variable {s : State} {t : Nat} {task : Task} {id : Nat} {e : FdEntry} {fd nextFd : Int}

theorem refsNext (good : Good s) (beyond : s.next ≤ id) : refs s id = 0 := by
  unfold refs Tally.total
  refine List.sum_eq_zero fun n member => ?_
  obtain ⟨task, inside, rfl⟩ := List.mem_map.mp member
  refine List.countP_eq_zero.mpr fun e entry same => ?_
  have bound := good.known task inside e entry
  simp only [decide_eq_true_eq] at same
  omega

theorem refsPos (inside : task ∈ s.tasks) (entry : e ∈ task.files) : 0 < refs s e.file := by
  have one : 0 < task.refs e.file := List.countP_pos_iff.mpr ⟨e, entry, by simp⟩
  have all : task.refs e.file ≤ refs s e.file :=
    Tally.weightLe (fun task => task.refs e.file) inside
  omega

theorem tasksGood {files : Nat → File} {tasks : List Task} (good : Good s)
    (counts : ∀ id < s.next,
      (files id).refcount = refs {s with files := files, tasks := tasks} id ∧
      (files id).releases = if refs {s with files := files, tasks := tasks} id = 0 then 1 else 0)
    (each : ∀ task ∈ tasks,
      task ∈ s.tasks ∨ (∀ e ∈ task.files, e.file < s.next) ∧ Numbers task) :
    Good {s with files := files, tasks := tasks} where
  counts id below := (counts id below).1
  releases id below := (counts id below).2
  known task member e entry := by
    rcases each task member with old | ⟨known, _⟩
    · exact good.known task old e entry
    · exact known e entry
  numbers task member := by
    rcases each task member with old | ⟨_, numbers⟩
    · exact good.numbers task old
    · exact numbers
  calm := good.calm

theorem relabelGood {change : Task → Task} (good : Good s)
    (refs' : ∀ task id, (change task).refs id = task.refs id)
    (known : ∀ task ∈ s.tasks, ∀ e ∈ (change task).files, ∃ e' ∈ task.files, e'.file = e.file)
    (numbers : ∀ task, Numbers task → Numbers (change task)) :
    Good {s with tasks := s.tasks.modify t change} := by
  have same : ∀ id, refs {s with tasks := s.tasks.modify t change} id = refs s id := by
    intro id
    cases found : s.tasks[t]? with
    | none =>
      unfold refs
      dsimp only
      rw [List.modify_eq_self (List.getElem?_eq_none_iff.mp found)]
    | some task =>
      have moved := Tally.totalModify (fun task : Task => task.refs id) change found
      rw [refs' task id] at moved
      exact Nat.add_right_cancel moved
  refine tasksGood good (fun id below => ?_) fun task member => ?_
  · rw [same]
    exact ⟨good.counts id below, good.releases id below⟩
  · rcases Tally.modifyMem member with old | ⟨old, found, rfl⟩
    · exact Or.inl old
    · have inside := List.mem_of_getElem? found
      refine Or.inr ⟨fun e entry => ?_, numbers old (good.numbers old inside)⟩
      obtain ⟨e', entry', file⟩ := known old inside e entry
      exact file ▸ good.known old inside e' entry'

theorem setCloexecGood (good : Good s) (cloexec : Bool) :
    Good (setCloexec s t fd cloexec) := by
  have fds : ∀ task : Task, (task.files.map fun e =>
      if e.fd = fd then {e with cloexec := cloexec} else e).map FdEntry.fd =
        task.files.map FdEntry.fd := by
    intro task
    rw [List.map_map]
    refine List.map_congr_left fun e _ => ?_
    simp only [Function.comp]
    split <;> rfl
  refine relabelGood good (fun task id => ?_) (fun task _ e entry => ?_) fun task numbers => ?_
  · unfold Task.refs
    rw [List.countP_map]
    refine List.countP_congr fun e _ => ?_
    simp only [Function.comp]
    split <;> rfl
  · obtain ⟨e', entry', rfl⟩ := List.mem_map.mp entry
    refine ⟨e', entry', ?_⟩
    split <;> rfl
  · refine ⟨by rw [fds]; exact numbers.unique, fun e entry => ?_, numbers.counter⟩
    obtain ⟨e', entry', rfl⟩ := List.mem_map.mp entry
    have range := numbers.range e' entry'
    split <;> exact range

theorem setFileSelf (file : File) : (setFile s id file).files id = file :=
  Function.update_self ..

theorem setFileOther {other : Nat} (file : File) (differ : other ≠ id) :
    (setFile s id file).files other = s.files other := Function.update_of_ne differ ..

theorem entriesGood (id : Nat) {change : Task → Task} {files : Nat → File} (good : Good s)
    (here : s.tasks[t]? = some task)
    (others : ∀ other, other ≠ id → files other = s.files other)
    (otherRefs : ∀ other, other ≠ id → (change task).refs other = task.refs other)
    (count : ∀ now, now + task.refs id = refs s id + (change task).refs id →
      (files id).refcount = now ∧ (files id).releases = if now = 0 then 1 else 0)
    (known : ∀ e ∈ (change task).files, e.file < s.next)
    (numbers : Numbers (change task)) :
    Good {s with files := files, tasks := s.tasks.modify t change} := by
  have moved : ∀ other, refs {s with files := files, tasks := s.tasks.modify t change} other +
      task.refs other = refs s other + (change task).refs other := fun other =>
    Tally.totalModify (fun task : Task => task.refs other) change here
  have same : ∀ other, other ≠ id →
      refs {s with files := files, tasks := s.tasks.modify t change} other = refs s other := by
    intro other differ
    have all := moved other
    rw [otherRefs other differ] at all
    exact Nat.add_right_cancel all
  refine tasksGood good (fun other inside => ?_) fun task' member => ?_
  · by_cases differ : other = id
    · cases differ
      exact count _ (moved id)
    · rw [same other differ, others other differ]
      exact ⟨good.counts other inside, good.releases other inside⟩
  · rcases Tally.modifyMem member with old | ⟨old, found, rfl⟩
    · exact Or.inl old
    · cases here.symm.trans found
      exact Or.inr ⟨known, numbers⟩

theorem eraseNumbers (numbers : Numbers task) :
    Numbers {task with files := task.files.eraseP fun e => e.fd = fd} := by
  have fewer : (task.files.eraseP fun e => e.fd = fd).Sublist task.files := List.eraseP_sublist
  exact ⟨numbers.unique.sublist (fewer.map FdEntry.fd),
    fun e entry => numbers.range e (fewer.subset entry), numbers.counter⟩

theorem closeGood (good : Good s) (t : Nat) (fd : Int) : Good (fsClose s t fd) := by
  unfold fsClose
  split <;> rename_i here
  · exact good
  · rename_i task
    split <;> rename_i found
    · exact good
    · rename_i e
      have inside := List.mem_of_getElem? here
      have entry : e ∈ task.files := List.mem_of_find?_eq_some found
      have erased := fun id => OpenFiles.eraseRefs found id
      have positive := refsPos inside entry
      have below := good.known task inside e entry
      have after : Good {s with
          files := (openFilePut s e.file).files
          tasks := s.tasks.modify t fun task =>
            {task with files := task.files.eraseP fun e => e.fd = fd}} := by
        refine entriesGood e.file good here
          (fun other differ => setFileOther _ differ) (fun other differ => ?_)
          (fun now moved => ?_) (fun e' entry' => ?_) (eraseNumbers (good.numbers task inside))
        · have one := erased other
          rw [if_neg (Ne.symm differ), Nat.add_zero] at one
          exact one
        · have one := erased e.file
          rw [if_pos rfl] at one
          have before := good.releases e.file below
          rw [if_neg (Nat.pos_iff_ne_zero.mp positive)] at before
          have count := good.counts e.file below
          have now' : refs s e.file = now + 1 := by
            unfold Task.refs at moved
            dsimp only at moved
            omega
          unfold openFilePut
          dsimp only
          rw [setFileSelf, count, before, now']
          refine ⟨by dsimp only; omega, ?_⟩
          dsimp only
          by_cases last : now = 0
          · rw [if_pos last, if_pos (by omega)]
          · rw [if_neg last, if_neg (by omega)]
        · exact good.known task inside e' (List.eraseP_subset entry')
      exact after

theorem closeAllGood (good : Good s) (t : Nat) (fds : List Int) : Good (closeAll s t fds) := by
  unfold closeAll
  induction fds generalizing s with
  | nil => exact good
  | cons fd fds ih => exact ih (closeGood good t fd)

theorem addNumbers (numbers : Numbers task) (free : fd ∉ task.files.map FdEntry.fd)
    (range : 0 ≤ fd ∧ fd < nextFd) (onward : task.nextFd ≤ nextFd) (small : nextFd ≤ INT_MAX)
    (file : Nat) (cloexec : Bool) :
    Numbers {task with files := task.files ++ [⟨fd, file, cloexec⟩], nextFd := nextFd} := by
  refine ⟨?_, fun e entry => ?_, ⟨by dsimp only; omega, small⟩⟩
  · dsimp only
    rw [List.map_append]
    refine List.nodup_append.mpr ⟨numbers.unique, by simp, ?_⟩
    intro other old new only same
    rw [List.map_singleton, List.mem_singleton] at only
    rw [same, only] at old
    exact free old
  · rcases List.mem_append.mp entry with old | new
    · have bound := numbers.range e old
      exact ⟨bound.1, by dsimp only; omega⟩
    · cases List.mem_singleton.mp new
      exact range

theorem notInUse (free : fd ∉ task.files.map FdEntry.fd) : inUse task fd = false := by
  unfold inUse
  rw [List.any_eq_false]
  intro e entry same
  exact free (List.mem_map.mpr ⟨e, entry, by simpa using same⟩)

theorem snocRefs (e : FdEntry) (id : Nat) :
    Task.refs {task with files := task.files ++ [e], nextFd := nextFd} id =
      task.refs id + if e.file = id then 1 else 0 := by
  unfold Task.refs
  rw [List.countP_append, List.countP_singleton]
  simp

theorem shareGood {cloexec : Bool} (good : Good s) (here : s.tasks[t]? = some task)
    (shared : ∃ e ∈ task.files, e.file = id) (free : fd ∉ task.files.map FdEntry.fd)
    (range : 0 ≤ fd ∧ fd < nextFd) (onward : task.nextFd ≤ nextFd) (small : nextFd ≤ INT_MAX) :
    Good (addEntry (takeRef s id) t task ⟨fd, id, cloexec⟩ nextFd) := by
  obtain ⟨e, entry, rfl⟩ := shared
  have inside := List.mem_of_getElem? here
  have below := good.known task inside e entry
  have positive := refsPos inside entry
  have after : Good {s with
      files := (takeRef s e.file).files
      tasks := s.tasks.modify t fun task =>
        {task with files := task.files ++ [⟨fd, e.file, cloexec⟩], nextFd := nextFd}} := by
    refine entriesGood e.file good here
      (fun other differ => setFileOther _ differ) (fun other differ => ?_) (fun now moved => ?_)
      (fun e' entry' => ?_)
      (addNumbers (good.numbers task inside) free range onward small e.file cloexec)
    · rw [snocRefs, if_neg (Ne.symm differ), Nat.add_zero]
    · rw [snocRefs, if_pos rfl] at moved
      have before := good.releases e.file below
      rw [if_neg (Nat.pos_iff_ne_zero.mp positive)] at before
      have count := good.counts e.file below
      unfold takeRef
      rw [setFileSelf, count, before]
      refine ⟨by dsimp only; omega, ?_⟩
      rw [if_neg (by omega)]
    · rcases List.mem_append.mp entry' with old | new
      · exact good.known task inside e' old
      · cases List.mem_singleton.mp new
        exact below
  have calm : (s.clash || inUse task fd) = false := by
    rw [good.calm, notInUse free]
    rfl
  unfold addEntry
  dsimp only
  rw [show (takeRef s e.file).clash = s.clash from rfl, calm, ← good.calm]
  exact after

theorem allocNext : (allocOpenFile s).files s.next = ⟨1, 0⟩ := setFileSelf _

theorem allocOld (old : id < s.next) : (allocOpenFile s).files id = s.files id :=
  setFileOther _ (Nat.ne_of_lt old)

theorem newGood {cloexec : Bool} (good : Good s) (here : s.tasks[t]? = some task)
    (free : fd ∉ task.files.map FdEntry.fd) (range : 0 ≤ fd ∧ fd < nextFd)
    (onward : task.nextFd ≤ nextFd) (small : nextFd ≤ INT_MAX) :
    Good (addEntry (allocOpenFile s) t task ⟨fd, s.next, cloexec⟩ nextFd) := by
  have inside := List.mem_of_getElem? here
  have moved : ∀ id, refs (addEntry (allocOpenFile s) t task ⟨fd, s.next, cloexec⟩ nextFd) id +
      task.refs id = refs s id + (task.refs id + if s.next = id then 1 else 0) := by
    intro id
    have change := Tally.totalModify (fun task : Task => task.refs id)
      (fun task => {task with files := task.files ++ [⟨fd, s.next, cloexec⟩], nextFd := nextFd}) here
    rw [snocRefs] at change
    exact change
  have known : ∀ e ∈ task.files ++ [⟨fd, s.next, cloexec⟩], e.file < s.next + 1 := by
    intro e entry
    rcases List.mem_append.mp entry with old | new
    · exact Nat.lt_succ_of_lt (good.known task inside e old)
    · cases List.mem_singleton.mp new
      exact Nat.lt_succ_self _
  have calm : (s.clash || inUse task fd) = false := by
    rw [good.calm, notInUse free]
    rfl
  refine ⟨fun id below => ?_, fun id below => ?_, fun task' member e entry => ?_,
    fun task' member => ?_, calm⟩
  · have all := moved id
    rcases Nat.lt_succ_iff_lt_or_eq.mp below with old | rfl
    · rw [if_neg (Nat.ne_of_gt old)] at all
      have same := Nat.add_right_cancel all
      rw [same]
      exact (congrArg File.refcount (allocOld old)).trans (good.counts id old)
    · rw [if_pos rfl, refsNext good (Nat.le_refl _)] at all
      have one : (1 : Int) = ((1 : Nat) : Int) := rfl
      rw [show refs _ s.next = 1 from by omega, ← one]
      exact congrArg File.refcount allocNext
  · have all := moved id
    rcases Nat.lt_succ_iff_lt_or_eq.mp below with old | rfl
    · rw [if_neg (Nat.ne_of_gt old)] at all
      have same := Nat.add_right_cancel all
      rw [same]
      exact (congrArg File.releases (allocOld old)).trans (good.releases id old)
    · rw [if_pos rfl, refsNext good (Nat.le_refl _)] at all
      rw [show refs _ s.next = 1 from by omega]
      exact congrArg File.releases allocNext
  · rcases Tally.modifyMem member with old | ⟨old, found, rfl⟩
    · exact Nat.lt_succ_of_lt (good.known task' old e entry)
    · cases here.symm.trans found
      exact known e entry
  · rcases Tally.modifyMem member with old | ⟨old, found, rfl⟩
    · exact good.numbers task' old
    · cases here.symm.trans found
      exact addNumbers (good.numbers task inside) free range onward small s.next cloexec

theorem droppedGood (good : Good s) : Good (setFile (allocOpenFile s) s.next ⟨0, 1⟩) := by
  have same : ∀ id, refs (setFile (allocOpenFile s) s.next ⟨0, 1⟩) id = refs s id := fun _ => rfl
  have old : ∀ id < s.next,
      (setFile (allocOpenFile s) s.next ⟨0, 1⟩).files id = s.files id := fun id below =>
    (setFileOther _ (Nat.ne_of_lt below)).trans (allocOld below)
  refine ⟨fun id below => ?_, fun id below => ?_, fun task member e entry =>
    Nat.lt_succ_of_lt (good.known task member e entry), good.numbers, good.calm⟩
  · rw [same]
    rcases Nat.lt_succ_iff_lt_or_eq.mp below with before | rfl
    · rw [old id before]
      exact good.counts id before
    · rw [setFileSelf, refsNext good (Nat.le_refl _)]
      rfl
  · rw [same]
    rcases Nat.lt_succ_iff_lt_or_eq.mp below with before | rfl
    · rw [old id before]
      exact good.releases id before
    · rw [setFileSelf, refsNext good (Nat.le_refl _)]
      rfl

theorem putDropped : openFilePut (allocOpenFile s) s.next =
    setFile (allocOpenFile s) s.next ⟨0, 1⟩ := by
  unfold openFilePut
  rw [allocNext]
  rfl

theorem kfreeDropped : kfreeFile (allocOpenFile s) s.next =
    setFile (allocOpenFile s) s.next ⟨0, 1⟩ := by
  unfold kfreeFile
  rw [allocNext]

theorem counterFree (numbers : Numbers task) : task.nextFd ∉ task.files.map FdEntry.fd := by
  intro member
  obtain ⟨e, entry, same⟩ := List.mem_map.mp member
  have range := (numbers.range e entry).2
  omega

theorem cIntSmall {n : Int} (low : 0 ≤ n) (high : n ≤ INT_MAX) : cInt n = n := by
  unfold cInt
  unfold INT_MAX at high
  exact Int.bmod_eq_of_le (by omega) (by omega)

theorem openGood {fileRoom entryRoom cloexec : Bool} (good : Good s)
    (here : s.tasks[t]? = some task) (room : task.nextFd < INT_MAX) :
    Good (fsOpen s t task fileRoom entryRoom cloexec) := by
  have numbers := good.numbers task (List.mem_of_getElem? here)
  have next : cInt (task.nextFd + 1) = task.nextFd + 1 :=
    cIntSmall (by have := numbers.counter; omega) (by omega)
  unfold fsOpen allocFdEntry
  split
  · exact good
  · dsimp only
    split <;> rename_i result
    · rw [putDropped]
      exact droppedGood good
    · split at result
      · cases result
      · split at result
        · cases result
        · cases result
          rw [next]
          exact newGood good here (counterFree numbers) ⟨numbers.counter.1, by omega⟩ (by omega)
            (by omega)

theorem addEntryHere (e : FdEntry) (nextFd : Int) (here : s.tasks[t]? = some task) :
    (addEntry s t task e nextFd).tasks[t]? =
      some {task with files := task.files ++ [e], nextFd := nextFd} := by
  unfold addEntry
  dsimp only
  rw [List.getElem?_modify_eq, here]
  rfl

theorem pipeGood {room : PipeRoom} (good : Good s) (here : s.tasks[t]? = some task)
    (space : task.nextFd + 1 < INT_MAX) : Good (fsPipe s t task room) := by
  have numbers := good.numbers task (List.mem_of_getElem? here)
  have counter := numbers.counter
  have next : cInt (task.nextFd + 1) = task.nextFd + 1 := cIntSmall (by omega) (by omega)
  have next' : cInt (task.nextFd + 1 + 1) = task.nextFd + 1 + 1 :=
    cIntSmall (by omega) (by omega)
  have readEnd : Good (addEntry (allocOpenFile s) t task ⟨task.nextFd, s.next, false⟩
      (task.nextFd + 1)) :=
    newGood good here (counterFree numbers) ⟨counter.1, by omega⟩ (by omega) (by omega)
  have here' := addEntryHere (s := allocOpenFile s) ⟨task.nextFd, s.next, false⟩
    (task.nextFd + 1) here
  unfold fsPipe
  split
  · exact good
  · split
    · exact good
    · split
      · exact good
      · dsimp only
        rw [next, next']
        split
        · rw [kfreeDropped]
          exact droppedGood good
        · split
          · exact closeGood readEnd t task.nextFd
          · split
            · rw [kfreeDropped]
              exact closeGood (droppedGood readEnd) t task.nextFd
            · have numbers' := readEnd.numbers _ (List.mem_of_getElem? here')
              exact newGood readEnd here' (counterFree numbers') ⟨by omega, by omega⟩
                (by dsimp only; omega) (by omega)

theorem fewerAbove {fds : List Int} {n : Int} (used : n ∈ fds) :
    (fds.filter fun fd => n + 1 ≤ fd).length < (fds.filter fun fd => n ≤ fd).length := by
  have nested : (fds.filter fun fd => n + 1 ≤ fd) =
      (fds.filter fun fd => n ≤ fd).filter fun fd => n + 1 ≤ fd := by
    rw [List.filter_filter]
    refine List.filter_congr fun fd _ => ?_
    grind
  rw [nested]
  refine List.length_filter_lt_length_iff_exists.mpr ⟨n, by simpa using used, ?_⟩
  simp

theorem erasedFresh {entries : List FdEntry} (unique : (entries.map FdEntry.fd).Nodup) :
    fd ∉ (entries.eraseP fun e => e.fd = fd).map FdEntry.fd := by
  induction entries with
  | nil => exact List.not_mem_nil
  | cons first rest ih =>
    rw [List.map_cons, List.nodup_cons] at unique
    rw [List.eraseP_cons]
    by_cases hit : first.fd = fd
    · simp only [hit, decide_true, cond_true]
      exact hit ▸ unique.1
    · simp only [hit, decide_false, cond_false, List.map_cons, List.mem_cons, not_or]
      exact ⟨Ne.symm hit, ih unique.2⟩

theorem lowestFreeSpec {fds : List Int} {fuel : Nat} {n m : Int}
    (enough : (fds.filter fun fd => n ≤ fd).length ≤ fuel) (low : 0 ≤ n) (ahead : n ≤ m)
    (free : m ∉ fds) (high : m < INT_MAX) :
    n ≤ lowestFree fds fuel n ∧ lowestFree fds fuel n ≤ m ∧ lowestFree fds fuel n ∉ fds := by
  induction fuel generalizing n with
  | zero =>
    refine ⟨Int.le_refl n, ahead, fun member => ?_⟩
    have used : n ∈ fds := member
    have inside : n ∈ fds.filter fun fd => n ≤ fd := by simpa using used
    rw [List.eq_nil_of_length_eq_zero (Nat.le_zero.mp enough)] at inside
    cases inside
  | succ fuel ih =>
    unfold lowestFree
    split <;> rename_i used
    · have other : n ≠ m := fun same => free (same ▸ used)
      have next : cInt (n + 1) = n + 1 := cIntSmall (by omega) (by omega)
      have fewer := fewerAbove used
      obtain ⟨above, below, fresh⟩ := ih (show _ ≤ fuel by omega) (by omega)
        (show n + 1 ≤ m by omega)
      rw [next]
      exact ⟨by omega, below, fresh⟩
    · exact ⟨Int.le_refl n, ahead, used⟩

theorem bumpedSpec (numbers : Numbers task) (low : 0 ≤ fd) (high : fd < INT_MAX) :
    fd < bumped task fd ∧ task.nextFd ≤ bumped task fd ∧ bumped task fd ≤ INT_MAX := by
  have counter := numbers.counter
  have next : cInt (fd + 1) = fd + 1 := cIntSmall (by omega) (by omega)
  unfold bumped
  rw [next]
  split <;> omega

theorem dupMinGood {oldfd minfd : Int} {cloexec room : Bool} (good : Good s)
    (here : s.tasks[t]? = some task) (low : 0 ≤ minfd)
    (space : ∃ m, minfd ≤ m ∧ m < INT_MAX ∧ m ∉ task.files.map FdEntry.fd) :
    Good (fsDupMin s t task oldfd minfd cloexec room) := by
  unfold fsDupMin
  split <;> rename_i found
  · exact good
  · dsimp only
    split
    · exact good
    · obtain ⟨m, ahead, high, free⟩ := space
      have fuel : ((task.files.map FdEntry.fd).filter fun fd => minfd ≤ fd).length ≤
          task.files.length :=
        Nat.le_trans (List.length_filter_le _ _) (Nat.le_of_eq (by rw [List.length_map]))
      obtain ⟨above, below, fresh⟩ := lowestFreeSpec fuel low ahead free high
      have numbers := good.numbers task (List.mem_of_getElem? here)
      obtain ⟨within, onward, small⟩ := bumpedSpec numbers (Int.le_trans low above)
        (Int.lt_of_le_of_lt below high)
      exact shareGood good here ⟨_, List.mem_of_find?_eq_some found, rfl⟩ fresh
        ⟨Int.le_trans low above, within⟩ onward small

theorem closeHere (here : s.tasks[t]? = some task) (fd : Int) :
    (fsClose s t fd).tasks[t]? =
      some {task with files := task.files.eraseP fun e => e.fd = fd} := by
  unfold fsClose
  rw [here]
  dsimp only
  split <;> rename_i found
  · rw [here, List.eraseP_of_forall_not]
    intro e entry same
    exact List.find?_eq_none.mp found e entry same
  · dsimp only [openFilePut, setFile]
    rw [List.getElem?_modify_eq, here]
    rfl

theorem dup2Good {oldfd newfd : Int} {cloexec room : Bool} (good : Good s)
    (here : s.tasks[t]? = some task) (high : newfd < INT_MAX) :
    Good (fsDup2Fd s t task oldfd newfd cloexec room) := by
  unfold fsDup2Fd
  split <;> rename_i low
  · exact good
  · split <;> rename_i differ
    · exact setCloexecGood good cloexec
    · split <;> rename_i found
      · exact good
      · dsimp only
        have closed := closeGood good t newfd
        split
        · exact closed
        · rename_i old _
          have here' := closeHere here newfd
          have numbers := closed.numbers _ (List.mem_of_getElem? here')
          obtain ⟨within, onward, small⟩ := bumpedSpec numbers (Int.not_lt.mp low) high
          refine shareGood closed here' ⟨old, ?_, rfl⟩ ?_ ⟨Int.not_lt.mp low, within⟩ onward small
          · have entry : old ∈ task.files := List.mem_of_find?_eq_some found
            have number : old.fd = oldfd := by simpa using List.find?_some found
            exact (List.mem_eraseP_of_neg (by simp [number, differ])).mpr entry
          · exact erasedFresh (good.numbers task (List.mem_of_getElem? here)).unique

theorem takeRefs (l : List FdEntry) (s : State) :
    ∃ files, l.foldl (fun s e => takeRef s e.file) s = {s with files := files} ∧
      ∀ id, (files id).refcount = (s.files id).refcount + l.countP (fun e => e.file = id) ∧
        (files id).releases = (s.files id).releases := by
  induction l generalizing s with
  | nil => exact ⟨s.files, rfl, fun id => ⟨by simp, rfl⟩⟩
  | cons e l ih =>
    obtain ⟨files, same, counts⟩ := ih (takeRef s e.file)
    refine ⟨files, same, fun id => ?_⟩
    obtain ⟨count, releases⟩ := counts id
    rw [count, releases, List.countP_cons]
    by_cases here : e.file = id
    · cases here
      unfold takeRef
      rw [setFileSelf]
      exact ⟨by simp; omega, rfl⟩
    · unfold takeRef
      rw [setFileOther _ (Ne.symm here)]
      exact ⟨by simp [here], rfl⟩

theorem forkGood {failsAfter : Option Nat} (good : Good s) (here : s.tasks[t]? = some task)
    (late : ∀ shared, failsAfter = some shared → task.files.take shared = []) :
    Good (sysFork s task failsAfter) := by
  have inside := List.mem_of_getElem? here
  unfold sysFork
  split
  · obtain ⟨files, same, counts⟩ := takeRefs task.files s
    dsimp only
    rw [same]
    have all : ∀ id, refs {s with files := files, tasks := s.tasks ++ [task]} id =
        refs s id + task.refs id := fun id =>
      Tally.totalSnoc (fun task : Task => task.refs id) s.tasks task
    refine tasksGood (s := s) good (fun id below => ⟨?_, ?_⟩) fun task' member => ?_
    · rw [all, (counts id).1, good.counts id below]
      exact (Int.natCast_add _ _).symm
    · have part : task.refs id ≤ refs s id := Tally.weightLe (fun task => task.refs id) inside
      rw [all, (counts id).2, good.releases id below]
      by_cases none : refs s id = 0
      · rw [if_pos none, if_pos (by omega)]
      · rw [if_neg none, if_neg (by omega)]
    · rcases List.mem_append.mp member with old | new
      · exact Or.inl old
      · cases List.mem_singleton.mp new
        exact Or.inl inside
  · rw [late _ rfl]
    exact good

theorem emptyNumbers {nofile : Option Int} {exited : Bool} (counter : 0 ≤ fd ∧ fd ≤ INT_MAX) :
    Numbers ⟨[], fd, nofile, exited⟩ := by
  refine ⟨List.nodup_nil, fun e entry => ?_, counter⟩
  cases entry

theorem spawnGood {nofile : Option Int} (good : Good s) :
    Good {s with tasks := s.tasks ++ [⟨[], 0, nofile, false⟩]} := by
  have same : ∀ id, refs {s with tasks := s.tasks ++ [⟨[], 0, nofile, false⟩]} id = refs s id :=
    fun id => Tally.totalSnoc (fun task : Task => task.refs id) s.tasks ⟨[], 0, nofile, false⟩
  refine tasksGood good (fun id below => ?_) fun task member => ?_
  · rw [same]
    exact ⟨good.counts id below, good.releases id below⟩
  · rcases List.mem_append.mp member with old | new
    · exact Or.inl old
    · cases List.mem_singleton.mp new
      exact Or.inr ⟨List.forall_mem_nil _, emptyNumbers (by decide)⟩

theorem sameEntriesGood {change : Task → Task} (good : Good s)
    (files : ∀ task, (change task).files = task.files)
    (counter : ∀ task, (change task).nextFd = task.nextFd) :
    Good {s with tasks := s.tasks.modify t change} := by
  refine relabelGood good (fun task id => ?_) (fun task _ e entry => ?_) fun task numbers => ?_
  · unfold Task.refs
    rw [files]
  · rw [files] at entry
    exact ⟨e, entry, rfl⟩
  · refine ⟨?_, ?_, ?_⟩
    · rw [files]
      exact numbers.unique
    · rw [files, counter]
      exact numbers.range
    · rw [counter]
      exact numbers.counter

/-- next_fd does not reach INT_MAX, F_DUPFD is asked for a number that is not
negative, and no fork fails that has shared an open file. -/
def InRange (s : State) : Action → Prop
  | .openFile t _ _ _ => ∀ task, runningTask s t = some task → task.nextFd < INT_MAX
  | .pipe t _ => ∀ task, runningTask s t = some task → task.nextFd + 1 < INT_MAX
  | .dupMin t _ minfd _ _ => 0 ≤ minfd ∧ ∀ task, runningTask s t = some task →
      ∃ m, minfd ≤ m ∧ m < INT_MAX ∧ m ∉ task.files.map FdEntry.fd
  | .dup2 _ _ newfd _ _ => newfd < INT_MAX
  | .fork t failsAfter => ∀ task, runningTask s t = some task →
      ∀ shared, failsAfter = some shared → task.files.take shared = []
  | _ => True

theorem runningHere (running : runningTask s t = some task) : s.tasks[t]? = some task :=
  (Option.filter_eq_some_iff.mp running).1

theorem bootGood (nofile : Option Int) : Good (boot nofile) where
  counts := fun _ absurd' => nomatch absurd'
  releases := fun _ absurd' => nomatch absurd'
  known := fun task member e entry => by
    cases List.mem_singleton.mp member
    cases entry
  numbers := fun task member => by
    cases List.mem_singleton.mp member
    exact emptyNumbers (by decide)
  calm := rfl

theorem stepGood (s : State) (a : Action) (s' : State) (good : Good s) (inRange : InRange s a)
    (stepped : step s a = some s') : Good s' := by
  unfold step at stepped
  cases a with
  | spawn nofile =>
    cases stepped
    exact spawnGood good
  | openFile t fileRoom entryRoom cloexec =>
    obtain ⟨task, running, rfl⟩ := Option.map_eq_some_iff.mp stepped
    exact openGood good (runningHere running) (inRange task running)
  | close t fd =>
    obtain ⟨task, running, rfl⟩ := Option.map_eq_some_iff.mp stepped
    exact closeGood good t fd
  | pipe t room =>
    obtain ⟨task, running, rfl⟩ := Option.map_eq_some_iff.mp stepped
    exact pipeGood good (runningHere running) (inRange task running)
  | dupMin t oldfd minfd cloexec room =>
    obtain ⟨task, running, rfl⟩ := Option.map_eq_some_iff.mp stepped
    exact dupMinGood good (runningHere running) inRange.1 (inRange.2 task running)
  | dup2 t oldfd newfd cloexec room =>
    obtain ⟨task, running, rfl⟩ := Option.map_eq_some_iff.mp stepped
    exact dup2Good good (runningHere running) inRange
  | setCloexec t fd cloexec =>
    obtain ⟨task, running, rfl⟩ := Option.map_eq_some_iff.mp stepped
    exact setCloexecGood good cloexec
  | closeRange t first last =>
    obtain ⟨task, running, rfl⟩ := Option.map_eq_some_iff.mp stepped
    exact closeAllGood good t _
  | setrlimit t nofile =>
    obtain ⟨task, running, rfl⟩ := Option.map_eq_some_iff.mp stepped
    exact sameEntriesGood good (fun _ => rfl) fun _ => rfl
  | fork t failsAfter =>
    obtain ⟨task, running, rfl⟩ := Option.map_eq_some_iff.mp stepped
    exact forkGood good (runningHere running) (inRange task running)
  | exec t =>
    obtain ⟨task, running, rfl⟩ := Option.map_eq_some_iff.mp stepped
    exact closeAllGood good t _
  | exit t =>
    obtain ⟨task, running, rfl⟩ := Option.map_eq_some_iff.mp stepped
    exact sameEntriesGood (closeAllGood good t _) (fun _ => rfl) fun _ => rfl

/-- The count of an open file is the number of entries for it, it is freed once,
when there are none left, and the numbers of a task are its own. -/
structure Sound (s : State) : Prop where
  counts : ∀ id < s.next, (s.files id).refcount = refs s id
  released : ∀ id < s.next, (s.files id).releases = if refs s id = 0 then 1 else 0
  numbers : ∀ task ∈ s.tasks, (task.files.map FdEntry.fd).Nodup ∧ ∀ e ∈ task.files, 0 ≤ e.fd
  unused : s.clash = false

theorem descriptorsSound (nofile : Option Int) (acts : List Action) (s : State)
    (inRange : Run.Meets step InRange (boot nofile) acts)
    (ran : Run.run step (boot nofile) acts = some s) : Sound s := by
  have good := Run.invariantMeets stepGood (bootGood nofile) inRange ran
  exact ⟨good.counts, good.releases, fun task member =>
    have numbers := good.numbers task member
    ⟨numbers.unique, fun e entry => (numbers.range e entry).1⟩, good.calm⟩

def shareActs : List Action :=
  [.spawn none, .openFile 1 true true false, .fork 1 none, .close 1 0, .close 2 0]

theorem shareReleases : ∃ s, Run.run step (boot none) shareActs = some s ∧ Sound s ∧
    (s.files 0).releases = 1 := by
  have inRange : Run.Meets step InRange (boot none) shareActs := by
    refine ⟨trivial, fun s one => ⟨?_, fun s two => ⟨?_, fun s three => ⟨trivial,
      fun s four => ⟨trivial, fun _ _ => trivial⟩⟩⟩⟩⟩
    · cases one
      intro task running
      cases running
      decide
    · cases one
      cases two
      intro task running shared absurd'
      cases absurd'
  obtain ⟨s, ran, releases⟩ : ∃ s, Run.run step (boot none) shareActs = some s ∧
      (s.files 0).releases = 1 := ⟨_, rfl, rfl⟩
  exact ⟨s, ran, descriptorsSound none shareActs s inRange ran, releases⟩

def failedForkActs : List Action :=
  [.spawn none, .openFile 1 true true false, .fork 1 (some 1), .close 1 0]

def negativeDupActs : List Action :=
  [.spawn none, .openFile 1 true true false, .dupMin 1 0 (-5) false true]

def overflowActs : List Action :=
  [.spawn none, .openFile 1 true true false, .dup2 1 0 INT_MAX false true, .openFile 1 true true false]

theorem leakedAndNegative :
    (∃ s, Run.run step (boot none) failedForkActs = some s ∧ ¬ Sound s) ∧
    (∃ s, Run.run step (boot none) negativeDupActs = some s ∧ ¬ Sound s) ∧
    ∃ s, Run.run step (boot none) overflowActs = some s ∧ ¬ Sound s := by
  refine ⟨?_, ?_, ?_⟩
  · obtain ⟨s, ran, next, leaked, none⟩ : ∃ s, Run.run step (boot none) failedForkActs = some s ∧
        s.next = 1 ∧ (s.files 0).releases = 0 ∧ refs s 0 = 0 := ⟨_, rfl, rfl, rfl, rfl⟩
    refine ⟨s, ran, fun sound => ?_⟩
    have released := sound.released 0 (by omega)
    rw [leaked, none] at released
    cases released
  · obtain ⟨s, ran, task, member, e, entry, negative⟩ :
        ∃ s, Run.run step (boot none) negativeDupActs = some s ∧
          ∃ task ∈ s.tasks, ∃ e ∈ task.files, e.fd < 0 := by
      refine ⟨_, rfl, _, List.mem_cons_of_mem _ List.mem_cons_self, ⟨-5, 0, false⟩, ?_, by decide⟩
      exact List.mem_cons_of_mem _ List.mem_cons_self
    refine ⟨s, ran, fun sound => ?_⟩
    have low := (sound.numbers task member).2 e entry
    omega
  · obtain ⟨s, ran, task, member, e, entry, negative⟩ :
        ∃ s, Run.run step (boot none) overflowActs = some s ∧
          ∃ task ∈ s.tasks, ∃ e ∈ task.files, e.fd < 0 := by
      refine ⟨_, rfl, _, List.mem_cons_of_mem _ List.mem_cons_self, ⟨-2 ^ 31, 1, false⟩, ?_,
        by decide⟩
      exact List.mem_cons_of_mem _ (List.mem_cons_of_mem _ List.mem_cons_self)
    refine ⟨s, ran, fun sound => ?_⟩
    have low := (sound.numbers task member).2 e entry
    omega

end Scepter.Descriptors
