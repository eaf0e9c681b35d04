import Scepter.Fs.OpenFiles
import Scepter.Kernel.Errno

/-! Advisory locks (fs/locks.c): flock on whole open files and fcntl record locks on
byte ranges. All tasks run one system: descriptor calls, lock calls and the return of
a sleeper from lock_wq are its actions. A failing copy from or to user memory changes
nothing and is left out. -/
namespace Scepter.Locks
open OpenFiles Run

def LOCK_SH : Nat := 1
def LOCK_EX : Nat := 2
def LOCK_NB : Nat := 4
def LOCK_UN : Nat := 8

def F_GETLK : Int := 5
def F_SETLK : Int := 6
def F_SETLKW : Int := 7
def F_RDLCK : Int := 0
def F_WRLCK : Int := 1
def F_UNLCK : Int := 2

-- The lock an flock operation asks for, none when its bits say none or both.
def flockTypeOf (op : Nat) : Option FlockType :=
  let type := op &&& (LOCK_SH ||| LOCK_EX)
  if type = LOCK_SH then some .sh else if type = LOCK_EX then some .ex else none

def recTypeOf (lType : Int) : Option RecType :=
  if lType = F_RDLCK then some .rdlck else if lType = F_WRLCK then some .wrlck else none

def lTypeOf : RecType → Int
  | .rdlck => F_RDLCK
  | .wrlck => F_WRLCK

def findOpenFile (task : Task) (fd : Int) : Option Nat := (findFdEntry task fd).map FdEntry.file

/- Every driver has an fstat, so the comparison of the file_private pointers behind it
is never reached. -/
def sameFile (a b : OpenFile) : Bool :=
  if a.pipe.isSome ∨ b.pipe.isSome then a.pipe = b.pipe
  else if a.fsId ≠ b.fsId ∨ a.fsPrivate ≠ b.fsPrivate then false
  else match fstatInode a.node, fstatInode b.node with
    | some sa, some sb => sa = sb
    | _, _ => false

-- The entries of all tasks, in the order of the two nested loops.
def allEntries (s : State) : List FdEntry := s.tasks.flatMap Task.files

/-! ## flock -/

def flockConflict (s : State) (me : Nat) (type : FlockType) : Option Nat :=
  (allEntries s).findSome? fun e =>
    let of := s.files e.file
    if e.file = me ∨ of.flockType = none ∨ sameFile (s.files me) of = false then none
    else if type = .ex ∨ of.flockType = some .ex then some of.flockOwner
    else none

-- One pass of the acquisition loop; no return value while the task sleeps.
def flockPass (s : State) (t : Nat) (task : Task) (file : Nat) (type : FlockType)
    (nonblock : Bool) : State × Option Int :=
  let ready := {task with phase := Phase.ready}
  match flockConflict s file type with
  | none =>
    (setTask (setOpen s file {s.files file with flockType := some type, flockOwner := task.pid})
      t ready, some 0)
  | some _ =>
    if nonblock then (setTask s t ready, some (-EAGAIN))
    else (setTask s t {task with phase := .asleep (.flock file type)}, none)

def fsFlock (s : State) (t : Nat) (task : Task) (fd : Int) (op : Nat) : State × Option Int :=
  match findOpenFile task fd with
  | none => (s, some (-EBADF))
  | some file =>
    if op &&& LOCK_UN ≠ 0 then
      (wakeLocks (setOpen s file {s.files file with flockType := none, flockOwner := 0}), some 0)
    else match flockTypeOf op with
      | none => (s, some (-EINVAL))
      | some type =>
        if (s.files file).flockType = some type then
          (setOpen s file {s.files file with flockOwner := task.pid}, some 0)
        else flockPass s t task file type (op &&& LOCK_NB ≠ 0)

/-! ## fcntl record locks -/

structure FlockK where
  lType : Int
  lWhence : Int
  lStart : BitVec 32
  lLen : BitVec 32
  lPid : Nat
  deriving DecidableEq

-- The first offset behind a range, in 32 bits.
def rangeEnd (start len : BitVec 32) : BitVec 32 :=
  if len ≠ 0 then start + len else 0xFFFFFFFF#32

def rangesOverlap (aStart aLen bStart bLen : BitVec 32) : Bool :=
  if rangeEnd bStart bLen ≤ aStart then false
  else if rangeEnd aStart aLen ≤ bStart then false
  else true

def recConflict (s : State) (file : Nat) (type : RecType) (start len : BitVec 32) (owner : Nat) :
    Option FlockRec :=
  (allEntries s).findSome? fun e =>
    if e.file = file ∨ sameFile (s.files file) (s.files e.file) = false then none
    else (s.files e.file).locks.find? fun rec =>
      rec.owner ≠ owner ∧ rangesOverlap start len rec.start rec.len ∧
        (type = .wrlck ∨ rec.type = .wrlck)

def recRemoveOwner (file : OpenFile) (owner : Nat) : OpenFile :=
  {file with locks := file.locks.filter fun rec => rec.owner ≠ owner}

-- One pass of the F_SETLK / F_SETLKW loop.
def setlkPass (s : State) (t : Nat) (task : Task) (file : Nat) (type : RecType)
    (start len : BitVec 32) (waits allocFails : Bool) : State × Option Int :=
  let ready := {task with phase := Phase.ready}
  match recConflict s file type start len task.pid with
  | none =>
    let removed := recRemoveOwner (s.files file) task.pid
    if allocFails then (setTask (setOpen s file removed) t ready, some (-ENOMEM))
    else
      let rec' := ⟨type, start, len, task.pid⟩
      (setTask (setOpen s file {removed with locks := removed.locks ++ [rec']}) t ready, some 0)
  | some _ =>
    if waits then (setTask s t {task with phase := .asleep (.setlk file type start len)}, none)
    else (setTask s t ready, some (-EAGAIN))

/- l_start as an absolute offset; `size` is what fstat has left in st.size, where it
fails whatever was on the stack. -/
def lockStart (file : OpenFile) (flk : FlockK) (size : BitVec 32) : BitVec 32 :=
  if flk.lWhence = 1 then flk.lStart + file.offset
  else if flk.lWhence = 2 then flk.lStart + size
  else flk.lStart

def getlkOut (s : State) (task : Task) (file : Nat) (start len : BitVec 32) : FlockK :=
  match recConflict s file .wrlck start len task.pid with
  | some rec => ⟨lTypeOf rec.type, 0, rec.start, rec.len, rec.owner⟩
  | none => ⟨F_UNLCK, 0, start, len, 0⟩

-- The state, the return value once there is one, and the caller's struct flock.
def fsFcntlLock (s : State) (t : Nat) (task : Task) (fd cmd : Int) (flk : FlockK)
    (size : BitVec 32) (allocFails : Bool) : (State × Option Int) × FlockK :=
  match findOpenFile task fd with
  | none => ((s, some (-EBADF)), flk)
  | some file =>
    let start := lockStart (s.files file) flk size
    if cmd = F_SETLK ∨ cmd = F_SETLKW then
      if flk.lType = F_UNLCK then
        ((wakeLocks (setOpen s file (recRemoveOwner (s.files file) task.pid)), some 0), flk)
      else match recTypeOf flk.lType with
        | none => ((s, some (-EINVAL)), flk)
        | some type =>
          (setlkPass s t task file type start flk.lLen (cmd = F_SETLKW) allocFails, flk)
    else if cmd = F_GETLK then ((s, some 0), getlkOut s task file start flk.lLen)
    else ((s, some (-EINVAL)), flk)

-- What follows sleep_on in either loop.
def resumeLock (s : State) (t : Nat) (task : Task) (wait : Wait) (pending allocFails : Bool) :
    State × Option Int :=
  if pending then (setTask s t {task with phase := .ready}, some (-EINTR))
  else match wait with
    | .flock file type => flockPass s t task file type false
    | .setlk file type start len => setlkPass s t task file type start len true allocFails

/-! ## The system -/

inductive Action where
  | open (t : Nat) (fd : Int) (file : OpenFile)
  | dup (t : Nat) (fd newfd : Int) (cloexec : Bool)
  | dup2 (t : Nat) (oldfd newfd : Int) (cloexec allocFails : Bool)
  | fork (t pid : Nat)
  | exec (t : Nat)
  | close (t : Nat) (fd : Int)
  | exit (t : Nat)
  | seek (t : Nat) (fd : Int) (offset : BitVec 32)
  | flock (t : Nat) (fd : Int) (op : Nat)
  | fcntl (t : Nat) (fd cmd : Int) (flk : FlockK) (size : BitVec 32) (allocFails : Bool)
  | resume (t : Nat) (pending allocFails : Bool)

def Action.task : Action → Nat
  | .open t .. | .dup t .. | .dup2 t .. | .fork t _ | .exec t | .close t _ | .exit t
  | .seek t .. | .flock t .. | .fcntl t .. | .resume t .. => t

-- read, write and lseek move the offset that all entries of an open file share.
def seek (s : State) (task : Task) (fd : Int) (offset : BitVec 32) : State :=
  match findOpenFile task fd with
  | none => s
  | some file => setOpen s file {s.files file with offset := offset}

def act (s : State) (task : Task) : Action → State
  | .open t fd file => fsOpen s t task fd file
  | .dup t fd newfd cloexec => fsDup s t task fd newfd cloexec
  | .dup2 t oldfd newfd cloexec allocFails => fsDup2 s t task oldfd newfd cloexec allocFails
  | .fork _ pid => sysFork s task pid
  | .exec t => fsCloseOnExec s t task
  | .close t fd => fsClose s t fd
  | .exit t => doExit s t task
  | .seek _ fd offset => seek s task fd offset
  | .flock t fd op => (fsFlock s t task fd op).1
  | .fcntl t fd cmd flk size allocFails => (fsFcntlLock s t task fd cmd flk size allocFails).1.1
  | .resume .. => s

-- A sleeping task takes no action of its own until lock_wq is woken.
def step (s : State) (action : Action) : Option State :=
  match s.tasks[action.task]? with
  | none => none
  | some task =>
    match task.phase, action with
    | .woken wait, .resume t pending allocFails =>
      some (resumeLock s t task wait pending allocFails).1
    | .ready, .resume .. => none
    | .ready, action => some (act s task action)
    | _, _ => none

-- The first task, with nothing open.
def start (pid : Nat) : State := ⟨fun _ => noFile, 0, [⟨pid, [], .ready⟩]⟩

/-! ## What file an open file is open on -/

inductive FileId where
  | pipe (p : Nat)
  | node (fsId : Int) (fsPrivate : Nat) (node : Node)
  deriving DecidableEq

def fileId (file : OpenFile) : FileId :=
  match file.pipe with
  | some p => .pipe p
  | none => .node file.fsId file.fsPrivate file.node

-- Everything but the root directory of devfs.
def Statable (file : OpenFile) : Prop := file.pipe.isSome ∨ (fstatInode file.node).isSome

instance (file : OpenFile) : Decidable (Statable file) := by unfold Statable; infer_instance

theorem sameFileFinds {a b : OpenFile} (same : fileId a = fileId b) (stat : Statable a) :
    sameFile a b = true := by
  unfold fileId at same
  unfold sameFile
  cases pa : a.pipe with
  | some p =>
    cases pb : b.pipe with
    | some q => simpa [pa, pb] using same
    | none => simp [pa, pb] at same
  | none =>
    cases pb : b.pipe with
    | some q => simp [pa, pb] at same
    | none =>
      simp only [pa, pb, FileId.node.injEq] at same
      obtain ⟨fsId, fsPrivate, node⟩ := same
      rcases stat with pipe | inode
      · simp [pa] at pipe
      · obtain ⟨number, answer⟩ := Option.isSome_iff_exists.mp inode
        simp [fsId, fsPrivate, ← node, answer]

-- An open file with a reference is met by the walk over all tasks' descriptors.
theorem visible {s : State} (counted : Refs s) {id : Nat} (held : 0 < (s.files id).refcount) :
    ∃ e ∈ allEntries s, e.file = id := by
  rw [counted.counts, refs] at held
  have some' : ∃ n ∈ s.tasks.map (fun task => task.refs id), n ≠ 0 := by
    by_contra none
    push Not at none
    rw [List.sum_eq_zero none] at held
    omega
  obtain ⟨n, member, positive⟩ := some'
  obtain ⟨task, inTasks, rfl⟩ := List.mem_map.mp member
  obtain ⟨e, entry, same⟩ := List.countP_pos_iff.mp (Nat.pos_of_ne_zero positive)
  exact ⟨e, List.mem_flatMap.mpr ⟨task, inTasks, entry⟩, by simpa using same⟩

/-! ## Lock calls keep the reference counts -/

theorem setOpenRefs {s : State} {id : Nat} {file : OpenFile} (counted : Refs s)
    (held : 0 < (s.files id).refcount) (same : file.refcount = (s.files id).refcount) :
    Refs (setOpen s id file) where
  counts := by
    intro other
    simp only [setOpen, Function.update_apply]
    split
    · rename_i here
      rw [same, here]
      exact counted.counts id
    · exact counted.counts other
  released := by
    intro other
    simp only [setOpen, Function.update_apply]
    split
    · intro zero
      omega
    · exact counted.released other
  fresh := by
    intro other later
    have zero := counted.fresh other later
    have differ : other ≠ id := by
      rintro rfl
      omega
    simpa only [setOpen, Function.update_of_ne differ] using zero
  held := counted.held

-- Only the phase of a task changes, and a task going to sleep holds its file.
theorem phaseRefs {s : State} {t : Nat} {task : Task} {phase : Phase} (counted : Refs s)
    (found : s.tasks[t]? = some task)
    (holds : ∀ wait, phase = .asleep wait ∨ phase = .woken wait →
      ∃ e ∈ task.files, e.file = wait.file) :
    Refs (setTask s t {task with phase := phase}) where
  counts := by
    intro id
    have moved := refsSet {task with phase := phase} found id
    have before := counted.counts id
    simp only [Task.refs, setTask] at moved ⊢
    omega
  released := counted.released
  fresh := counted.fresh
  held := by
    intro other member wait waiting
    rcases List.mem_or_eq_of_mem_set member with old | rfl
    · exact counted.held other old wait waiting
    · exact holds wait waiting

theorem wakeLocksRefs {s : State} (counted : Refs s) : Refs (wakeLocks s) where
  counts := by
    intro id
    rw [wakeLocks, wakeRefs wakeOnlyWake]
    exact counted.counts id
  released := counted.released
  fresh := counted.fresh
  held := by
    intro other member
    obtain ⟨old, memberOld, rfl⟩ := List.mem_map.mp member
    exact wakeHeld wakeOnlyWake (counted.held old memberOld)

theorem foundHolds {task : Task} {fd : Int} {file : Nat} (found : findOpenFile task fd = some file) :
    ∃ e ∈ task.files, e.file = file := by
  obtain ⟨e, foundE, rfl⟩ := Option.map_eq_some_iff.mp found
  exact ⟨e, foundMember foundE, rfl⟩

theorem holdsCounted {s : State} {t : Nat} {task : Task} {file : Nat} (counted : Refs s)
    (found : s.tasks[t]? = some task) (holds : ∃ e ∈ task.files, e.file = file) :
    0 < (s.files file).refcount := by
  obtain ⟨e, entry, rfl⟩ := holds
  exact entryHeld counted (List.mem_of_getElem? found) entry

/-! ## The ways a lock call can change the state -/

-- The open file `file` has got the flock lock of `type` for `owner`.
structure FlockGranted (s u : State) (file : Nat) (type : FlockType) (owner : Nat) : Prop where
  noConflict : flockConflict s file type = none
  files : u.files =
    Function.update s.files file {s.files file with flockType := some type, flockOwner := owner}

structure SetlkGranted (s u : State) (file : Nat) (rec : FlockRec) : Prop where
  noConflict : recConflict s file rec.type rec.start rec.len rec.owner = none
  files : u.files = Function.update s.files file
    {s.files file with
      locks := (recRemoveOwner (s.files file) rec.owner).locks ++ [rec]}

theorem removeFades (file : OpenFile) (owner : Nat) : Fades file (recRemoveOwner file owner) :=
  .inr ⟨rfl, rfl, rfl, rfl, List.filter_subset_self .., .inl rfl⟩

theorem flockPassCases {s : State} {t : Nat} {task : Task} {file : Nat} (type : FlockType)
    (nonblock : Bool) (counted : Refs s) (found : s.tasks[t]? = some task)
    (holds : ∃ e ∈ task.files, e.file = file) :
    Refs (flockPass s t task file type nonblock).1 ∧
      (Shrinks s (flockPass s t task file type nonblock).1 ∨
        FlockGranted s (flockPass s t task file type nonblock).1 file type task.pid) := by
  have held := holdsCounted counted found holds
  unfold flockPass
  simp only
  split
  · rename_i none
    refine ⟨phaseRefs (setOpenRefs counted held rfl) found (by simp), .inr ⟨none, rfl⟩⟩
  · split
    · exact ⟨phaseRefs counted found (by simp), .inl (shrinksRefl s)⟩
    · refine ⟨phaseRefs counted found ?_, .inl (shrinksRefl s)⟩
      rintro wait (asleep | woken)
      · cases asleep
        exact holds
      · cases woken

theorem setlkPassCases {s : State} {t : Nat} {task : Task} {file : Nat} (type : RecType)
    (start len : BitVec 32) (waits allocFails : Bool) (counted : Refs s)
    (found : s.tasks[t]? = some task) (holds : ∃ e ∈ task.files, e.file = file) :
    Refs (setlkPass s t task file type start len waits allocFails).1 ∧
      (Shrinks s (setlkPass s t task file type start len waits allocFails).1 ∨
        SetlkGranted s (setlkPass s t task file type start len waits allocFails).1 file
          ⟨type, start, len, task.pid⟩) := by
  have held := holdsCounted counted found holds
  unfold setlkPass
  simp only
  split
  · rename_i none
    split
    · refine ⟨phaseRefs (setOpenRefs counted held rfl) found (by simp), .inl ?_⟩
      exact shrinksUpdate (s := s) (removeFades _ _)
    · exact ⟨phaseRefs (setOpenRefs counted held rfl) found (by simp), .inr ⟨none, rfl⟩⟩
  · split
    · refine ⟨phaseRefs counted found ?_, .inl (shrinksRefl s)⟩
      rintro wait (asleep | woken)
      · cases asleep
        exact holds
      · cases woken
    · exact ⟨phaseRefs counted found (by simp), .inl (shrinksRefl s)⟩

/-! ## One step -/

def Inert (s u : State) : Prop := Refs u ∧ Shrinks s u

theorem keepsInert {s u : State} (keeps : Keeps s u) : Inert s u := ⟨keeps.counted, keeps.shrinks⟩

-- What a step asks of the locks: whose open file, and which lock for whom.
inductive Request where
  | flock (file : Nat) (type : FlockType) (owner : Nat)
  | setlk (file : Nat) (rec : FlockRec)

def waitRequest (task : Task) : Wait → Request
  | .flock file type => .flock file type task.pid
  | .setlk file type start len => .setlk file ⟨type, start, len, task.pid⟩

def request (s : State) (action : Action) : Option Request :=
  match s.tasks[action.task]? with
  | none => none
  | some task =>
    match task.phase, action with
    | .woken wait, .resume _ false _ => some (waitRequest task wait)
    | .ready, .flock _ fd op =>
      match findOpenFile task fd, flockTypeOf op with
      | some file, some type => if op &&& LOCK_UN ≠ 0 then none else some (.flock file type task.pid)
      | _, _ => none
    | .ready, .fcntl _ fd cmd flk size _ =>
      match findOpenFile task fd, recTypeOf flk.lType with
      | some file, some type =>
        if cmd = F_SETLK ∨ cmd = F_SETLKW then
          some (.setlk file ⟨type, lockStart (s.files file) flk size, flk.lLen, task.pid⟩)
        else none
      | _, _ => none
    | _, _ => none

def Granted (s u : State) : Request → Prop
  | .flock file type owner => FlockGranted s u file type owner
  | .setlk file rec => SetlkGranted s u file rec

theorem fsFlockCases {s : State} {t : Nat} {task : Task} {fd : Int} {op : Nat} (counted : Refs s)
    (found : s.tasks[t]? = some task) (ready : task.phase = .ready) :
    Refs (fsFlock s t task fd op).1 ∧ (Shrinks s (fsFlock s t task fd op).1 ∨
      ∃ r, request s (.flock t fd op) = some r ∧ Granted s (fsFlock s t task fd op).1 r) := by
  unfold fsFlock
  split
  · exact ⟨counted, .inl (shrinksRefl s)⟩
  rename_i file foundFile
  have holds := foundHolds foundFile
  have held := holdsCounted counted found holds
  split
  · refine ⟨wakeLocksRefs (setOpenRefs counted held rfl), .inl ?_⟩
    exact shrinksUpdate (s := s) (.inr ⟨rfl, rfl, rfl, rfl, List.Subset.refl _, .inr rfl⟩)
  rename_i lock
  split
  · exact ⟨counted, .inl (shrinksRefl s)⟩
  rename_i type typed
  split
  · refine ⟨setOpenRefs counted held rfl, .inl ?_⟩
    exact shrinksUpdate (s := s) (.inr ⟨rfl, rfl, rfl, rfl, List.Subset.refl _, .inl rfl⟩)
  · obtain ⟨counted', shrinks | granted⟩ := flockPassCases type (op &&& LOCK_NB ≠ 0)
      counted found holds
    · exact ⟨counted', .inl shrinks⟩
    · refine ⟨counted', .inr ⟨.flock file type task.pid, ?_, granted⟩⟩
      simp only [request, Action.task, found, ready, foundFile, typed, if_neg lock]

theorem fsFcntlLockCases {s : State} {t : Nat} {task : Task} {fd cmd : Int} {flk : FlockK}
    {size : BitVec 32} {allocFails : Bool} (counted : Refs s) (found : s.tasks[t]? = some task)
    (ready : task.phase = .ready) :
    let u := (fsFcntlLock s t task fd cmd flk size allocFails).1.1
    Refs u ∧ (Shrinks s u ∨
      ∃ r, request s (.fcntl t fd cmd flk size allocFails) = some r ∧ Granted s u r) := by
  unfold fsFcntlLock
  split
  · exact ⟨counted, .inl (shrinksRefl s)⟩
  rename_i file foundFile
  have holds := foundHolds foundFile
  have held := holdsCounted counted found holds
  simp only
  split
  · rename_i set
    split
    · refine ⟨wakeLocksRefs (setOpenRefs counted held rfl), .inl ?_⟩
      exact shrinksUpdate (s := s) (removeFades _ _)
    split
    · exact ⟨counted, .inl (shrinksRefl s)⟩
    rename_i type typed
    obtain ⟨counted', shrinks | granted⟩ := setlkPassCases type (lockStart (s.files file) flk size)
      flk.lLen (cmd = F_SETLKW) allocFails counted found holds
    · exact ⟨counted', .inl shrinks⟩
    · refine ⟨counted', .inr ⟨.setlk file ⟨type, _, _, _⟩, ?_, granted⟩⟩
      simp only [request, Action.task, found, ready, foundFile, typed, if_pos set]
  · split
    · exact ⟨counted, .inl (shrinksRefl s)⟩
    · exact ⟨counted, .inl (shrinksRefl s)⟩

theorem resumeCases {s : State} {t : Nat} {task : Task} {wait : Wait} {pending allocFails : Bool}
    (counted : Refs s) (found : s.tasks[t]? = some task) (woken : task.phase = .woken wait) :
    let u := (resumeLock s t task wait pending allocFails).1
    Refs u ∧ (Shrinks s u ∨
      ∃ r, request s (.resume t pending allocFails) = some r ∧ Granted s u r) := by
  have holds := counted.held task (List.mem_of_getElem? found) wait (.inr woken)
  unfold resumeLock
  cases pending with
  | true => exact ⟨phaseRefs counted found (by simp), .inl (shrinksRefl s)⟩
  | false =>
    have asks : request s (.resume t false allocFails) = some (waitRequest task wait) := by
      simp only [request, Action.task, found, woken]
    rw [asks]
    cases wait with
    | flock file type =>
      obtain ⟨counted', shrinks | granted⟩ := flockPassCases type false counted found holds
      · exact ⟨counted', .inl shrinks⟩
      · exact ⟨counted', .inr ⟨_, rfl, granted⟩⟩
    | setlk file type start len =>
      obtain ⟨counted', shrinks | granted⟩ :=
        setlkPassCases type start len true allocFails counted found holds
      · exact ⟨counted', .inl shrinks⟩
      · exact ⟨counted', .inr ⟨_, rfl, granted⟩⟩

theorem seekKeeps {s : State} {t : Nat} {task : Task} {fd : Int} {offset : BitVec 32}
    (counted : Refs s) (found : s.tasks[t]? = some task) : Inert s (seek s task fd offset) := by
  unfold seek
  split
  · exact ⟨counted, shrinksRefl s⟩
  · rename_i file foundFile
    refine ⟨setOpenRefs counted (holdsCounted counted found (foundHolds foundFile)) rfl, ?_⟩
    exact shrinksUpdate (.inr ⟨rfl, rfl, rfl, rfl, List.Subset.refl _, .inl rfl⟩)

/-! Every step keeps the counts, and either takes no lock or grants the one it asks for. -/
theorem stepCases {s u : State} {action : Action} (counted : Refs s)
    (stepped : step s action = some u) :
    Refs u ∧ (Shrinks s u ∨ ∃ r, request s action = some r ∧ Granted s u r) := by
  unfold step at stepped
  split at stepped <;> try contradiction
  rename_i task found
  have member := List.mem_of_getElem? found
  split at stepped <;> try contradiction
  · rename_i wait t pending allocFails woken
    cases stepped
    exact resumeCases counted found woken
  · rename_i action _ _ ready notResume
    cases stepped
    have readyT : Ready s action.task := by
      intro other foundOther
      rw [found] at foundOther
      exact Option.some.inj foundOther ▸ ready
    have inert : ∀ v, Inert s v → Refs v ∧ (Shrinks s v ∨ ∃ r, request s action = some r ∧
        Granted s v r) := fun v both => ⟨both.1, .inl both.2⟩
    cases action with
    | «open» t fd file => exact inert _ (keepsInert (openKeeps fd file counted found ready))
    | dup t fd newfd cloexec =>
      exact inert _ (keepsInert (dupKeeps fd newfd cloexec counted found ready))
    | dup2 t oldfd newfd cloexec allocFails =>
      exact inert _ (keepsInert (dup2Keeps oldfd newfd cloexec allocFails counted found ready))
    | fork t pid => exact inert _ (keepsInert (forkKeeps pid counted member))
    | exec t => exact inert _ (keepsInert (execKeeps counted readyT))
    | close t fd => exact inert _ (keepsInert (closeKeeps fd counted readyT).1)
    | exit t => exact inert _ (keepsInert (exitKeeps counted found ready))
    | seek t fd offset => exact inert _ (seekKeeps counted found)
    | flock t fd op => exact fsFlockCases counted found ready
    | fcntl t fd cmd flk size allocFails => exact fsFcntlLockCases counted found ready
    | resume t pending allocFails => exact absurd rfl (notResume t pending allocFails)

/-! ## flock excludes -/

/- An open file has one flock type or none. Of two open files of one file, neither is
locked exclusively while the other is locked at all. -/
def FlockExclusive (s : State) : Prop :=
  ∀ f g, f ≠ g → fileId (s.files f) = fileId (s.files g) →
    (s.files f).flockType = some .ex → (s.files g).flockType = none

-- The lock that another open file `g` of the same file holds rules out `type` for `file`.
def FlockClash (s : State) (file : Nat) (type : FlockType) (g : Nat) : Prop :=
  g ≠ file ∧ fileId (s.files g) = fileId (s.files file) ∧ (s.files g).flockType ≠ none ∧
    (type = .ex ∨ (s.files g).flockType = some .ex)

def flockCareful (s : State) (action : Action) : Prop :=
  ∀ file type owner, request s action = some (.flock file type owner) →
    (∃ g, FlockClash s file type g) → Statable (s.files file)

theorem flockKept {s u : State} (exclusive : FlockExclusive s)
    (kept : ∀ id, (u.files id).flockType = none ∨ fileId (u.files id) = fileId (s.files id) ∧
      (u.files id).flockType = (s.files id).flockType) : FlockExclusive u := by
  intro f g differ same locked
  rcases kept f with gone | ⟨fileF, typeF⟩
  · rw [gone] at locked
    contradiction
  · rcases kept g with gone | ⟨fileG, typeG⟩
    · exact gone
    · rw [typeG]
      exact exclusive f g differ (by rw [← fileF, ← fileG, same]) (typeF ▸ locked)

theorem shrinksFlock {s u : State} (shrinks : Shrinks s u) (id : Nat) :
    (u.files id).flockType = none ∨ fileId (u.files id) = fileId (s.files id) ∧
      (u.files id).flockType = (s.files id).flockType := by
  rcases shrinks id with ⟨-, gone⟩ | ⟨fsId, fsPrivate, node, pipe, -, same | gone⟩
  · exact .inl gone
  · exact .inr ⟨by simp only [fileId, fsId, fsPrivate, node, pipe], same⟩
  · exact .inl gone

theorem clashBlocks {s : State} (counted : Refs s) {file g : Nat} {type : FlockType}
    (stat : Statable (s.files file)) (clash : FlockClash s file type g) :
    flockConflict s file type ≠ none := by
  obtain ⟨other, same, locked, excludes⟩ := clash
  have held : 0 < (s.files g).refcount := by
    apply Nat.pos_of_ne_zero
    intro zero
    exact locked (counted.released g zero).1
  obtain ⟨e, entry, rfl⟩ := visible counted held
  intro none
  have passed := List.findSome?_eq_none_iff.mp none e entry
  simp [other, locked, excludes, sameFileFinds same.symm stat] at passed

theorem flockGrantExclusive {s u : State} {file : Nat} {type : FlockType} {owner : Nat}
    (counted : Refs s) (exclusive : FlockExclusive s) (granted : FlockGranted s u file type owner)
    (seen : (∃ g, FlockClash s file type g) → Statable (s.files file)) : FlockExclusive u := by
  have free : ∀ g, ¬ FlockClash s file type g := fun g clash =>
    clashBlocks counted (seen ⟨g, clash⟩) clash granted.noConflict
  intro f g differ same locked
  simp only [granted.files, Function.update_apply] at same locked ⊢
  rcases eq_or_ne f file with rfl | otherF
  · simp only [if_true, Option.some.injEq] at locked
    simp only [differ.symm, if_true, if_false] at same ⊢
    by_contra held
    exact free g ⟨differ.symm, same.symm, held, .inl locked⟩
  · simp only [otherF, if_false] at same locked
    rcases eq_or_ne g file with rfl | otherG
    · simp only [if_true] at same
      exact absurd ⟨otherF, same, by simp [locked], .inr locked⟩ (free f)
    · simp only [otherG, if_false] at same ⊢
      exact exclusive f g differ same locked

theorem flockStep (s : State) (action : Action) (u : State)
    (inv : Refs s ∧ FlockExclusive s) (careful : flockCareful s action)
    (stepped : step s action = some u) : Refs u ∧ FlockExclusive u := by
  obtain ⟨counted, exclusive⟩ := inv
  obtain ⟨counted', shrinks | ⟨r, asked, granted⟩⟩ := stepCases counted stepped
  · exact ⟨counted', flockKept exclusive (shrinksFlock shrinks)⟩
  · refine ⟨counted', ?_⟩
    cases r with
    | flock file type owner =>
      exact flockGrantExclusive counted exclusive granted (careful file type owner asked)
    | setlk file rec =>
      refine flockKept exclusive fun id => .inr ?_
      simp only [granted.files, Function.update_apply]
      split
      · rename_i same
        exact same ▸ ⟨rfl, rfl⟩
      · exact ⟨rfl, rfl⟩

theorem startRefs (pid : Nat) : Refs (start pid) where
  counts := fun id => rfl
  released := fun id _ => ⟨rfl, rfl⟩
  fresh := fun id _ => rfl
  held := by
    intro task member wait waiting
    rw [List.mem_singleton.mp member] at waiting
    simp at waiting

theorem flockExclusion {pid : Nat} {acts : List Action} {s : State}
    (careful : Meets step flockCareful (start pid) acts)
    (ran : run step (start pid) acts = some s) : FlockExclusive s :=
  (invariantMeets flockStep ⟨startRefs pid, fun _ _ _ _ locked => nomatch locked⟩ careful ran).2

-- Two opens of one file: the second waits for the first to unlock.
def hammer : OpenFile := {noFile with fsId := 0, node := .inode 7}

def lockAndWait : List Action :=
  [.open 0 3 hammer, .open 0 4 hammer, .fork 0 2, .flock 0 3 LOCK_EX, .flock 1 4 LOCK_SH,
    .flock 0 3 LOCK_UN, .resume 1 false false]

theorem lockAndWaitExclusive :
    ∃ s, run step (start 1) lockAndWait = some s ∧ (s.files 1).flockType = some .sh ∧
      FlockExclusive s := by
  have ends : (run step (start 1) lockAndWait).isSome := rfl
  have careful : Meets step flockCareful (start 1) lockAndWait := by
    refine ⟨?_, ?_⟩
    · rintro _ _ _ ⟨⟩
    rintro _ ⟨⟩
    refine ⟨?_, ?_⟩
    · rintro _ _ _ ⟨⟩
    rintro _ ⟨⟩
    refine ⟨?_, ?_⟩
    · rintro _ _ _ ⟨⟩
    rintro _ ⟨⟩
    refine ⟨?_, ?_⟩
    · rintro _ _ _ ⟨⟩ _
      exact .inr rfl
    rintro _ ⟨⟩
    refine ⟨?_, ?_⟩
    · rintro _ _ _ ⟨⟩ _
      exact .inr rfl
    rintro _ ⟨⟩
    refine ⟨?_, ?_⟩
    · rintro _ _ _ ⟨⟩
    rintro _ ⟨⟩
    refine ⟨?_, fun _ _ => trivial⟩
    rintro _ _ _ ⟨⟩ _
    exact .inr rfl
  exact ⟨(run step (start 1) lockAndWait).get ends, (Option.some_get ends).symm, rfl,
    flockExclusion careful (Option.some_get ends).symm⟩

/- The root directory of devfs, opened twice: fstat fails on it, so same_file takes the
two for different files and both are locked exclusively. -/
def lockDevRoot : List Action :=
  [.open 0 3 {noFile with fsId := 2}, .open 0 4 {noFile with fsId := 2},
    .flock 0 3 (LOCK_EX ||| LOCK_NB), .flock 0 4 (LOCK_EX ||| LOCK_NB)]

theorem devRootLockedTwice :
    ∃ s, run step (start 1) lockDevRoot = some s ∧ fileId (s.files 0) = fileId (s.files 1) ∧
      (s.files 0).flockType = some .ex ∧ (s.files 1).flockType = some .ex ∧
      ¬ FlockExclusive s := by
  refine ⟨_, rfl, rfl, rfl, rfl, ?_⟩
  intro exclusive
  have free := exclusive 0 1 (by simp) rfl rfl
  contradiction

/-! ## Record locks exclude -/

-- The bytes of a lock; length 0 reaches to the end of the offset space.
def covers (start len : BitVec 32) (b : Nat) : Prop :=
  start.toNat ≤ b ∧ b < 2 ^ 32 ∧ (len = 0 ∨ b < start.toNat + len.toNat)

-- The range ends before the last offset, which no 32-bit end reaches past.
def EndFits (start len : BitVec 32) : Prop :=
  if len = 0 then start ≠ 0xFFFFFFFF#32 else start.toNat + len.toNat < 2 ^ 32

-- Where the end fits, it lies behind every byte of the range but the very last offset.
theorem endBehind {start len : BitVec 32} {b : Nat} (fits : EndFits start len)
    (inside : covers start len b) :
    start.toNat ≤ min b (2 ^ 32 - 2) ∧ min b (2 ^ 32 - 2) < (rangeEnd start len).toNat := by
  obtain ⟨behind, small, reaches⟩ := inside
  unfold EndFits at fits
  unfold rangeEnd
  split at fits
  · rename_i zero
    have last : start.toNat ≠ 2 ^ 32 - 1 := fun h => fits (BitVec.eq_of_toNat_eq h)
    have range := start.isLt
    simp only [zero, ne_eq, not_true, if_false]
    refine ⟨by omega, ?_⟩
    change _ < 2 ^ 32 - 1
    omega
  · rename_i positive
    have length : len.toNat ≠ 0 := fun h => positive (BitVec.eq_of_toNat_eq h)
    have before : b < start.toNat + len.toNat := reaches.resolve_left positive
    simp only [positive, ne_eq, not_false_eq_true, if_true, BitVec.toNat_add]
    rw [Nat.mod_eq_of_lt fits]
    omega

theorem overlapFound {aStart aLen bStart bLen : BitVec 32} {b : Nat} (fitsA : EndFits aStart aLen)
    (fitsB : EndFits bStart bLen) (inA : covers aStart aLen b) (inB : covers bStart bLen b) :
    rangesOverlap aStart aLen bStart bLen = true := by
  obtain ⟨startA, endA⟩ := endBehind fitsA inA
  obtain ⟨startB, endB⟩ := endBehind fitsB inB
  have first : ¬ rangeEnd bStart bLen ≤ aStart := by
    rw [BitVec.le_def]
    omega
  have second : ¬ rangeEnd aStart aLen ≤ bStart := by
    rw [BitVec.le_def]
    omega
  rw [rangesOverlap, if_neg first, if_neg second]

def RecordExclusive (s : State) : Prop :=
  ∀ f g, fileId (s.files f) = fileId (s.files g) → ∀ r ∈ (s.files f).locks,
    ∀ q ∈ (s.files g).locks, r.owner ≠ q.owner →
      (∃ b, covers r.start r.len b ∧ covers q.start q.len b) →
      r.type = .rdlck ∧ q.type = .rdlck

structure RecClash (s : State) (file : Nat) (rec : FlockRec) (g : Nat) (r : FlockRec) : Prop where
  same : fileId (s.files g) = fileId (s.files file)
  held : r ∈ (s.files g).locks
  owner : r.owner ≠ rec.owner
  bytes : ∃ b, covers rec.start rec.len b ∧ covers r.start r.len b
  writes : rec.type = .wrlck ∨ r.type = .wrlck

-- One of the locks that rule the request out is one that the code can see.
def setlkCareful (s : State) (action : Action) : Prop :=
  ∀ file rec, request s action = some (.setlk file rec) → (∃ g r, RecClash s file rec g r) →
    ∃ g r, RecClash s file rec g r ∧ g ≠ file ∧ Statable (s.files file) ∧
      EndFits rec.start rec.len ∧ EndFits r.start r.len

theorem recordKept {s u : State} (exclusive : RecordExclusive s)
    (kept : ∀ id, (u.files id).locks = [] ∨ fileId (u.files id) = fileId (s.files id) ∧
      (u.files id).locks ⊆ (s.files id).locks) : RecordExclusive u := by
  intro f g same r inF q inG owners bytes
  rcases kept f with gone | ⟨fileF, locksF⟩
  · simp [gone] at inF
  · rcases kept g with gone | ⟨fileG, locksG⟩
    · simp [gone] at inG
    · exact exclusive f g (by rw [← fileF, ← fileG, same]) r (locksF inF) q (locksG inG) owners bytes

theorem shrinksRecord {s u : State} (shrinks : Shrinks s u) (id : Nat) :
    (u.files id).locks = [] ∨ fileId (u.files id) = fileId (s.files id) ∧
      (u.files id).locks ⊆ (s.files id).locks := by
  rcases shrinks id with ⟨gone, -⟩ | ⟨fsId, fsPrivate, node, pipe, locks, -⟩
  · exact .inl gone
  · exact .inr ⟨by simp only [fileId, fsId, fsPrivate, node, pipe], locks⟩

theorem recClashBlocks {s : State} (counted : Refs s) {file g : Nat} {rec r : FlockRec}
    (clash : RecClash s file rec g r) (other : g ≠ file) (stat : Statable (s.files file))
    (fits : EndFits rec.start rec.len) (fitsR : EndFits r.start r.len) :
    recConflict s file rec.type rec.start rec.len rec.owner ≠ none := by
  obtain ⟨same, held, owner, ⟨b, inRec, inR⟩, writes⟩ := clash
  have counts : 0 < (s.files g).refcount := by
    apply Nat.pos_of_ne_zero
    intro zero
    simp [(counted.released g zero).2] at held
  obtain ⟨e, entry, rfl⟩ := visible counted counts
  intro none
  have passed := List.findSome?_eq_none_iff.mp none e entry
  simp only [other, sameFileFinds same.symm stat, Bool.true_eq_false, or_self, if_false] at passed
  have missed := List.find?_eq_none.mp passed r held
  simp [owner, overlapFound fits fitsR inRec inR, writes] at missed

theorem setlkGrantExclusive {s u : State} {file : Nat} {rec : FlockRec} (counted : Refs s)
    (exclusive : RecordExclusive s) (granted : SetlkGranted s u file rec)
    (seen : (∃ g r, RecClash s file rec g r) →
      ∃ g r, RecClash s file rec g r ∧ g ≠ file ∧ Statable (s.files file) ∧
        EndFits rec.start rec.len ∧ EndFits r.start r.len) : RecordExclusive u := by
  have free : ∀ g r, ¬ RecClash s file rec g r := by
    intro g r clash
    obtain ⟨g', r', clash', other, stat, fits, fitsR⟩ := seen ⟨g, r, clash⟩
    exact recClashBlocks counted clash' other stat fits fitsR granted.noConflict
  have fileIds : ∀ id, fileId (u.files id) = fileId (s.files id) := by
    intro id
    simp only [granted.files, Function.update_apply]
    split
    · rename_i same
      rw [same]
      rfl
    · rfl
  -- A record afterwards is one of before, or the one granted and on its file.
  have records : ∀ id, ∀ r ∈ (u.files id).locks,
      r ∈ (s.files id).locks ∨ r = rec ∧ id = file := by
    intro id r member
    simp only [granted.files, Function.update_apply] at member
    split at member
    · rename_i same
      subst same
      rcases List.mem_append.mp member with old | new
      · exact .inl (List.mem_filter.mp old).1
      · exact .inr ⟨List.mem_singleton.mp new, rfl⟩
    · exact .inl member
  intro f g same r inF q inG owners bytes
  rw [fileIds, fileIds] at same
  rcases records f r inF with oldR | ⟨rfl, rfl⟩
  · rcases records g q inG with oldQ | ⟨rfl, rfl⟩
    · exact exclusive f g same r oldR q oldQ owners bytes
    · have noClash := free f r
      by_contra write
      refine noClash ⟨same, oldR, owners, ?_, ?_⟩
      · obtain ⟨b, inR, inQ⟩ := bytes
        exact ⟨b, inQ, inR⟩
      · cases hr : r.type <;> cases hq : q.type <;> simp_all
  · rcases records g q inG with oldQ | ⟨rfl, rfl⟩
    · have noClash := free g q
      by_contra write
      refine noClash ⟨same.symm, oldQ, owners.symm, bytes, ?_⟩
      cases hr : r.type <;> cases hq : q.type <;> simp_all
    · exact absurd rfl owners

theorem setlkStep (s : State) (action : Action) (u : State)
    (inv : Refs s ∧ RecordExclusive s) (careful : setlkCareful s action)
    (stepped : step s action = some u) : Refs u ∧ RecordExclusive u := by
  obtain ⟨counted, exclusive⟩ := inv
  obtain ⟨counted', shrinks | ⟨r, asked, granted⟩⟩ := stepCases counted stepped
  · exact ⟨counted', recordKept exclusive (shrinksRecord shrinks)⟩
  · refine ⟨counted', ?_⟩
    cases r with
    | setlk file rec =>
      exact setlkGrantExclusive counted exclusive granted (careful file rec asked)
    | flock file type owner =>
      refine recordKept exclusive fun id => .inr ?_
      simp only [granted.files, Function.update_apply]
      split
      · rename_i same
        exact same ▸ ⟨rfl, List.Subset.refl _⟩
      · exact ⟨rfl, List.Subset.refl _⟩

theorem recordExclusion {pid : Nat} {acts : List Action} {s : State}
    (careful : Meets step setlkCareful (start pid) acts)
    (ran : run step (start pid) acts = some s) : RecordExclusive s :=
  (invariantMeets setlkStep
    ⟨startRefs pid, fun _ _ _ _ held => nomatch held⟩ careful ran).2

def writeLock (lStart lLen : BitVec 32) : FlockK := ⟨F_WRLCK, 0, lStart, lLen, 0⟩

-- Two processes open a file for themselves; the second is refused an overlapping lock.
def lockTwice : List Action :=
  [.open 0 3 hammer, .fork 0 2, .open 1 4 hammer, .fcntl 0 3 F_SETLK (writeLock 0 10) 0 false,
    .fcntl 1 4 F_SETLK (writeLock 5 10) 0 false]

theorem lockTwiceExclusive :
    ∃ s, run step (start 1) lockTwice = some s ∧
      (s.files 0).locks = [⟨.wrlck, 0, 10, 1⟩] ∧ (s.files 1).locks = [] ∧ RecordExclusive s := by
  have ends : (run step (start 1) lockTwice).isSome := rfl
  have careful : Meets step setlkCareful (start 1) lockTwice := by
    refine ⟨?_, ?_⟩
    · rintro _ _ ⟨⟩
    rintro _ ⟨⟩
    refine ⟨?_, ?_⟩
    · rintro _ _ ⟨⟩
    rintro _ ⟨⟩
    refine ⟨?_, ?_⟩
    · rintro _ _ ⟨⟩
    rintro _ ⟨⟩
    refine ⟨?_, ?_⟩
    · rintro _ _ ⟨⟩ ⟨g, r, clash⟩
      have held := clash.held
      match g with
      | 0 => cases held
      | 1 => cases held
      | g + 2 => cases held
    rintro _ ⟨⟩
    refine ⟨?_, fun _ _ => trivial⟩
    rintro _ _ ⟨⟩ _
    refine ⟨0, ⟨.wrlck, 0, 10, 1⟩, ⟨rfl, List.mem_cons_self, by decide, ⟨5, ?_, ?_⟩, .inl rfl⟩,
      by decide, .inr rfl, ?_, ?_⟩
    · exact ⟨by decide, by decide, .inr (by decide)⟩
    · exact ⟨by decide, by decide, .inr (by decide)⟩
    · change EndFits 5 10
      simp [EndFits]
    · simp [EndFits]
  exact ⟨(run step (start 1) lockTwice).get ends, (Option.some_get ends).symm, rfl, rfl,
    recordExclusion careful (Option.some_get ends).symm⟩

/- Parent and child share one open file, which rec_conflict passes over; both get a
write lock on all of it. -/
def lockAcrossFork : List Action :=
  [.open 0 3 hammer, .fork 0 2, .fcntl 0 3 F_SETLK (writeLock 0 0) 0 false,
    .fcntl 1 3 F_SETLK (writeLock 0 0) 0 false]

-- The last 16 offsets: the 32-bit end is 0, and no range overlaps one that ends there.
def lockLastBytes : List Action :=
  [.open 0 3 hammer, .fork 0 2, .open 1 4 hammer,
    .fcntl 0 3 F_SETLK (writeLock 0xFFFFFFF0 16) 0 false,
    .fcntl 1 4 F_SETLK (writeLock 0xFFFFFFF0 16) 0 false]

theorem writeLocksOverlap :
    (∃ s, run step (start 1) lockAcrossFork = some s ∧
      (s.files 0).locks = [⟨.wrlck, 0, 0, 1⟩, ⟨.wrlck, 0, 0, 2⟩] ∧ ¬ RecordExclusive s) ∧
    (∃ s, run step (start 1) lockLastBytes = some s ∧
      (s.files 0).locks = [⟨.wrlck, 0xFFFFFFF0, 16, 1⟩] ∧
      (s.files 1).locks = [⟨.wrlck, 0xFFFFFFF0, 16, 2⟩] ∧ ¬ RecordExclusive s) := by
  refine ⟨⟨_, rfl, rfl, ?_⟩, ⟨_, rfl, rfl, rfl, ?_⟩⟩
  · intro exclusive
    have both := exclusive 0 0 rfl ⟨.wrlck, 0, 0, 1⟩ List.mem_cons_self ⟨.wrlck, 0, 0, 2⟩
      (List.mem_cons_of_mem _ List.mem_cons_self) (by decide)
      ⟨0, ⟨by decide, by decide, .inl rfl⟩, ⟨by decide, by decide, .inl rfl⟩⟩
    exact absurd both.1 (by decide)
  · intro exclusive
    have both := exclusive 0 1 rfl ⟨.wrlck, 0xFFFFFFF0, 16, 1⟩ List.mem_cons_self
      ⟨.wrlck, 0xFFFFFFF0, 16, 2⟩ List.mem_cons_self (by decide)
      ⟨0xFFFFFFF0, ⟨by decide, by decide, .inr (by decide)⟩,
        ⟨by decide, by decide, .inr (by decide)⟩⟩
    exact absurd both.1 (by decide)

end Scepter.Locks
