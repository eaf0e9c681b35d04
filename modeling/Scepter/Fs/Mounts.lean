import Scepter.Fs.Descriptors
import Scepter.Fs.Paths

/-! The mount table (fs/vfs.c) and the private data of the file systems: an info
structure for each minix3 and ext2 mount, the linked nodes for a tmpfs mount, nothing
for devfs and procfs. A call that reaches a driver holds what it looked up from its
`start` to its `finish`, and a task that waits for the disk in between may be resumed
any number of times; tmpfs never waits. Descriptor calls are those of the descriptor
tables; one that closes several files may be taken as several closes. -/
namespace Scepter.Mounts
open Scepter.Path (Str)

def MAX_MOUNT_POINTS : Nat := 16

inductive Driver where
  | devfs | minix3 | ext2 | procfs | tmpfs
  deriving DecidableEq

inductive Data where
  | fs (inst : Nat)
  | node (n : Nat)
  deriving DecidableEq

structure Mount where
  path : Str
  driver : Driver
  inst : Nat

structure Handle where
  driver : Driver
  inst : Nat
  node : Nat

inductive PathCall where
  -- stat, readlink, chmod, utime, statfs and all calls that fail
  | look
  -- mkdir of a tmpfs
  | create
  -- rmdir or unlink of a tmpfs
  | drop (n : Nat)
  -- O_CREAT has made the file or not, and which allocations succeed
  | openFile (made : Bool) (n : Nat) (fileRoom entryRoom cloexec : Bool)
  -- chdir of a directory
  | chdir

inductive Work where
  | path (abs : Str) (m : Mount) (what : PathCall)
  -- read, write, truncate, readdir, fstat
  | file (h : Handle)
  | mounting (slot : Nat) (path : Str) (driver : Driver)
  | unmounting (slot : Nat) (m : Mount)

structure State where
  desc : Descriptors.State
  -- of the open files; none for an end of a pipe
  handle : Nat → Option Handle
  dirs : Nat → Vfs.Task
  mounts : Nat → Option Mount
  -- the nodes of a tmpfs that hang in its tree, the root among them
  tree : Nat → List Nat
  nextInst : Nat
  nextNode : Nat
  busy : Nat → Option Work
  released : List Data

/-! ## What is used -/

def Handle.data (h : Handle) : List Data :=
  match h.driver with
  | .tmpfs => [.node h.node]
  | .minix3 | .ext2 => [.fs h.inst]
  | .devfs | .procfs => []

def handleData : Option Handle → List Data
  | some h => h.data
  | none => []

def instData (s : State) (m : Mount) : List Data :=
  match m.driver with
  | .tmpfs => (s.tree m.inst).map .node
  | .minix3 | .ext2 => [.fs m.inst]
  | .devfs | .procfs => []

def workData (s : State) : Work → List Data
  | .path _ m _ => instData s m
  | .file h => h.data
  | .mounting .. => []
  | .unmounting _ m => instData s m

def Work.mount : Work → Option Mount
  | .path _ m _ => some m
  | .unmounting _ m => some m
  | _ => none

def busyData (s : State) (t : Nat) : List Data :=
  match s.busy t with
  | some work => workData s work
  | none => []

def closed (s s' : State) : List Data :=
  ((List.range s'.desc.next).filter fun id =>
    (s'.desc.files id).releases ≠ (s.desc.files id).releases).flatMap fun id =>
      handleData (s'.handle id)

/-! ## The mount table -/

def slots : List Nat := List.range MAX_MOUNT_POINTS

def fsIsMounted (s : State) (path : Str) : Bool :=
  slots.any fun i => match s.mounts i with
    | some m => m.path = path
    | none => false

def freeSlot (s : State) : Option Nat := slots.find? fun i => (s.mounts i).isNone

def slotOf (s : State) (path : Str) : Option (Nat × Mount) :=
  slots.findSome? fun i => match s.mounts i with
    | some m => if m.path = path then some (i, m) else none
    | none => none

def covers (path abs : Str) : Bool :=
  path = ['/'] ∨ path <+: abs ∧ (abs.length = path.length ∨ abs[path.length]? = some '/')

def better (s : State) (abs : Str) (best : Option Mount) (i : Nat) : Option Mount :=
  match s.mounts i with
  | some m =>
    if covers m.path abs ∧ m.path.length > (best.map fun b => b.path.length).getD 0 then some m
    else best
  | none => best

def findMountPoint (s : State) (abs : Str) : Option Mount := slots.foldl (better s abs) none

/-! ## Calls -/

inductive Call where
  | path (path : Str) (what : PathCall)
  | file (fd : Int)
  | mount (path : Str) (driver : Driver)
  | unmount (path : Str)

def setBusy (s : State) (t : Nat) (work : Option Work) : State :=
  {s with busy := Function.update s.busy t work}

def start (s : State) (t : Nat) (task : Descriptors.Task) : Call → State
  | .path path what => match Vfs.resolve (s.dirs t) path with
    | .path abs => match findMountPoint s abs with
      | some m => setBusy s t (some (.path abs m what))
      | none => s
    | _ => s
  | .file fd => match Descriptors.findFdEntry task fd with
    | some e => match s.handle e.file with
      | some h => setBusy s t (some (.file h))
      | none => s
    | none => s
  | .mount path driver =>
    if fsIsMounted s path then s
    else match freeSlot s with
      | some slot => setBusy s t (some (.mounting slot path driver))
      | none => s
  | .unmount path => match slotOf s path with
    | some (slot, m) => setBusy s t (some (.unmounting slot m))
    | none => s

def setTree (s : State) (inst : Nat) (nodes : List Nat) : State :=
  {s with tree := Function.update s.tree inst nodes}

def addNode (s : State) (inst : Nat) : State :=
  {setTree s inst (s.tree inst ++ [s.nextNode]) with nextNode := s.nextNode + 1}

def openHandle (s : State) (t : Nat) (h : Handle) (fileRoom entryRoom cloexec : Bool) :
    Option State :=
  (Descriptors.step s.desc (.openFile t fileRoom entryRoom cloexec)).map fun desc =>
    {s with
      desc := desc
      handle := if fileRoom then Function.update s.handle s.desc.next (some h) else s.handle}

def finishPath (s : State) (t : Nat) (abs : Str) (m : Mount) : PathCall → Option State
  | .look => some s
  | .create => some (if m.driver = .tmpfs then addNode s m.inst else s)
  | .drop n => some (if m.driver = .tmpfs then setTree s m.inst ((s.tree m.inst).erase n) else s)
  | .openFile made n fileRoom entryRoom cloexec =>
    if m.driver = .tmpfs then
      if made then
        openHandle (addNode s m.inst) t ⟨.tmpfs, m.inst, s.nextNode⟩ fileRoom entryRoom cloexec
      else if n ∈ s.tree m.inst then
        openHandle s t ⟨.tmpfs, m.inst, n⟩ fileRoom entryRoom cloexec
      else none
    else openHandle s t ⟨m.driver, m.inst, n⟩ fileRoom entryRoom cloexec
  | .chdir => some {s with
    dirs := Function.update s.dirs t {s.dirs t with cwd := Vfs.stored abs}}

def fsMount (s : State) (slot : Nat) (path : Str) (driver : Driver) : State :=
  let inst := s.nextInst
  let s := {s with
    mounts := Function.update s.mounts slot (some ⟨path, driver, inst⟩)
    nextInst := inst + 1}
  if driver = .tmpfs then addNode s inst else s

def fsUnmount (s : State) (slot : Nat) (m : Mount) : State :=
  {s with
    mounts := Function.update s.mounts slot none
    released := instData s m ++ s.released}

def finish (s : State) (t : Nat) (ok : Bool) : Work → Option State
  | .path abs m what => finishPath s t abs m what
  | .file _ => some s
  | .mounting slot path driver => some (if ok then fsMount s slot path driver else s)
  | .unmounting slot m => some (fsUnmount s slot m)

inductive Action where
  | start (t : Nat) (c : Call)
  | resume (t : Nat)
  | finish (t : Nat) (ok : Bool)
  | descriptor (t : Nat) (a : Descriptors.Action)

def caller : Descriptors.Action → Option Nat
  | .spawn _ | .openFile .. => none
  | .close t _ | .pipe t _ | .dupMin t .. | .dup2 t .. | .setCloexec t .. | .closeRange t ..
  | .setrlimit t _ | .fork t _ | .exec t | .exit t => some t

def inherit (s : State) : Descriptors.Action → State
  | .fork t none => {s with dirs := Function.update s.dirs s.desc.tasks.length (s.dirs t)}
  | _ => s

def step (s : State) : Action → Option State
  | .start t c => match Descriptors.runningTask s.desc t with
    | some task => if (s.busy t).isNone then some (start s t task c) else none
    | none => none
  | .resume t => if (s.busy t).isSome then some s else none
  | .finish t ok => match s.busy t with
    | some work => (finish s t ok work).map fun s => setBusy s t none
    | none => none
  | .descriptor t a =>
    if caller a = some t ∧ (s.busy t).isNone then
      (Descriptors.step s.desc a).map fun desc => {inherit s a with desc := desc}
    else none

def uses (s : State) (a : Action) (s' : State) : List Data :=
  match a with
  | .start t _ => busyData s' t
  | .resume t => busyData s t
  | .finish t _ => busyData s t ++ closed s s'
  | .descriptor .. => closed s s'

def boot (nofile : Option Int) : State where
  desc := Descriptors.boot nofile
  handle _ := none
  dirs _ := ⟨['/'], ['/']⟩
  mounts _ := none
  tree _ := []
  nextInst := 0
  nextNode := 0
  busy _ := none
  released := []

/-! ## Files that a descriptor call can reach -/

section Descriptors
open Descriptors

def Opened (s : Descriptors.State) (id : Nat) : Prop :=
  ∃ task ∈ s.tasks, ∃ e ∈ task.files, e.file = id

structure Kept (n : Nat) (s s' : Descriptors.State) : Prop where
  next : s.next ≤ s'.next
  opened : ∀ id, Opened s' id → Opened s id ∨ n ≤ id
  closed : ∀ id, (s'.files id).releases ≠ (s.files id).releases → Opened s id ∨ n ≤ id

variable {n : Nat} {s s' s'' : Descriptors.State} {t : Nat} {task : Descriptors.Task}

theorem keptRefl : Kept n s s := ⟨Nat.le_refl _, fun _ => .inl, fun _ changed => absurd rfl changed⟩

theorem keptTrans (first : Kept n s s') (second : Kept n s' s'') : Kept n s s'' := by
  have before : ∀ id, Opened s' id ∨ n ≤ id → Opened s id ∨ n ≤ id :=
    fun id => fun | .inl was => first.opened id was | .inr new => .inr new
  refine ⟨first.next.trans second.next, fun id is => before id (second.opened id is),
    fun id changed => ?_⟩
  by_cases same : (s''.files id).releases = (s'.files id).releases
  · exact first.closed id (same ▸ changed)
  · exact before id (second.closed id same)

theorem tasksKept {tasks : List Descriptors.Task} (clash : Bool)
    (entries : ∀ task ∈ tasks, ∀ e ∈ task.files, Opened s e.file ∨ n ≤ e.file) :
    Kept n s {s with tasks := tasks, clash := clash} := by
  refine ⟨Nat.le_refl _, fun id is => ?_, fun _ changed => absurd rfl changed⟩
  obtain ⟨task, member, e, entry, rfl⟩ := is
  exact entries task member e entry

theorem modifyMem {tasks : List Descriptors.Task} {change : Descriptors.Task → Descriptors.Task}
    (member : task ∈ tasks.modify t change) :
    task ∈ tasks ∨ ∃ before ∈ tasks, task = change before := by
  obtain ⟨i, bound, rfl⟩ := List.getElem_of_mem member
  rw [List.getElem_modify]
  split
  · exact .inr ⟨_, List.getElem_mem _, rfl⟩
  · exact .inl (List.getElem_mem _)

theorem modifyKept (clash : Bool) (change : Descriptors.Task → Descriptors.Task)
    (entries : ∀ task ∈ s.tasks, ∀ e ∈ (change task).files, Opened s e.file ∨ n ≤ e.file) :
    Kept n s {s with tasks := s.tasks.modify t change, clash := clash} := by
  refine tasksKept clash fun task member e entry => ?_
  rcases modifyMem member with same | ⟨before, listed, rfl⟩
  · exact .inl ⟨task, same, e, entry, rfl⟩
  · exact entries before listed e entry

theorem fileKept {id : Nat} (file : Descriptors.File) (known : Opened s id ∨ n ≤ id) :
    Kept n s (setFile s id file) := by
  refine ⟨Nat.le_refl _, fun _ is => .inl is, fun other changed => ?_⟩
  by_cases same : other = id
  · exact same ▸ known
  · unfold setFile at changed
    dsimp only at changed
    rw [Function.update_of_ne same] at changed
    exact absurd rfl changed

theorem takeKept (id : Nat) : Kept n s (takeRef s id) := by
  refine ⟨Nat.le_refl _, fun _ is => .inl is, fun other changed => absurd ?_ changed⟩
  unfold takeRef setFile
  dsimp only
  by_cases same : other = id
  · rw [same, Function.update_self]
  · rw [Function.update_of_ne same]

theorem takeAllKept (entries : List OpenFiles.FdEntry) :
    Kept n s (entries.foldl (fun s e => takeRef s e.file) s) := by
  induction entries generalizing s with
  | nil => exact keptRefl
  | cons e rest ih => exact keptTrans (takeKept e.file) ih

theorem allocKept (new : n ≤ s.next) : Kept n s (allocOpenFile s) := by
  have files := fileKept (s := s) ⟨1, 0⟩ (.inr new)
  exact ⟨Nat.le_succ _, files.opened, files.closed⟩

theorem entryKept {e : OpenFiles.FdEntry} {nextFd : Int} (kept : Kept n s s')
    (known : Opened s e.file ∨ n ≤ e.file) : Kept n s (addEntry s' t task e nextFd) := by
  refine ⟨kept.next, fun id is => ?_, kept.closed⟩
  obtain ⟨task', member, e', entry, rfl⟩ := is
  rcases modifyMem member with same | ⟨before, listed, rfl⟩
  · exact kept.opened _ ⟨task', same, e', entry, rfl⟩
  · rcases List.mem_append.mp entry with was | single
    · exact kept.opened _ ⟨before, listed, e', was, rfl⟩
    · exact List.mem_singleton.mp single ▸ known

theorem closeKept (fd : Int) : Kept n s (fsClose s t fd) := by
  unfold fsClose
  split
  · exact keptRefl
  rename_i task inTable
  split
  · exact keptRefl
  rename_i e found
  have opened : Opened s e.file :=
    ⟨task, List.mem_of_getElem? inTable, e, List.mem_of_find?_eq_some found, rfl⟩
  refine keptTrans (fileKept _ (.inl opened)) (modifyKept (s := openFilePut s e.file) s.clash _ ?_)
  intro task member e' entry
  exact .inl ⟨task, member, e', List.mem_of_mem_eraseP entry, rfl⟩

theorem closeAllKept (fds : List Int) : Kept n s (closeAll s t fds) := by
  unfold closeAll
  induction fds generalizing s with
  | nil => exact keptRefl
  | cons fd rest ih => exact keptTrans (closeKept fd) ih

theorem flagKept (fd : Int) (cloexec : Bool) : Kept n s (setCloexec s t fd cloexec) := by
  refine modifyKept s.clash _ fun task member e entry => ?_
  obtain ⟨e', before, rfl⟩ := List.mem_map.mp entry
  split
  · exact .inl ⟨task, member, e', before, rfl⟩
  · exact .inl ⟨task, member, e', before, rfl⟩

theorem openKept (new : n ≤ s.next) (fileRoom entryRoom cloexec : Bool) :
    Kept n s (fsOpen s t task fileRoom entryRoom cloexec) := by
  unfold fsOpen
  split
  · exact keptRefl
  have alloc := allocKept (s := s) new
  dsimp only
  split <;> rename_i made
  · exact keptTrans alloc (fileKept _ (.inr new))
  · unfold allocFdEntry at made
    split at made
    · cases made
    split at made
    · cases made
    · cases made
      exact entryKept alloc (.inr new)

theorem pipeKept (new : n ≤ s.next) (room : PipeRoom) : Kept n s (fsPipe s t task room) := by
  unfold fsPipe
  split
  · exact keptRefl
  split
  · exact keptRefl
  split
  · exact keptRefl
  have alloc := allocKept (s := s) new
  dsimp only
  split
  · exact keptTrans alloc (fileKept _ (.inr new))
  have readEnd : Kept n s (addEntry (allocOpenFile s) t task ⟨task.nextFd, s.next, false⟩
      (Descriptors.cInt (task.nextFd + 1))) := entryKept alloc (.inr new)
  split
  · exact keptTrans readEnd (closeKept _)
  have later : n ≤ (allocOpenFile s).next := Nat.le_succ_of_le new
  have both := keptTrans readEnd (allocKept later)
  split
  · exact keptTrans (keptTrans both (fileKept _ (.inr later))) (closeKept _)
  · exact entryKept both (.inr later)

theorem foundOpened {fd : Int} {e : OpenFiles.FdEntry} (listed : s.tasks[t]? = some task)
    (found : findFdEntry task fd = some e) : Opened s e.file :=
  ⟨task, List.mem_of_getElem? listed, e, List.mem_of_find?_eq_some found, rfl⟩

theorem dupMinKept (listed : s.tasks[t]? = some task) (oldfd minfd : Int) (cloexec room : Bool) :
    Kept n s (fsDupMin s t task oldfd minfd cloexec room) := by
  unfold fsDupMin
  split
  · exact keptRefl
  rename_i old found
  dsimp only
  split
  · exact keptRefl
  · have opened := foundOpened listed found
    exact entryKept (takeKept old.file) (.inl opened)

theorem dup2Kept (listed : s.tasks[t]? = some task) (oldfd newfd : Int) (cloexec room : Bool) :
    Kept n s (fsDup2Fd s t task oldfd newfd cloexec room) := by
  unfold fsDup2Fd
  split
  · exact keptRefl
  split
  · exact flagKept oldfd cloexec
  split
  · exact keptRefl
  rename_i old found
  dsimp only
  split
  · exact closeKept newfd
  · have opened := foundOpened listed found
    exact entryKept (keptTrans (closeKept newfd) (takeKept old.file)) (.inl opened)

theorem forkKept (listed : s.tasks[t]? = some task) (failsAfter : Option Nat) :
    Kept n s (sysFork s task failsAfter) := by
  unfold sysFork
  split
  · have shared := takeAllKept (n := n) (s := s) task.files
    refine ⟨shared.next, fun id is => ?_, shared.closed⟩
    obtain ⟨task', member, e, entry, rfl⟩ := is
    rcases List.mem_append.mp member with before | single
    · exact shared.opened _ ⟨task', before, e, entry, rfl⟩
    · rw [List.mem_singleton.mp single] at entry
      exact .inl ⟨task, List.mem_of_getElem? listed, e, entry, rfl⟩
  · exact takeAllKept _

theorem stepKept {a : Descriptors.Action} (taken : Descriptors.step s a = some s') :
    Kept s.next s s' := by
  unfold Descriptors.step at taken
  cases a with
  | spawn nofile =>
    cases taken
    refine tasksKept s.clash fun task member e entry => ?_
    rcases List.mem_append.mp member with before | single
    · exact .inl ⟨task, before, e, entry, rfl⟩
    · rw [List.mem_singleton.mp single] at entry
      cases entry
  | openFile t fileRoom entryRoom cloexec =>
    obtain ⟨task, running, rfl⟩ := Option.map_eq_some_iff.mp taken
    exact openKept (Nat.le_refl _) fileRoom entryRoom cloexec
  | close t fd =>
    obtain ⟨task, running, rfl⟩ := Option.map_eq_some_iff.mp taken
    exact closeKept fd
  | pipe t room =>
    obtain ⟨task, running, rfl⟩ := Option.map_eq_some_iff.mp taken
    exact pipeKept (Nat.le_refl _) room
  | dupMin t oldfd minfd cloexec room =>
    obtain ⟨task, running, rfl⟩ := Option.map_eq_some_iff.mp taken
    exact dupMinKept (runningHere running) oldfd minfd cloexec room
  | dup2 t oldfd newfd cloexec room =>
    obtain ⟨task, running, rfl⟩ := Option.map_eq_some_iff.mp taken
    exact dup2Kept (runningHere running) oldfd newfd cloexec room
  | setCloexec t fd cloexec =>
    obtain ⟨task, running, rfl⟩ := Option.map_eq_some_iff.mp taken
    exact flagKept fd cloexec
  | closeRange t first last =>
    obtain ⟨task, running, rfl⟩ := Option.map_eq_some_iff.mp taken
    exact closeAllKept _
  | setrlimit t nofile =>
    obtain ⟨task, running, rfl⟩ := Option.map_eq_some_iff.mp taken
    exact modifyKept s.clash _ fun task member e entry =>
      .inl ⟨task, member, e, entry, rfl⟩
  | fork t failsAfter =>
    obtain ⟨task, running, rfl⟩ := Option.map_eq_some_iff.mp taken
    exact forkKept (runningHere running) failsAfter
  | exec t =>
    obtain ⟨task, running, rfl⟩ := Option.map_eq_some_iff.mp taken
    exact closeAllKept _
  | exit t =>
    obtain ⟨task, running, rfl⟩ := Option.map_eq_some_iff.mp taken
    have closed := closeAllKept (n := s.next) (s := s) (t := t)
      (task.files.map OpenFiles.FdEntry.fd)
    exact keptTrans closed (modifyKept (closeAll s t _).clash _
      fun task member e entry => .inl ⟨task, member, e, entry, rfl⟩)

end Descriptors

/-! ## What is held -/

structure Live (s : State) : Prop where
  opened : ∀ id, Opened s.desc id → ∀ d ∈ handleData (s.handle id), d ∉ s.released
  unknown : ∀ id, s.desc.next ≤ id → s.handle id = none
  busy : ∀ t work, s.busy t = some work → ∀ d ∈ workData s work, d ∉ s.released
  mounted : ∀ i m, s.mounts i = some m → ∀ d ∈ instData s m, d ∉ s.released
  -- an instance is mounted once, and unmounted from where it is
  once : ∀ i j m m', s.mounts i = some m → s.mounts j = some m' → m.inst = m'.inst → i = j
  home : ∀ t i j m m', s.busy t = some (.unmounting i m) → s.mounts j = some m' →
    m.inst = m'.inst → i = j
  insts : ∀ i m, s.mounts i = some m → m.inst < s.nextInst
  working : ∀ t work m, s.busy t = some work → work.mount = some m → m.inst < s.nextInst
  trees : ∀ inst, ∀ n ∈ s.tree inst, inst < s.nextInst ∧ n < s.nextNode
  apart : ∀ inst inst' n, n ∈ s.tree inst → n ∈ s.tree inst' → inst = inst'
  past : ∀ d ∈ s.released, match d with
    | .fs inst => inst < s.nextInst
    | .node n => n < s.nextNode

theorem bootLive (nofile : Option Int) : Live (boot nofile) := by
  refine ⟨fun id is => ?_, fun _ _ => rfl, nofun, nofun, nofun, nofun, nofun, nofun, nofun, nofun,
    nofun⟩
  obtain ⟨task, member, e, entry, -⟩ := is
  rw [List.mem_singleton.mp member] at entry
  cases entry

theorem dataApart {s : State} (live : Live s) {m m' : Mount} (other : m.inst ≠ m'.inst) {d : Data}
    (first : d ∈ instData s m) : d ∉ instData s m' := by
  intro second
  unfold instData at first second
  cases d with
  | fs inst =>
    split at first <;> split at second
    all_goals simp_all
  | node n =>
    split at first <;> split at second
    all_goals try simp_all; done
    obtain ⟨a, inFirst, same⟩ := List.mem_map.mp first
    obtain ⟨b, inSecond, same'⟩ := List.mem_map.mp second
    cases same
    cases same'
    exact other (live.apart _ _ _ inFirst inSecond)

theorem beginLive {s : State} (live : Live s) (t : Nat) {work : Work}
    (held : ∀ d ∈ workData s work, d ∉ s.released)
    (home : ∀ i m, work = .unmounting i m → s.mounts i = some m)
    (mount : ∀ m, work.mount = some m → ∃ i, s.mounts i = some m) :
    Live (setBusy s t (some work)) := by
  have mine : ∀ u work', (setBusy s t (some work)).busy u = some work' →
      work' = work ∨ s.busy u = some work' := by
    intro u work' is
    unfold setBusy at is
    dsimp only at is
    by_cases same : u = t
    · rw [same, Function.update_self] at is
      exact .inl (Option.some.inj is).symm
    · rw [Function.update_of_ne same] at is
      exact .inr is
  refine ⟨live.opened, live.unknown, fun u work' is => ?_, live.mounted, live.once,
    fun u i j m m' is mounted same => ?_, live.insts, fun u work' m is on => ?_, live.trees, live.apart,
    live.past⟩
  · rcases mine u work' is with rfl | before
    · exact held
    · exact live.busy u work' before
  · rcases mine u _ is with isWork | before
    · exact live.once i j m m' (home i m isWork.symm) mounted same
    · exact live.home u i j m m' before mounted same
  · rcases mine u work' is with rfl | before
    · obtain ⟨i, mounted⟩ := mount m on
      exact live.insts i m mounted
    · exact live.working u work' m before on

theorem endLive {s : State} (live : Live s) (t : Nat) : Live (setBusy s t none) := by
  have before : ∀ u work, (setBusy s t none).busy u = some work → s.busy u = some work := by
    intro u work is
    unfold setBusy at is
    dsimp only at is
    by_cases same : u = t
    · rw [same, Function.update_self] at is
      cases is
    · rwa [Function.update_of_ne same] at is
  exact ⟨live.opened, live.unknown, fun u work is => live.busy u work (before u work is),
    live.mounted, live.once, fun u i j m m' is => live.home u i j m m' (before u _ is), live.insts,
    fun u work m is => live.working u work m (before u work is), live.trees, live.apart, live.past⟩

theorem slotMounted {s : State} {path : Str} {i : Nat} {m : Mount}
    (found : slotOf s path = some (i, m)) : s.mounts i = some m := by
  obtain ⟨j, -, here⟩ := List.exists_of_findSome?_eq_some found
  cases mounted : s.mounts j with
  | none =>
    rw [mounted] at here
    cases here
  | some m' =>
    rw [mounted] at here
    dsimp only at here
    split at here
    · cases here
      exact mounted
    · cases here

theorem mountFound {s : State} {abs : Str} {m : Mount} (found : findMountPoint s abs = some m) :
    ∃ i, s.mounts i = some m := by
  have any : ∀ (rest : List Nat) (best : Option Mount),
      (∀ b, best = some b → ∃ i, s.mounts i = some b) →
      rest.foldl (better s abs) best = some m → ∃ i, s.mounts i = some m := by
    intro rest
    induction rest with
    | nil => exact fun best known last => known m last
    | cons i rest ih =>
      intro best known last
      refine ih _ (fun b same => ?_) last
      unfold better at same
      cases mounted : s.mounts i with
      | none =>
        rw [mounted] at same
        exact known b same
      | some m' =>
        rw [mounted] at same
        dsimp only at same
        split at same
        · cases same
          exact ⟨i, mounted⟩
        · exact known b same
  exact any slots none nofun found

theorem startLive {s : State} (live : Live s) {t : Nat} {task : Descriptors.Task}
    (running : Descriptors.runningTask s.desc t = some task) (c : Call) :
    Live (start s t task c) := by
  cases c with
  | path path what =>
    unfold start
    dsimp only
    split
    · split <;> rename_i found
      · obtain ⟨i, mounted⟩ := mountFound found
        refine beginLive live t (live.mounted i _ mounted) nofun fun m same => ?_
        cases same
        exact ⟨i, mounted⟩
      · exact live
    · exact live
  | file fd =>
    unfold start
    dsimp only
    split <;> rename_i found
    · split <;> rename_i here
      · refine beginLive live t (fun d mem => ?_) nofun nofun
        refine live.opened _ (foundOpened (Descriptors.runningHere running) found) d ?_
        rw [here]
        exact mem
      · exact live
    · exact live
  | mount path driver =>
    unfold start
    dsimp only
    split
    · exact live
    split
    · exact beginLive live t nofun nofun nofun
    · exact live
  | unmount path =>
    unfold start
    dsimp only
    split <;> rename_i found
    · have mounted := slotMounted found
      refine beginLive live t (live.mounted _ _ mounted) (fun i m same => ?_) fun m same => ?_
      · cases same
        exact mounted
      · cases same
        exact ⟨_, mounted⟩
    · exact live

/-! ## The end of a call -/

theorem addNodeData (s : State) (inst : Nat) (m : Mount) :
    ∀ d ∈ instData (addNode s inst) m, d ∈ instData s m ∨
      m.driver = .tmpfs ∧ m.inst = inst ∧ d = .node s.nextNode := by
  intro d mem
  unfold instData at mem ⊢
  split at mem
  · rename_i isTmpfs
    obtain ⟨n, inTree, rfl⟩ := List.mem_map.mp mem
    unfold addNode setTree at inTree
    dsimp only at inTree
    by_cases same : m.inst = inst
    · rw [same, Function.update_self] at inTree
      rcases List.mem_append.mp inTree with before | single
      · rw [isTmpfs]
        exact .inl (List.mem_map.mpr ⟨n, same ▸ before, rfl⟩)
      · exact .inr ⟨isTmpfs, same, congrArg _ (List.mem_singleton.mp single)⟩
    · rw [Function.update_of_ne same] at inTree
      rw [isTmpfs]
      exact .inl (List.mem_map.mpr ⟨n, inTree, rfl⟩)
  · rename_i isFs
    rw [isFs]
    exact .inl mem
  · rename_i isFs
    rw [isFs]
    exact .inl mem
  · cases mem
  · cases mem

theorem addNodeLive {s : State} (live : Live s) {inst : Nat} (known : inst < s.nextInst) :
    Live (addNode s inst) := by
  have fresh : Data.node s.nextNode ∉ s.released :=
    fun mem => Nat.lt_irrefl _ (live.past _ mem)
  have nodes : ∀ k n, n ∈ (addNode s inst).tree k → n ∈ s.tree k ∨ k = inst ∧ n = s.nextNode := by
    intro k n mem
    unfold addNode setTree at mem
    dsimp only at mem
    by_cases same : k = inst
    · rw [same, Function.update_self] at mem
      rcases List.mem_append.mp mem with before | single
      · exact .inl (same ▸ before)
      · exact .inr ⟨same, List.mem_singleton.mp single⟩
    · rw [Function.update_of_ne same] at mem
      exact .inl mem
  refine ⟨live.opened, live.unknown, fun t work is d mem => ?_, fun i m mounted d mem => ?_,
    live.once, live.home, live.insts, live.working, fun k n mem => ?_, fun k k' n mem mem' => ?_,
    fun d mem => ?_⟩
  · have held := live.busy t work is
    cases work with
    | path abs m what =>
      rcases addNodeData s inst m d mem with before | ⟨-, -, rfl⟩
      · exact held d before
      · exact fresh
    | file h => exact held d mem
    | mounting slot path driver => cases mem
    | unmounting slot m =>
      rcases addNodeData s inst m d mem with before | ⟨-, -, rfl⟩
      · exact held d before
      · exact fresh
  · rcases addNodeData s inst m d mem with before | ⟨-, -, rfl⟩
    · exact live.mounted i m mounted d before
    · exact fresh
  · rcases nodes k n mem with before | ⟨rfl, rfl⟩
    · exact ⟨(live.trees k n before).1, Nat.lt_succ_of_lt (live.trees k n before).2⟩
    · exact ⟨known, Nat.lt_succ_self _⟩
  · rcases nodes k n mem with before | ⟨rfl, rfl⟩
    · rcases nodes k' n mem' with before' | ⟨rfl, rfl⟩
      · exact live.apart k k' n before before'
      · exact absurd (live.trees k _ before).2 (Nat.lt_irrefl _)
    · rcases nodes k' _ mem' with before' | ⟨rfl, -⟩
      · exact absurd (live.trees k' _ before').2 (Nat.lt_irrefl _)
      · rfl
  · have before := live.past d mem
    cases d with
    | fs inst => exact before
    | node n => exact Nat.lt_succ_of_lt before

theorem dropLive {s : State} (live : Live s) (inst n : Nat) :
    Live (setTree s inst ((s.tree inst).erase n)) := by
  have nodes : ∀ k v, v ∈ (setTree s inst ((s.tree inst).erase n)).tree k → v ∈ s.tree k := by
    intro k v mem
    unfold setTree at mem
    dsimp only at mem
    by_cases same : k = inst
    · rw [same, Function.update_self] at mem
      exact same ▸ List.mem_of_mem_erase mem
    · rwa [Function.update_of_ne same] at mem
  have data : ∀ m, ∀ d ∈ instData (setTree s inst ((s.tree inst).erase n)) m, d ∈ instData s m := by
    intro m d mem
    unfold instData at mem ⊢
    cases driver : m.driver with
    | tmpfs =>
      rw [driver] at mem
      obtain ⟨v, inTree, rfl⟩ := List.mem_map.mp mem
      exact List.mem_map.mpr ⟨v, nodes _ v inTree, rfl⟩
    | minix3 => rwa [driver] at mem
    | ext2 => rwa [driver] at mem
    | devfs => rwa [driver] at mem
    | procfs => rwa [driver] at mem
  refine ⟨live.opened, live.unknown, fun t work is d mem => ?_,
    fun i m mounted d mem => live.mounted i m mounted d (data m d mem), live.once, live.home,
    live.insts, live.working, fun k v mem => live.trees k v (nodes k v mem),
    fun k k' v mem mem' => live.apart k k' v (nodes k v mem) (nodes k' v mem'), live.past⟩
  have held := live.busy t work is
  cases work with
  | path abs m what => exact held d (data m d mem)
  | file h => exact held d mem
  | mounting slot path driver => cases mem
  | unmounting slot m => exact held d (data m d mem)

theorem descLive {s : State} (live : Live s) {desc : Descriptors.State}
    (kept : Kept s.desc.next s.desc desc) {handle : Nat → Option Handle} {dirs : Nat → Vfs.Task}
    (old : ∀ id < s.desc.next, handle id = s.handle id)
    (new : ∀ id, s.desc.next ≤ id → ∀ d ∈ handleData (handle id), d ∉ s.released)
    (unknown : ∀ id, desc.next ≤ id → handle id = none) :
    Live {s with desc := desc, handle := handle, dirs := dirs} := by
  refine ⟨fun id is d mem => ?_, unknown, live.busy, live.mounted, live.once, live.home, live.insts,
    live.working, live.trees, live.apart, live.past⟩
  rcases Nat.lt_or_ge id s.desc.next with before | after
  · rw [show ({s with desc := desc, handle := handle, dirs := dirs} : State).handle id =
      s.handle id from old id before] at mem
    rcases kept.opened id is with was | new
    · exact live.opened id was d mem
    · exact absurd before (Nat.not_lt.mpr new)
  · exact new id after d mem

theorem openNext {s desc : Descriptors.State} {t : Nat} {fileRoom entryRoom cloexec : Bool}
    (opened : Descriptors.step s (.openFile t fileRoom entryRoom cloexec) = some desc) :
    desc.next = if fileRoom then s.next + 1 else s.next := by
  obtain ⟨task, running, rfl⟩ := Option.map_eq_some_iff.mp opened
  unfold Descriptors.fsOpen
  cases fileRoom with
  | false => rfl
  | true =>
    dsimp only
    rw [if_neg (by decide), if_pos rfl]
    split <;> rename_i made
    · rfl
    · unfold Descriptors.allocFdEntry at made
      split at made
      · cases made
      split at made
      · cases made
      · cases made
        rfl

theorem closedLive {s s' : State} (live : Live s) (kept : Kept s.desc.next s.desc s'.desc)
    (old : ∀ id < s.desc.next, s'.handle id = s.handle id)
    (new : ∀ id, s.desc.next ≤ id → ∀ d ∈ handleData (s'.handle id), d ∉ s.released) :
    ∀ d ∈ closed s s', d ∉ s.released := by
  intro d mem
  unfold closed at mem
  obtain ⟨id, changed, inHandle⟩ := List.mem_flatMap.mp mem
  rw [List.mem_filter, decide_eq_true_eq] at changed
  rcases Nat.lt_or_ge id s.desc.next with before | after
  · rcases kept.closed id changed.2 with was | later
    · exact live.opened id was d (old id before ▸ inHandle)
    · exact absurd before (Nat.not_lt.mpr later)
  · exact new id after d inHandle

structure Fine (s s' : State) : Prop where
  live : Live s'
  closed : ∀ d ∈ closed s s', d ∉ s.released

theorem fineSame {s s' : State} (live : Live s') (desc : s'.desc = s.desc) : Fine s s' := by
  refine ⟨live, fun d mem => ?_⟩
  unfold closed at mem
  rw [desc] at mem
  simp at mem

theorem openFine {s s' : State} (live : Live s) {t : Nat} {h : Handle}
    {fileRoom entryRoom cloexec : Bool} (held : ∀ d ∈ h.data, d ∉ s.released)
    (opened : openHandle s t h fileRoom entryRoom cloexec = some s') : Fine s s' := by
  obtain ⟨desc, stepped, rfl⟩ := Option.map_eq_some_iff.mp opened
  have kept := stepKept stepped
  have next := openNext stepped
  let handle := if fileRoom then Function.update s.handle s.desc.next (some h) else s.handle
  have old : ∀ id < s.desc.next, handle id = s.handle id := by
    intro id before
    cases fileRoom with
    | false => rfl
    | true => exact Function.update_of_ne (Nat.ne_of_lt before) _ _
  have new : ∀ id, s.desc.next ≤ id → ∀ d ∈ handleData (handle id), d ∉ s.released := by
    intro id after d mem
    cases fileRoom with
    | false =>
      rw [show handle id = none from live.unknown id after] at mem
      cases mem
    | true =>
      by_cases same : id = s.desc.next
      · rw [show handle id = some h from same ▸ Function.update_self ..] at mem
        exact held d mem
      · rw [show handle id = none from
          (Function.update_of_ne same _ _).trans (live.unknown id after)] at mem
        cases mem
  have unknown : ∀ id, desc.next ≤ id → handle id = none := by
    intro id after
    rw [next] at after
    cases fileRoom with
    | false => exact live.unknown id after
    | true =>
      have beyond : s.desc.next < id := after
      exact (Function.update_of_ne (Nat.ne_of_gt beyond) _ _).trans
        (live.unknown id (Nat.le_of_lt beyond))
  exact ⟨descLive live kept old new unknown, closedLive live kept old new⟩

theorem pathFine {s s' : State} (live : Live s) {t : Nat} {abs : Str} {m : Mount}
    {what : PathCall} (is : s.busy t = some (.path abs m what))
    (finished : finishPath s t abs m what = some s') : Fine s s' := by
  have known := live.working t _ m is rfl
  have held : ∀ d ∈ instData s m, d ∉ s.released := live.busy t _ is
  cases what with
  | look =>
    cases finished
    exact fineSame live rfl
  | create =>
    cases finished
    split
    · exact fineSame (addNodeLive live known) rfl
    · exact fineSame live rfl
  | drop n =>
    cases finished
    split
    · exact fineSame (dropLive live m.inst n) rfl
    · exact fineSame live rfl
  | openFile made n fileRoom entryRoom cloexec =>
    unfold finishPath at finished
    dsimp only at finished
    split at finished <;> rename_i isTmpfs
    · split at finished
      · have added := addNodeLive live known
        have new : ∀ d ∈ Handle.data ⟨.tmpfs, m.inst, s.nextNode⟩, d ∉ s.released := by
          intro d mem
          rw [List.mem_singleton.mp mem]
          exact fun was => Nat.lt_irrefl _ (live.past _ was)
        have fine := openFine added new finished
        exact ⟨fine.live, fine.closed⟩
      split at finished <;> rename_i linked
      · refine openFine live (fun d mem => held d ?_) finished
        rw [List.mem_singleton.mp mem]
        unfold instData
        rw [isTmpfs]
        exact List.mem_map.mpr ⟨n, linked, rfl⟩
      · cases finished
    · refine openFine live (fun d mem => held d ?_) finished
      unfold Handle.data at mem
      unfold instData
      cases driver : m.driver with
      | tmpfs => exact absurd driver isTmpfs
      | minix3 => rwa [driver] at mem
      | ext2 => rwa [driver] at mem
      | devfs => rwa [driver] at mem
      | procfs => rwa [driver] at mem
  | chdir =>
    cases finished
    have same : Live {s with
        dirs := Function.update s.dirs t {s.dirs t with cwd := Vfs.stored abs}} :=
      ⟨live.opened, live.unknown, live.busy, live.mounted, live.once, live.home, live.insts,
        live.working, live.trees, live.apart, live.past⟩
    exact fineSame same rfl

theorem mountLive {s : State} (live : Live s) (slot : Nat) (path : Str) (driver : Driver) :
    Live (fsMount s slot path driver) := by
  have unused : s.tree s.nextInst = [] := by
    refine List.eq_nil_iff_forall_not_mem.mpr fun n mem => ?_
    exact Nat.lt_irrefl _ (live.trees _ n mem).1
  have mine : ∀ i m, Function.update s.mounts slot (some ⟨path, driver, s.nextInst⟩) i = some m →
      m = ⟨path, driver, s.nextInst⟩ ∧ i = slot ∨ s.mounts i = some m ∧ i ≠ slot := by
    intro i m is
    by_cases same : i = slot
    · rw [same, Function.update_self] at is
      exact .inl ⟨(Option.some.inj is).symm, same⟩
    · rw [Function.update_of_ne same] at is
      exact .inr ⟨is, same⟩
  have mounted : Live {s with
      mounts := Function.update s.mounts slot (some ⟨path, driver, s.nextInst⟩)
      nextInst := s.nextInst + 1} := by
    refine ⟨live.opened, live.unknown, live.busy, fun i m is d mem => ?_,
      fun i j m m' first second same => ?_, fun t i j m m' is there same => ?_, fun i m is => ?_,
      fun t work m is on => Nat.lt_succ_of_lt (live.working t work m is on),
      fun inst n mem => ⟨Nat.lt_succ_of_lt (live.trees inst n mem).1, (live.trees inst n mem).2⟩,
      live.apart, fun d mem => ?_⟩
    · rcases mine i m is with ⟨rfl, -⟩ | ⟨before, -⟩
      · unfold instData at mem
        cases driver with
        | tmpfs =>
          dsimp only at mem
          rw [unused] at mem
          cases mem
        | minix3 =>
          rw [List.mem_singleton.mp mem]
          exact fun was => Nat.lt_irrefl _ (live.past _ was)
        | ext2 =>
          rw [List.mem_singleton.mp mem]
          exact fun was => Nat.lt_irrefl _ (live.past _ was)
        | devfs => cases mem
        | procfs => cases mem
      · exact live.mounted i m before d mem
    · rcases mine i m first with ⟨rfl, rfl⟩ | ⟨before, -⟩
      · rcases mine j m' second with ⟨-, rfl⟩ | ⟨before', -⟩
        · rfl
        · exact absurd (live.insts j m' before') (same ▸ Nat.lt_irrefl _)
      · rcases mine j m' second with ⟨rfl, -⟩ | ⟨before', -⟩
        · exact absurd (live.insts i m before) (same ▸ Nat.lt_irrefl _)
        · exact live.once i j m m' before before' same
    · rcases mine j m' there with ⟨rfl, -⟩ | ⟨before, -⟩
      · exact absurd (live.working t _ m is rfl) (same ▸ Nat.lt_irrefl _)
      · exact live.home t i j m m' is before same
    · rcases mine i m is with ⟨rfl, -⟩ | ⟨before, -⟩
      · exact Nat.lt_succ_self _
      · exact Nat.lt_succ_of_lt (live.insts i m before)
    · have before := live.past d mem
      cases d with
      | fs inst => exact Nat.lt_succ_of_lt before
      | node n => exact before
  unfold fsMount
  dsimp only
  split
  · exact addNodeLive mounted (Nat.lt_succ_self _)
  · exact mounted

/-! ## Every run -/

def Quiet (s : State) : Action → Prop
  | .finish t _ => ∀ slot m, s.busy t = some (.unmounting slot m) → ∀ d ∈ instData s m,
      (∀ id, Opened s.desc id → d ∉ handleData (s.handle id)) ∧ ∀ u, u ≠ t → d ∉ busyData s u
  | _ => True

theorem unmountLive {s : State} (live : Live s) {t : Nat} {ok : Bool}
    (quiet : Quiet s (.finish t ok)) {slot : Nat} {m : Mount}
    (is : s.busy t = some (.unmounting slot m)) :
    Live (setBusy (fsUnmount s slot m) t none) := by
  have alone := quiet slot m is
  have others : ∀ u work, (setBusy (fsUnmount s slot m) t none).busy u = some work →
      u ≠ t ∧ s.busy u = some work := by
    intro u work there
    unfold setBusy at there
    dsimp only at there
    by_cases same : u = t
    · rw [same, Function.update_self] at there
      cases there
    · rw [Function.update_of_ne same] at there
      exact ⟨same, there⟩
  have still : ∀ i m', (setBusy (fsUnmount s slot m) t none).mounts i = some m' →
      i ≠ slot ∧ s.mounts i = some m' := by
    intro i m' there
    unfold setBusy fsUnmount at there
    dsimp only at there
    by_cases same : i = slot
    · rw [same, Function.update_self] at there
      cases there
    · rw [Function.update_of_ne same] at there
      exact ⟨same, there⟩
  have kept : ∀ d, d ∉ s.released → d ∉ instData s m →
      d ∉ (setBusy (fsUnmount s slot m) t none).released := by
    intro d before other mem
    rcases List.mem_append.mp mem with now | was
    · exact other now
    · exact before was
  refine ⟨fun id opened d mem => ?_, live.unknown, fun u work there d mem => ?_,
    fun i m' there d mem => ?_, fun i j m' m'' first second => ?_,
    fun u i j m' m'' there mounted => ?_, fun i m' there => live.insts i m' (still i m' there).2,
    fun u work m' there => live.working u work m' (others u work there).2, live.trees, live.apart,
    fun d mem => ?_⟩
  · exact kept d (live.opened id opened d mem) fun mine => (alone d mine).1 id opened mem
  · obtain ⟨other, there⟩ := others u work there
    refine kept d (live.busy u work there d mem) fun mine => (alone d mine).2 u other ?_
    unfold busyData
    rw [there]
    exact mem
  · obtain ⟨other, there⟩ := still i m' there
    refine kept d (live.mounted i m' there d mem) fun mine => ?_
    refine dataApart live (fun same => other ?_) mine mem
    exact (live.home t slot i m m' is there same).symm
  · exact live.once i j m' m'' (still i m' first).2 (still j m'' second).2
  · exact live.home u i j m' m'' (others u _ there).2 (still j m'' mounted).2
  · rcases List.mem_append.mp mem with now | was
    · have known := live.working t _ m is rfl
      unfold instData at now
      split at now
      · obtain ⟨n, inTree, rfl⟩ := List.mem_map.mp now
        exact (live.trees _ n inTree).2
      · rw [List.mem_singleton.mp now]
        exact known
      · rw [List.mem_singleton.mp now]
        exact known
      · cases now
      · cases now
    · exact live.past d was

theorem inheritDesc (s : State) (a : Descriptors.Action) (desc : Descriptors.State) :
    ∃ dirs, {inherit s a with desc := desc} = {s with desc := desc, dirs := dirs} := by
  unfold inherit
  split
  · exact ⟨_, rfl⟩
  · exact ⟨s.dirs, rfl⟩

@[simp] theorem startDesc (s : State) (t : Nat) (task : Descriptors.Task) (c : Call) :
    (start s t task c).desc = s.desc := by
  unfold start
  split
  all_goals repeat' split
  all_goals rfl

theorem startReleased (s : State) (t : Nat) (task : Descriptors.Task) (c : Call) :
    (start s t task c).released = s.released := by
  unfold start
  split
  all_goals repeat' split
  all_goals rfl

theorem stepFine {s s' : State} {a : Action} (live : Live s) (quiet : Quiet s a)
    (taken : step s a = some s') : Fine s s' := by
  cases a with
  | start t c =>
    dsimp only [step] at taken
    split at taken <;> rename_i running
    · split at taken
      · cases taken
        exact fineSame (startLive live running c) (startDesc ..)
      · cases taken
    · cases taken
  | resume t =>
    dsimp only [step] at taken
    split at taken
    · cases taken
      exact fineSame live rfl
    · cases taken
  | finish t ok =>
    dsimp only [step] at taken
    split at taken <;> rename_i is
    · obtain ⟨after, finished, rfl⟩ := Option.map_eq_some_iff.mp taken
      rename_i work
      cases work with
      | path abs m what =>
        have fine := pathFine live is finished
        exact ⟨endLive fine.live t, fine.closed⟩
      | file h =>
        cases finished
        exact fineSame (endLive live t) rfl
      | mounting slot path driver =>
        cases finished
        refine fineSame (endLive ?_ t) ?_
        · split
          · exact mountLive live slot path driver
          · exact live
        · unfold fsMount addNode setTree setBusy
          dsimp only
          repeat' split
          all_goals rfl
      | unmounting slot m =>
        cases finished
        exact fineSame (unmountLive live quiet is) rfl
    · cases taken
  | descriptor t a =>
    dsimp only [step] at taken
    split at taken
    · obtain ⟨desc, stepped, rfl⟩ := Option.map_eq_some_iff.mp taken
      obtain ⟨dirs, same⟩ := inheritDesc s a desc
      rw [same]
      have kept := stepKept stepped
      have new : ∀ id, s.desc.next ≤ id → ∀ d ∈ handleData (s.handle id), d ∉ s.released := by
        intro id after d mem
        rw [live.unknown id after] at mem
        cases mem
      exact ⟨descLive live kept (fun _ _ => rfl) new fun id after =>
        live.unknown id (kept.next.trans after), closedLive live kept (fun _ _ => rfl) new⟩
    · cases taken

theorem busyLive {s : State} (live : Live s) (t : Nat) : ∀ d ∈ busyData s t, d ∉ s.released := by
  intro d mem
  unfold busyData at mem
  split at mem <;> rename_i is
  · exact live.busy t _ is d mem
  · cases mem

def Safe (s : State) : Prop :=
  ∀ a s', step s a = some s' → ∀ d ∈ uses s a s', d ∉ s.released

theorem liveSafe {s : State} (live : Live s) : Safe s := by
  intro a s' taken d mem
  cases a with
  | start t c =>
    have fine := stepFine (a := .start t c) live trivial taken
    dsimp only [step] at taken
    split at taken
    · split at taken
      · cases taken
        exact startReleased s t _ c ▸ busyLive fine.live t d mem
      · cases taken
    · cases taken
  | resume t => exact busyLive live t d mem
  | finish t ok =>
    rcases List.mem_append.mp mem with held | put
    · exact busyLive live t d held
    · by_cases leaves : ∃ slot m, s.busy t = some (.unmounting slot m)
      · obtain ⟨slot, m, is⟩ := leaves
        dsimp only [step] at taken
        rw [is] at taken
        cases taken
        -- an unmount leaves the descriptor tables alone
        unfold closed at put
        simp [setBusy, fsUnmount] at put
      · have quiet : Quiet s (.finish t ok) := fun slot m is => absurd ⟨slot, m, is⟩ leaves
        exact (stepFine live quiet taken).closed d put
  | descriptor t a => exact (stepFine (a := .descriptor t a) live trivial taken).closed d mem

def tidyActs : List Action :=
  [.start 0 (.mount ['/'] .tmpfs), .finish 0 true,
   .start 0 (.path ['/', 'f'] (.openFile true 0 true true false)), .finish 0 true,
   .start 0 (.file 3), .finish 0 true, .descriptor 0 (.close 0 3),
   .start 0 (.unmount ['/']), .finish 0 true]

def staleActs : List Action :=
  [.start 0 (.mount ['/'] .tmpfs), .finish 0 true,
   .start 0 (.path ['/', 'f'] (.openFile true 0 true true false)), .finish 0 true,
   .start 0 (.unmount ['/']), .finish 0 true]

end Scepter.Mounts
