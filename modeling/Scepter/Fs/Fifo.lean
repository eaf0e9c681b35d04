import Mathlib.Logic.Function.Basic
import Scepter.Fs.Pipe

/-! Named pipes (fs/fifo.c, the FIFO path of fs_open and open_file_put in fs/vfs.c).
A state holds every pipe object made so far, the registry, the open files that came
through fs_open on a FIFO and the reads and writes in progress on them. One action is
what a task does between two sleeps; the tasks' order is the order of the actions.
`frees` counts the kfree calls on an object. A freed record stays as it was left; what
its memory holds once it is handed out again is not modelled. -/
namespace Scepter.Fifo
open PipeIo Run

structure Key where
  fsId : Int
  fsPrivate : Nat
  inode : Nat
  deriving DecidableEq

-- O_ACCMODE of the flags; fifo_open_end takes every other value as O_RDONLY.
inductive AccMode where
  | read
  | write
  | readWrite
  deriving DecidableEq

/- Detached: `file->pipe` is not set, before fifo_open_end has got anywhere and
after the file is gone. Asleep and woken: inside fifo_open_end, at its sleep_on. -/
inductive FilePhase where
  | detached
  | asleep
  | woken
  | opened
  deriving DecidableEq

structure File where
  pipe : Nat
  mode : AccMode
  phase : FilePhase
  deriving DecidableEq

structure Object where
  pipe : Pipe
  frees : Nat

structure FifoEntry where
  key : Key
  pipe : Nat
  deriving DecidableEq

structure IoCall where
  file : Nat
  call : Call
  deriving DecidableEq

structure State where
  objects : Nat → Object
  next : Nat
  registry : List FifoEntry
  files : List File
  calls : List IoCall
  -- what the fs_open that ended last has returned, 0 for a descriptor
  result : Int

-- Fresh FIFO starts with no open ends.
def fifoPipe : Pipe := {pipeCreate (fun _ => 0) with readers := 0, writers := 0}

def start : State := ⟨fun _ => ⟨fifoPipe, 0⟩, 0, [], [], [], 0⟩

def setPipe (s : State) (p : Nat) (pipe : Pipe) : State :=
  {s with objects := Function.update s.objects p {s.objects p with pipe := pipe}}

def setFile (s : State) (i : Nat) (file : File) : State :=
  {s with files := s.files.set i file}

/-! ## Wait queues -/

-- wake_up(&p->open_wq)
def wakeOpen (s : State) (p : Nat) : State :=
  {s with files := s.files.map fun f =>
    if f.pipe = p ∧ f.phase = .asleep then {f with phase := .woken} else f}

def callOn (s : State) (p : Nat) (c : IoCall) : Bool :=
  (s.files[c.file]?.map File.pipe) = some p

-- wake_up(&p->read_wq) or wake_up(&p->write_wq)
def wakeIo (s : State) (reads : Bool) (p : Nat) : State :=
  {s with calls := s.calls.map fun c =>
    if callOn s p c ∧ c.call.phase = .asleep ∧ c.call.request.isRead = reads then
      {c with call := {c.call with phase := .woken}}
    else c}

/-! ## Release -/

-- fifo_pipe_destroyed, the pipe's on_destroy, and the kfree behind it.
def pipeDestroy (s : State) (p : Nat) : State :=
  {s with
    registry := s.registry.eraseP fun e => e.pipe = p
    objects := Function.update s.objects p {s.objects p with frees := (s.objects p).frees + 1}}

def pipeReadRelease (s : State) (p : Nat) : State :=
  let pipe := (s.objects p).pipe.readRelease
  let s := setPipe s p pipe
  let s := if pipe.readers = 0 then wakeIo s false p else s
  let s := wakeOpen s p
  if pipe.unreferenced then pipeDestroy s p else s

def pipeWriteRelease (s : State) (p : Nat) : State :=
  let pipe := (s.objects p).pipe.writeRelease
  let s := setPipe s p pipe
  let s := if pipe.writers = 0 then wakeIo s true p else s
  let s := wakeOpen s p
  if pipe.unreferenced then pipeDestroy s p else s

-- open_file_put of the last reference to an opened file
def openFilePut (s : State) (i : Nat) (file : File) : State :=
  let s := match file.mode with
    | .readWrite => pipeReadRelease (pipeWriteRelease s file.pipe) file.pipe
    | .write => pipeWriteRelease s file.pipe
    | .read => pipeReadRelease s file.pipe
  setFile s i {file with phase := .detached}

/-! ## Open -/

def fifoLookup (s : State) (key : Key) : Option FifoEntry :=
  s.registry.find? fun e => e.key = key

def fifoGetPipe (s : State) (key : Key) (allocFails : Bool) : Option (Nat × State) :=
  match fifoLookup s key with
  | some e => some (e.pipe, s)
  | none =>
    if allocFails then none
    else
      let p := s.next
      some (p, {s with
        objects := Function.update s.objects p ⟨fifoPipe, 0⟩
        next := p + 1
        registry := s.registry ++ [⟨key, p⟩]})

-- fifo_open_end returns 0; then fs_open allocates the descriptor, or puts the file.
def opened (s : State) (i : Nat) (file : File) (fdFails : Bool) : State :=
  let file := {file with phase := .opened}
  let s := setFile (wakeOpen s file.pipe) i file
  if fdFails then {openFilePut s i file with result := -1} else {s with result := 0}

-- fifo_open_end returns an error; `file->pipe` is not set, so the put releases no end.
def failed (s : State) (i : Nat) (file : File) (error : Int) : State :=
  {setFile (wakeOpen s file.pipe) i {file with phase := .detached} with result := -error}

def writeOpenLoop (s : State) (i : Nat) (file : File) (nonblock fdFails : Bool) : State :=
  let pipe := (s.objects file.pipe).pipe
  if 0 < pipe.readers then
    opened (setPipe s file.pipe {pipe with writers := pipe.writers + 1}) i file fdFails
  else if nonblock then failed s i file ENXIO
  else setFile s i {file with phase := .asleep}

def readOpenLoop (s : State) (i : Nat) (file : File) (nonblock fdFails : Bool) : State :=
  let pipe := (s.objects file.pipe).pipe
  if 0 < pipe.writers ∨ 0 < pipe.count ∨ nonblock then opened s i file fdFails
  else setFile s i {file with phase := .asleep}

def fifoOpenEnd (s : State) (i : Nat) (file : File) (nonblock fdFails : Bool) : State :=
  let pipe := (s.objects file.pipe).pipe
  match file.mode with
  | .readWrite =>
    let pipe := {pipe with readers := pipe.readers + 1, writers := pipe.writers + 1}
    opened (setPipe s file.pipe pipe) i file fdFails
  | .write => writeOpenLoop s i file nonblock fdFails
  | .read =>
    let s := wakeOpen (setPipe s file.pipe {pipe with readers := pipe.readers + 1}) file.pipe
    readOpenLoop s i file nonblock fdFails

-- What follows sleep_on in either loop of fifo_open_end.
def resumeOpen (s : State) (i : Nat) (file : File) (pending fdFails : Bool) : State :=
  let pipe := (s.objects file.pipe).pipe
  match file.mode with
  | .read =>
    if 0 < pipe.writers ∨ 0 < pipe.count then opened s i file fdFails
    else if pending then
      failed (setPipe s file.pipe {pipe with readers := pipe.readers - 1}) i file EINTR
    else readOpenLoop s i file false fdFails
  | _ => if pending then failed s i file EINTR else writeOpenLoop s i file false fdFails

def fsOpen (s : State) (key : Key) (mode : AccMode) (nonblock allocFails fdFails : Bool) : State :=
  match fifoGetPipe s key allocFails with
  | none => {s with result := -ENOMEM}
  | some (p, s) =>
    let file : File := ⟨p, mode, .detached⟩
    fifoOpenEnd {s with files := s.files ++ [file]} s.files.length file nonblock fdFails

/-! ## Reads and writes -/

-- One pass of the loop: the pipe, the call, and whether bytes were moved.
def advance (pipe : Pipe) (call : Call) : Pipe × Call × Bool :=
  match call.request with
  | .read count buf =>
    match pipeReadPass pipe count call.total with
    | .again pipe bytes =>
      (pipe, ⟨.read count (buf ++ bytes), call.total + bytes.length, .running⟩, true)
    | .sleep => (pipe, {call with phase := .asleep}, false)
    | .done ret => (pipe, {call with phase := .returned ret}, false)
  | .write data =>
    match pipeWritePass pipe data call.total with
    | .again pipe bytes => (pipe, ⟨.write data, call.total + bytes.length, .running⟩, true)
    | .sleep => (pipe, {call with phase := .asleep}, false)
    | .done ret => (pipe, {call with phase := .returned ret}, false)

def ioPass (s : State) (j : Nat) (c : IoCall) (p : Nat) : State :=
  let (pipe, call, moved) := advance (s.objects p).pipe c.call
  let s := {setPipe s p pipe with calls := s.calls.set j {c with call := call}}
  if moved then wakeIo s (!call.request.isRead) p else s

def ioResume (s : State) (j : Nat) (c : IoCall) (pending : Bool) : State :=
  let phase := match c.call.request with
    | .read .. =>
      match pipeReadResume pending c.call.total with
      | some ret => .returned ret
      | none => .running
    | .write _ => .running
  {s with calls := s.calls.set j {c with call := {c.call with phase := phase}}}

def ioNonblock (s : State) (i p : Nat) (request : Request) : State :=
  let (ret, moved) := match request with
    | .read count _ => pipeReadNonblock (s.objects p).pipe count
    | .write data => pipeWriteNonblock (s.objects p).pipe data
  let s := {s with calls := s.calls ++ [⟨i, ⟨request, 0, .returned ret⟩⟩]}
  match moved with
  | some (pipe, _) => wakeIo (setPipe s p pipe) (!request.isRead) p
  | none => s

inductive Action where
  | open (key : Key) (mode : AccMode) (nonblock allocFails fdFails : Bool)
  | resumeOpen (i : Nat) (pending fdFails : Bool)
  | close (i : Nat)
  | io (i : Nat) (request : Request)
  | ioNonblock (i : Nat) (request : Request)
  | ioPass (j : Nat)
  | ioResume (j : Nat) (pending : Bool)

-- A task inside read or write keeps the file it came through.
def fileInUse (s : State) (i : Nat) : Bool :=
  s.calls.any fun c => c.file = i ∧ c.call.unfinished

def step (s : State) : Action → Option State
  | .open key mode nonblock allocFails fdFails =>
    some (fsOpen s key mode nonblock allocFails fdFails)
  | .resumeOpen i pending fdFails =>
    match s.files[i]? with
    | some file => if file.phase = .woken then some (resumeOpen s i file pending fdFails) else none
    | none => none
  | .close i =>
    match s.files[i]? with
    | some file =>
      if file.phase = .opened ∧ fileInUse s i = false then some (openFilePut s i file) else none
    | none => none
  | .io i request =>
    match s.files[i]? with
    | some file =>
      if file.phase = .opened then
        some {s with calls := s.calls ++ [⟨i, ⟨request, 0, .running⟩⟩]}
      else none
    | none => none
  | .ioNonblock i request =>
    match s.files[i]? with
    | some file => if file.phase = .opened then some (ioNonblock s i file.pipe request) else none
    | none => none
  | .ioPass j =>
    match s.calls[j]? with
    | some c =>
      match s.files[c.file]? with
      | some file => if c.call.phase = .running then some (ioPass s j c file.pipe) else none
      | none => none
    | none => none
  | .ioResume j pending =>
    match s.calls[j]? with
    | some c => if c.call.phase = .woken then some (ioResume s j c pending) else none
    | none => none

@[simp] theorem setPipeFrees (s : State) (p q : Nat) (pipe : Pipe) :
    ((setPipe s p pipe).objects q).frees = (s.objects q).frees := by
  simp only [setPipe, Function.update_apply]
  split
  · rename_i same
    rw [same]
  · rfl

@[simp] theorem setPipePipe (s : State) (p : Nat) (pipe : Pipe) :
    ((setPipe s p pipe).objects p).pipe = pipe := by
  simp [setPipe]

theorem setPipeOther {s : State} {p q : Nat} (pipe : Pipe) (differ : q ≠ p) :
    (setPipe s p pipe).objects q = s.objects q :=
  Function.update_of_ne differ ..

@[simp] theorem setPipeSelf (s : State) (p : Nat) : setPipe s p (s.objects p).pipe = s := by
  simp [setPipe]

/-! ## What the counts stand for -/

-- The file counts in `p->readers`; a read open counts from before it sleeps.
def readsEnd (p : Nat) (f : File) : Bool :=
  f.pipe = p ∧ f.mode ≠ .write ∧ f.phase ≠ .detached

-- The file counts in `p->writers`; a write open counts once it has succeeded.
def writesEnd (p : Nat) (f : File) : Bool :=
  f.pipe = p ∧ f.mode ≠ .read ∧ f.phase = .opened

-- An open end of the pipe, or an open in progress on it.
def refersTo (p : Nat) (f : File) : Bool := f.pipe = p ∧ f.phase ≠ .detached

def live (s : State) (p : Nat) : Prop := p < s.next ∧ (s.objects p).frees = 0

def b2n (b : Bool) : Nat := if b then 1 else 0

structure Base (s : State) : Prop where
  inRange : ∀ f ∈ s.files, f.pipe < s.next
  modes : ∀ f ∈ s.files, f.phase = .asleep ∨ f.phase = .woken → f.mode ≠ .readWrite
  readers : ∀ p, (s.objects p).pipe.readers = s.files.countP (readsEnd p)
  writers : ∀ p, (s.objects p).pipe.writers = s.files.countP (writesEnd p)
  freed : ∀ p, (s.objects p).frees ≤ 1
  registry : ∀ p, p ∈ s.registry.map FifoEntry.pipe ↔ live s p
  once : (s.registry.map FifoEntry.pipe).Nodup
  refer : ∀ f ∈ s.files, f.phase ≠ .detached → (s.objects f.pipe).frees = 0
  calls : ∀ c ∈ s.calls, c.call.unfinished = true →
    ∃ f, s.files[c.file]? = some f ∧ f.phase = .opened

-- Every live object but `except` is referred to.
def Kept (s : State) (except : Option Nat) : Prop :=
  ∀ p, live s p → some p ≠ except → ∃ f ∈ s.files, refersTo p f = true

/-! ## Wake-ups change no more than asleep to woken -/

def Moved (f g : File) : Prop :=
  g.pipe = f.pipe ∧ g.mode = f.mode ∧ (g.phase = f.phase ∨ f.phase = .asleep ∧ g.phase = .woken)

theorem movedRefl (f : File) : Moved f f := ⟨rfl, rfl, .inl rfl⟩

theorem movedTrans {f g h : File} (first : Moved f g) (second : Moved g h) : Moved f h := by
  obtain ⟨pipe, mode, phase⟩ := first
  obtain ⟨pipe', mode', phase'⟩ := second
  refine ⟨pipe'.trans pipe, mode'.trans mode, ?_⟩
  rcases phase with same | ⟨asleep, woken⟩
  · rwa [same] at phase'
  · rcases phase' with same' | ⟨again, -⟩
    · exact .inr ⟨asleep, same'.trans woken⟩
    · rw [woken] at again
      contradiction

theorem movedAwake {f g : File} (moved : Moved f g) (awake : f.phase ≠ .asleep) : g = f := by
  obtain ⟨pipe, mode, same | ⟨asleep, -⟩⟩ := moved
  · cases f
    cases g
    simp_all
  · contradiction

theorem movedReads {f g : File} (moved : Moved f g) (p : Nat) : readsEnd p g = readsEnd p f := by
  obtain ⟨pipe, mode, same | ⟨asleep, woken⟩⟩ := moved
  · simp only [readsEnd, pipe, mode, same]
  · simp [readsEnd, pipe, mode, asleep, woken]

theorem movedWrites {f g : File} (moved : Moved f g) (p : Nat) : writesEnd p g = writesEnd p f := by
  obtain ⟨pipe, mode, same | ⟨asleep, woken⟩⟩ := moved
  · simp only [writesEnd, pipe, mode, same]
  · simp [writesEnd, asleep, woken]

theorem movedRefers {f g : File} (moved : Moved f g) (p : Nat) : refersTo p g = refersTo p f := by
  obtain ⟨pipe, mode, same | ⟨asleep, woken⟩⟩ := moved
  · simp only [refersTo, pipe, same]
  · simp [refersTo, pipe, asleep, woken]

-- `wake` is what one wake_up does to a file; the lists correspond place by place.
structure Woke (s t : State) : Prop where
  objects : t.objects = s.objects
  next : t.next = s.next
  registry : t.registry = s.registry
  files : ∃ wake : File → File, t.files = s.files.map wake ∧ ∀ f, Moved f (wake f)
  idle : ∀ c ∈ t.calls, c.call.unfinished = true →
    ∃ old ∈ s.calls, old.call.unfinished = true ∧ old.file = c.file

theorem wokeRefl (s : State) : Woke s s :=
  ⟨rfl, rfl, rfl, ⟨id, by simp, movedRefl⟩, fun c member unfinished => ⟨c, member, unfinished, rfl⟩⟩

theorem wokeTrans {s t u : State} (first : Woke s t) (second : Woke t u) : Woke s u := by
  obtain ⟨wake, files, moved⟩ := first.files
  obtain ⟨wake', files', moved'⟩ := second.files
  refine ⟨second.objects.trans first.objects, second.next.trans first.next,
    second.registry.trans first.registry, ⟨wake' ∘ wake, by simp [files, files'], ?_⟩, ?_⟩
  · intro f
    exact movedTrans (moved f) (moved' (wake f))
  · intro c member unfinished
    obtain ⟨mid, memberMid, unfinishedMid, same⟩ := second.idle c member unfinished
    obtain ⟨old, memberOld, unfinishedOld, same'⟩ := first.idle mid memberMid unfinishedMid
    exact ⟨old, memberOld, unfinishedOld, same'.trans same⟩

theorem wakeOpenWoke (s : State) (p : Nat) : Woke s (wakeOpen s p) := by
  refine ⟨rfl, rfl, rfl, ⟨_, rfl, ?_⟩, fun c member unfinished => ⟨c, member, unfinished, rfl⟩⟩
  intro f
  split
  · rename_i asleep
    exact ⟨rfl, rfl, .inr ⟨asleep.2, rfl⟩⟩
  · exact movedRefl f

theorem wakeIoWoke (s : State) (reads : Bool) (p : Nat) : Woke s (wakeIo s reads p) := by
  refine ⟨rfl, rfl, rfl, ⟨id, by simp [wakeIo], movedRefl⟩, ?_⟩
  intro c member unfinished
  simp only [wakeIo, List.mem_map] at member
  obtain ⟨old, memberOld, rfl⟩ := member
  refine ⟨old, memberOld, ?_⟩
  split
  · rename_i asleep
    exact ⟨by simp [Call.unfinished, asleep.2.1], rfl⟩
  · rename_i awake
    rw [if_neg awake] at unfinished
    exact ⟨unfinished, rfl⟩

section Woke
variable {s t : State} (woke : Woke s t)
include woke

theorem wokeAt {i : Nat} {f : File} (found : s.files[i]? = some f) (awake : f.phase ≠ .asleep) :
    t.files[i]? = some f := by
  obtain ⟨wake, files, moved⟩ := woke.files
  rw [files, List.getElem?_map, found]
  exact congrArg some (movedAwake (moved f) awake)

theorem wokeBack {j : Nat} {g : File} (found : t.files[j]? = some g) :
    ∃ f, s.files[j]? = some f ∧ Moved f g := by
  obtain ⟨wake, files, moved⟩ := woke.files
  rw [files, List.getElem?_map, Option.map_eq_some_iff] at found
  obtain ⟨f, foundOld, rfl⟩ := found
  exact ⟨f, foundOld, moved f⟩

theorem wokeForth {j : Nat} {f : File} (found : s.files[j]? = some f) :
    ∃ g, t.files[j]? = some g ∧ Moved f g := by
  obtain ⟨wake, files, moved⟩ := woke.files
  exact ⟨wake f, by simp [files, found], moved f⟩

theorem wokeCount {counted : File → Bool} (blind : ∀ f g, Moved f g → counted g = counted f) :
    t.files.countP counted = s.files.countP counted := by
  obtain ⟨wake, files, moved⟩ := woke.files
  rw [files, List.countP_map]
  congr 1
  funext f
  exact blind f (wake f) (moved f)

theorem wokeKept {except : Option Nat} (kept : Kept s except) : Kept t except := by
  intro p alive differ
  rw [live, woke.next, woke.objects] at alive
  obtain ⟨f, member, refers⟩ := kept p alive differ
  obtain ⟨j, found⟩ := List.mem_iff_getElem?.mp member
  obtain ⟨g, found', moved⟩ := wokeForth woke found
  exact ⟨g, List.mem_of_getElem? found', (movedRefers moved p).trans refers⟩

theorem wokeBase (base : Base s) : Base t where
  inRange := by
    intro g member
    obtain ⟨j, found⟩ := List.mem_iff_getElem?.mp member
    obtain ⟨f, foundOld, moved⟩ := wokeBack woke found
    rw [woke.next, moved.1]
    exact base.inRange f (List.mem_of_getElem? foundOld)
  modes := by
    intro g member inside
    obtain ⟨j, found⟩ := List.mem_iff_getElem?.mp member
    obtain ⟨f, foundOld, -, mode, phase⟩ := wokeBack woke found
    rw [mode]
    apply base.modes f (List.mem_of_getElem? foundOld)
    rcases phase with same | ⟨asleep, -⟩
    · rwa [← same]
    · exact .inl asleep
  readers := by
    intro p
    rw [woke.objects, wokeCount woke fun f g moved => movedReads moved p]
    exact base.readers p
  writers := by
    intro p
    rw [woke.objects, wokeCount woke fun f g moved => movedWrites moved p]
    exact base.writers p
  freed := woke.objects ▸ base.freed
  registry := by
    intro p
    rw [woke.registry, live, woke.next, woke.objects]
    exact base.registry p
  once := woke.registry ▸ base.once
  refer := by
    intro g member attached
    obtain ⟨j, found⟩ := List.mem_iff_getElem?.mp member
    obtain ⟨f, foundOld, pipe, -, phase⟩ := wokeBack woke found
    have before : f.phase ≠ .detached := by
      rcases phase with same | ⟨asleep, -⟩
      · rwa [← same]
      · simp [asleep]
    rw [woke.objects, pipe]
    exact base.refer f (List.mem_of_getElem? foundOld) before
  calls := by
    intro c member unfinished
    obtain ⟨old, memberOld, unfinishedOld, same⟩ := woke.idle c member unfinished
    obtain ⟨f, found, openNow⟩ := base.calls old memberOld unfinishedOld
    exact ⟨f, same ▸ wokeAt woke found (by simp [openNow]), openNow⟩

end Woke

/-! ## One file changes its phase and its pipe's counts with it -/

theorem countSet {files : List File} {i : Nat} {f g : File} (found : files[i]? = some f)
    (counted : File → Bool) :
    (files.set i g).countP counted + b2n (counted f) = files.countP counted + b2n (counted g) := by
  obtain ⟨size, rfl⟩ := List.getElem?_eq_some_iff.mp found
  have part : (if counted files[i] = true then 1 else 0) ≤ files.countP counted :=
    List.boole_getElem_le_countP size
  rw [List.countP_set size, b2n, b2n]
  omega

theorem memSet {files : List File} {i : Nat} {g h : File} (member : h ∈ files.set i g) :
    h = g ∨ ∃ j, j ≠ i ∧ files[j]? = some h := by
  obtain ⟨j, found⟩ := List.mem_iff_getElem?.mp member
  rcases eq_or_ne j i with rfl | differ
  · left
    rw [List.getElem?_set_self'] at found
    cases h : files[j]? with
    | none => simp [h] at found
    | some old => simpa [h] using found.symm
  · rw [List.getElem?_set_ne differ.symm] at found
    exact .inr ⟨j, differ, found⟩

-- No read or write in progress came through the file.
def Idle (s : State) (i : Nat) : Prop := ∀ c ∈ s.calls, c.call.unfinished = true → c.file ≠ i

theorem idleUnopened {s : State} {i : Nat} {file : File} (base : Base s)
    (found : s.files[i]? = some file) (closed : file.phase ≠ .opened) : Idle s i := by
  rintro c member unfinished rfl
  obtain ⟨f, found', openNow⟩ := base.calls c member unfinished
  rw [found] at found'
  cases found'
  exact closed openNow

theorem idleWoke {s t : State} {i : Nat} (woke : Woke s t) (idle : Idle s i) : Idle t i := by
  rintro c member unfinished rfl
  obtain ⟨old, memberOld, unfinishedOld, same⟩ := woke.idle c member unfinished
  exact idle old memberOld unfinishedOld same

section Change
variable {s : State} {i : Nat} {file : File} {phase : FilePhase} {pipe : Pipe}
  (base : Base s) (found : s.files[i]? = some file)

-- The counts of the pipe follow the file.
def Follows (s : State) (file : File) (phase : FilePhase) (pipe : Pipe) : Prop :=
  pipe.readers + b2n (readsEnd file.pipe file) =
    (s.objects file.pipe).pipe.readers + b2n (readsEnd file.pipe {file with phase := phase}) ∧
  pipe.writers + b2n (writesEnd file.pipe file) =
    (s.objects file.pipe).pipe.writers + b2n (writesEnd file.pipe {file with phase := phase})

include base found in
theorem changeBase (follows : Follows s file phase pipe)
    (alive : phase ≠ .detached → (s.objects file.pipe).frees = 0)
    (modes : phase = .asleep ∨ phase = .woken → file.mode ≠ .readWrite)
    (idle : phase = .opened ∨ Idle s i) :
    Base (setFile (setPipe s file.pipe pipe) i {file with phase := phase}) where
  inRange := by
    intro f member
    rcases memSet member with rfl | ⟨j, -, other⟩
    · exact base.inRange file (List.mem_of_getElem? found)
    · exact base.inRange f (List.mem_of_getElem? other)
  modes := by
    intro f member inside
    rcases memSet member with rfl | ⟨j, -, other⟩
    · exact modes inside
    · exact base.modes f (List.mem_of_getElem? other) inside
  readers := by
    intro p
    have counts := countSet (g := {file with phase := phase}) found (readsEnd p)
    change ((setPipe s file.pipe pipe).objects p).pipe.readers = (s.files.set i _).countP _
    rcases eq_or_ne p file.pipe with rfl | differ
    · have before := base.readers file.pipe
      have now := follows.1
      rw [setPipePipe]
      omega
    · have neither : ∀ phase', readsEnd p {file with phase := phase'} = false := by
        simp [readsEnd, differ.symm]
      rw [setPipeOther pipe differ, base.readers p]
      rw [neither phase, show readsEnd p file = false from neither file.phase] at counts
      omega
  writers := by
    intro p
    have counts := countSet (g := {file with phase := phase}) found (writesEnd p)
    change ((setPipe s file.pipe pipe).objects p).pipe.writers = (s.files.set i _).countP _
    rcases eq_or_ne p file.pipe with rfl | differ
    · have before := base.writers file.pipe
      have now := follows.2
      rw [setPipePipe]
      omega
    · have neither : ∀ phase', writesEnd p {file with phase := phase'} = false := by
        simp [writesEnd, differ.symm]
      rw [setPipeOther pipe differ, base.writers p]
      rw [neither phase, show writesEnd p file = false from neither file.phase] at counts
      omega
  freed := by
    intro p
    change ((setPipe s file.pipe pipe).objects p).frees ≤ 1
    rw [setPipeFrees]
    exact base.freed p
  registry := by
    intro p
    change _ ↔ p < s.next ∧ ((setPipe s file.pipe pipe).objects p).frees = 0
    rw [setPipeFrees]
    exact base.registry p
  once := base.once
  refer := by
    intro f member attached
    change ((setPipe s file.pipe pipe).objects f.pipe).frees = 0
    rw [setPipeFrees]
    rcases memSet member with rfl | ⟨j, -, other⟩
    · exact alive attached
    · exact base.refer f (List.mem_of_getElem? other) attached
  calls := by
    intro c member unfinished
    obtain ⟨f, found', openNow⟩ := base.calls c member unfinished
    rcases eq_or_ne c.file i with same | differ
    · rcases idle with stays | idle
      · refine ⟨{file with phase := phase}, ?_, stays⟩
        simp only [setFile, same]
        exact List.getElem?_set_self (List.getElem?_eq_some_iff.mp found).1
      · exact absurd same (idle c member unfinished)
    · refine ⟨f, ?_, openNow⟩
      simp only [setFile]
      rwa [List.getElem?_set_ne differ.symm]

variable (phase pipe) in
include found in
theorem changeKeptOthers (kept : Kept s (some file.pipe)) :
    Kept (setFile (setPipe s file.pipe pipe) i {file with phase := phase}) (some file.pipe) := by
  intro p alive differ
  have alive' : live s p := by
    refine ⟨alive.1, ?_⟩
    have frees := alive.2
    change ((setPipe s file.pipe pipe).objects p).frees = 0 at frees
    rwa [setPipeFrees] at frees
  obtain ⟨f, member, refers⟩ := kept p alive' differ
  obtain ⟨j, found'⟩ := List.mem_iff_getElem?.mp member
  have notHere : i ≠ j := by
    rintro rfl
    rw [found] at found'
    cases found'
    simp only [refersTo, Bool.decide_and, Bool.and_eq_true, decide_eq_true_eq] at refers
    exact differ (congrArg some refers.1.symm)
  refine ⟨f, List.mem_of_getElem? (i := j) ?_, refers⟩
  simp only [setFile]
  rwa [List.getElem?_set_ne notHere]

-- The file refers to its pipe from now on, so its pipe is kept too.
variable (phase pipe) in
include found in
theorem changeKept (attached : phase ≠ .detached) (kept : Kept s (some file.pipe)) :
    Kept (setFile (setPipe s file.pipe pipe) i {file with phase := phase}) none := by
  intro p alive _
  rcases eq_or_ne p file.pipe with rfl | differ
  · have size := (List.getElem?_eq_some_iff.mp found).1
    exact ⟨_, List.mem_of_getElem? (List.getElem?_set_self size), by simp [refersTo, attached]⟩
  · exact changeKeptOthers phase pipe found kept p alive (by simpa using differ)

end Change

theorem keptWeaken {s : State} {except : Option Nat} (kept : Kept s none) : Kept s except :=
  fun p alive _ => kept p alive (by simp)

theorem keptBut {s : State} {p : Nat} (kept : Kept s (some p))
    (here : ∃ f ∈ s.files, refersTo p f = true) : Kept s none := by
  intro q alive _
  rcases eq_or_ne q p with rfl | differ
  · exact here
  · exact kept q alive (by simpa using differ)

/-! ## The release of an end -/

theorem destroyRegistry (s : State) (p : Nat) :
    (pipeDestroy s p).registry.map FifoEntry.pipe = (s.registry.map FifoEntry.pipe).erase p := by
  simp only [pipeDestroy, List.erase_eq_eraseP, List.eraseP_map]
  congr 2
  funext e
  simp only [Function.comp, eq_comm (a := e.pipe)]
  rfl

theorem destroyFrees (s : State) (p q : Nat) :
    ((pipeDestroy s p).objects q).frees = (s.objects q).frees + if q = p then 1 else 0 := by
  simp only [pipeDestroy, Function.update_apply]
  split
  · rename_i same
    rw [same]
  · rfl

theorem destroyPipe (s : State) (p q : Nat) :
    ((pipeDestroy s p).objects q).pipe = (s.objects q).pipe := by
  simp only [pipeDestroy, Function.update_apply]
  split
  · rename_i same
    rw [same]
  · rfl

theorem destroyBase {s : State} {p : Nat} (base : Base s) (alive : (s.objects p).frees = 0)
    (gone : ∀ f ∈ s.files, refersTo p f = false) : Base (pipeDestroy s p) where
  inRange := base.inRange
  modes := base.modes
  readers := fun q => by rw [destroyPipe]; exact base.readers q
  writers := fun q => by rw [destroyPipe]; exact base.writers q
  freed := by
    intro q
    rw [destroyFrees]
    split
    · rename_i same
      rw [same, alive]
    · exact base.freed q
  registry := by
    intro q
    rw [destroyRegistry, base.once.mem_erase_iff, base.registry q, live, live, destroyFrees]
    change _ ↔ q < s.next ∧ _
    rcases eq_or_ne q p with rfl | differ
    · simp
    · simp [differ]
  once := by
    rw [destroyRegistry]
    exact base.once.erase p
  refer := by
    intro f member attached
    have differ : f.pipe ≠ p := by
      rintro rfl
      have none := gone f member
      simp [refersTo, attached] at none
    rw [destroyFrees, if_neg differ]
    exact base.refer f member attached
  calls := base.calls

theorem destroyKept {s : State} {p : Nat} (kept : Kept s (some p)) : Kept (pipeDestroy s p) none := by
  intro q alive _
  have frees := alive.2
  rw [destroyFrees] at frees
  have differ : q ≠ p := by
    rintro rfl
    simp at frees
  exact kept q ⟨alive.1, by omega⟩ (by simpa using differ)

-- Whoever wakes up, a release sets the count and then destroys an unreferenced pipe.
theorem readReleaseForm (s : State) (p : Nat) :
    ∃ t, Woke s t ∧ pipeReadRelease s p =
      let pipe := (s.objects p).pipe.readRelease
      if pipe.unreferenced then pipeDestroy (setPipe t p pipe) p else setPipe t p pipe := by
  refine ⟨wakeOpen (if (s.objects p).pipe.readRelease.readers = 0 then wakeIo s false p else s) p,
    ?_, ?_⟩
  · refine wokeTrans ?_ (wakeOpenWoke _ p)
    split
    · exact wakeIoWoke s false p
    · exact wokeRefl s
  · unfold pipeReadRelease
    split <;> rename_i last <;> simp only [last, if_true, if_false] <;> rfl

theorem writeReleaseForm (s : State) (p : Nat) :
    ∃ t, Woke s t ∧ pipeWriteRelease s p =
      let pipe := (s.objects p).pipe.writeRelease
      if pipe.unreferenced then pipeDestroy (setPipe t p pipe) p else setPipe t p pipe := by
  refine ⟨wakeOpen (if (s.objects p).pipe.writeRelease.writers = 0 then wakeIo s true p else s) p,
    ?_, ?_⟩
  · refine wokeTrans ?_ (wakeOpenWoke _ p)
    split
    · exact wakeIoWoke s true p
    · exact wokeRefl s
  · unfold pipeWriteRelease
    split <;> rename_i last <;> simp only [last, if_true, if_false] <;> rfl

-- The counts of the pipe once the end has gone.
def afterRelease (mode : AccMode) (pipe : Pipe) : Pipe :=
  match mode with
  | .readWrite => pipe.writeRelease.readRelease
  | .write => pipe.writeRelease
  | .read => pipe.readRelease

theorem writeReleaseHeld {p : Pipe} (held : 0 < p.readers) : p.writeRelease.unreferenced = false := by
  simp [Pipe.unreferenced, Pipe.writeRelease, Nat.ne_of_gt held]

theorem wokeUnset {s u : State} {p : Nat} {pipe : Pipe} (woke : Woke (setPipe s p pipe) u) :
    Woke s {u with objects := s.objects} ∧
      ∀ pipe', setPipe u p pipe' = setPipe {u with objects := s.objects} p pipe' := by
  refine ⟨⟨rfl, woke.next, woke.registry, woke.files, woke.idle⟩, ?_⟩
  intro pipe'
  simp [setPipe, woke.objects]

theorem putForm {s : State} {i : Nat} {file : File}
    (held : file.mode = .readWrite → 0 < (s.objects file.pipe).pipe.readers) :
    ∃ t, Woke s t ∧ openFilePut s i file =
      let pipe := afterRelease file.mode (s.objects file.pipe).pipe
      let u := setFile (setPipe t file.pipe pipe) i {file with phase := .detached}
      if pipe.unreferenced then pipeDestroy u file.pipe else u := by
  cases h : file.mode with
  | read =>
    obtain ⟨t, woke, form⟩ := readReleaseForm s file.pipe
    refine ⟨t, woke, ?_⟩
    simp only [openFilePut, h, form, afterRelease]
    split <;> rename_i last <;> simp only [last, if_true] <;> rfl
  | write =>
    obtain ⟨t, woke, form⟩ := writeReleaseForm s file.pipe
    refine ⟨t, woke, ?_⟩
    simp only [openFilePut, h, form, afterRelease]
    split <;> rename_i last <;> simp only [last, if_true] <;> rfl
  | readWrite =>
    obtain ⟨t, woke, form⟩ := writeReleaseForm s file.pipe
    obtain ⟨u, woke', form'⟩ := readReleaseForm (pipeWriteRelease s file.pipe) file.pipe
    simp only [writeReleaseHeld (held h), Bool.false_eq_true, if_false] at form
    rw [form] at woke' form'
    obtain ⟨unset, same⟩ := wokeUnset woke'
    refine ⟨_, wokeTrans woke unset, ?_⟩
    simp only [setPipePipe, same] at form'
    simp only [openFilePut, h, form, form', afterRelease]
    split <;> rename_i last <;> simp only [last, if_true] <;> rfl

-- No other task is inside an open of the pipe.
def NobodyInside (s : State) (i p : Nat) : Prop :=
  ∀ (j : Nat) f, j ≠ i → s.files[j]? = some f → f.pipe = p → f.phase ≠ .asleep ∧ f.phase ≠ .woken

theorem nobodyWoke {s t : State} {i p : Nat} (woke : Woke s t) (nobody : NobodyInside s i p) :
    NobodyInside t i p := by
  intro j g differ found onPipe
  obtain ⟨f, foundOld, pipe, -, phase⟩ := wokeBack woke found
  obtain ⟨notAsleep, notWoken⟩ := nobody j f differ foundOld (pipe.symm.trans onPipe)
  rcases phase with same | ⟨asleep, -⟩
  · exact ⟨same ▸ notAsleep, same ▸ notWoken⟩
  · contradiction

-- With both counts zero and nobody inside, nothing is left that refers to the pipe.
theorem unreferencedGone {s : State} {i p : Nat} {file : File} (base : Base s)
    (found : s.files[i]? = some file) (detached : file.phase = .detached)
    (zero : (s.objects p).pipe.unreferenced = true) (nobody : NobodyInside s i p) :
    ∀ f ∈ s.files, refersTo p f = false := by
  simp only [Pipe.unreferenced, Bool.decide_and, Bool.and_eq_true, decide_eq_true_eq,
    base.readers, base.writers, List.countP_eq_zero] at zero
  obtain ⟨noReader, noWriter⟩ := zero
  intro f member
  obtain ⟨j, found'⟩ := List.mem_iff_getElem?.mp member
  have noRead := noReader f member
  have noWrite := noWriter f member
  simp only [refersTo, readsEnd, writesEnd, Bool.decide_and, Bool.and_eq_true, decide_eq_true_eq,
    Bool.and_eq_false_imp, decide_eq_false_iff_not] at noRead noWrite ⊢
  intro onPipe attached
  rcases eq_or_ne j i with rfl | differ
  · rw [found] at found'
    cases found'
    exact attached detached
  · obtain ⟨notAsleep, notWoken⟩ := nobody j f differ found' onPipe
    cases mode : f.mode <;> cases phase : f.phase <;> simp_all

theorem referencedHeld {s : State} {p : Nat} (base : Base s)
    (counted : (s.objects p).pipe.unreferenced = false) :
    ∃ f ∈ s.files, refersTo p f = true := by
  have some' : 0 < s.files.countP (readsEnd p) ∨ 0 < s.files.countP (writesEnd p) := by
    rw [← base.readers, ← base.writers]
    simp only [Pipe.unreferenced, Bool.decide_and, Bool.and_eq_false_iff,
      decide_eq_false_iff_not] at counted
    omega
  rcases some' with reads | writes
  · obtain ⟨f, member, counts⟩ := List.countP_pos_iff.mp reads
    refine ⟨f, member, ?_⟩
    simp only [readsEnd, refersTo, Bool.decide_and, Bool.and_eq_true, decide_eq_true_eq] at counts ⊢
    exact ⟨counts.1, counts.2.2⟩
  · obtain ⟨f, member, counts⟩ := List.countP_pos_iff.mp writes
    refine ⟨f, member, ?_⟩
    simp only [writesEnd, refersTo, Bool.decide_and, Bool.and_eq_true, decide_eq_true_eq] at counts ⊢
    exact ⟨counts.1, by simp [counts.2.2]⟩

theorem releaseFollows {s : State} {file : File} (base : Base s) (member : file ∈ s.files)
    (openNow : file.phase = .opened) :
    Follows s file .detached (afterRelease file.mode (s.objects file.pipe).pipe) ∧
      (file.mode ≠ .write → 0 < (s.objects file.pipe).pipe.readers) := by
  have reads : readsEnd file.pipe file = true → 0 < (s.objects file.pipe).pipe.readers := by
    intro counts
    rw [base.readers]
    exact List.countP_pos_iff.mpr ⟨file, member, counts⟩
  have writes : writesEnd file.pipe file = true → 0 < (s.objects file.pipe).pipe.writers := by
    intro counts
    rw [base.writers]
    exact List.countP_pos_iff.mpr ⟨file, member, counts⟩
  cases mode : file.mode <;>
    simp only [readsEnd, writesEnd, mode, openNow, Follows, afterRelease, b2n,
      Pipe.readRelease, Pipe.writeRelease] at reads writes ⊢ <;> simp at reads writes ⊢ <;> omega

/-! The last reference to an opened file goes away. The pipe is freed exactly when
nothing refers to it any more, unless a task is inside a write open, which the counts
do not show. -/
theorem putBase {s : State} {i : Nat} {file : File} (base : Base s)
    (found : s.files[i]? = some file) (openNow : file.phase = .opened) (idle : Idle s i)
    (alone : (afterRelease file.mode (s.objects file.pipe).pipe).unreferenced = true →
      NobodyInside s i file.pipe)
    (kept : Kept s (some file.pipe)) :
    Base (openFilePut s i file) ∧ Kept (openFilePut s i file) none := by
  obtain ⟨follows, held⟩ := releaseFollows base (List.mem_of_getElem? found) openNow
  obtain ⟨t, woke, form⟩ := putForm (i := i) fun h => held (by simp [h])
  have foundT : t.files[i]? = some file := wokeAt woke found (by simp [openNow])
  have followsT : Follows t file .detached (afterRelease file.mode (s.objects file.pipe).pipe) := by
    simpa only [Follows, woke.objects] using follows
  have baseT := changeBase (wokeBase woke base) foundT followsT (by simp) (by simp)
    (.inr (idleWoke woke idle))
  have keptT := changeKeptOthers .detached (afterRelease file.mode (s.objects file.pipe).pipe)
    foundT (wokeKept woke kept)
  have size := (List.getElem?_eq_some_iff.mp foundT).1
  rw [form]
  simp only
  split
  · rename_i zero
    refine ⟨destroyBase baseT ?_ ?_, destroyKept keptT⟩
    · change ((setPipe t file.pipe _).objects file.pipe).frees = 0
      rw [setPipeFrees, woke.objects]
      exact base.refer file (List.mem_of_getElem? found) (by simp [openNow])
    · refine unreferencedGone (i := i) baseT (List.getElem?_set_self size) rfl ?_ ?_
      · change ((setPipe t file.pipe _).objects file.pipe).pipe.unreferenced = true
        rwa [setPipePipe]
      · intro j f differ found'
        change (t.files.set i _)[j]? = some f at found'
        rw [List.getElem?_set_ne differ.symm] at found'
        exact nobodyWoke woke (alone zero) j f differ found'
  · rename_i counted
    refine ⟨baseT, keptBut keptT (referencedHeld baseT ?_)⟩
    change ((setPipe t file.pipe _).objects file.pipe).pipe.unreferenced = false
    rw [setPipePipe]
    simpa using counted

/-! ## The ways out of fifo_open_end -/

theorem resultBase {s : State} (result : Int) (base : Base s) : Base {s with result := result} :=
  ⟨base.inRange, base.modes, base.readers, base.writers, base.freed, base.registry, base.once,
    base.refer, base.calls⟩

section Open
variable {s : State} {i : Nat} {file : File} {pipe : Pipe} (base : Base s)
  (found : s.files[i]? = some file) (inside : file.phase = .detached ∨ file.phase = .woken)
  (kept : Kept s (some file.pipe))
include base found inside kept

theorem openedInv (fdFails : Bool) (follows : Follows s file .opened pipe)
    (alive : (s.objects file.pipe).frees = 0)
    (alone : fdFails = true → (afterRelease file.mode pipe).unreferenced = true →
      NobodyInside s i file.pipe) :
    Base (opened (setPipe s file.pipe pipe) i file fdFails) ∧
      Kept (opened (setPipe s file.pipe pipe) i file fdFails) none := by
  have woke := wakeOpenWoke s file.pipe
  have awake : file.phase ≠ .asleep := by rcases inside with h | h <;> simp [h]
  have closed : file.phase ≠ .opened := by rcases inside with h | h <;> simp [h]
  have idle : Idle s i := idleUnopened base found closed
  have foundW := wokeAt woke found awake
  have baseU := changeBase (wokeBase woke base) foundW follows (fun _ => alive) (by simp) (.inl rfl)
  have keptU := changeKept .opened pipe foundW (by simp) (wokeKept woke kept)
  have size := (List.getElem?_eq_some_iff.mp foundW).1
  cases fdFails with
  | false => exact ⟨resultBase 0 baseU, keptU⟩
  | true =>
    have foundU : ((wakeOpen s file.pipe).files.set i {file with phase := .opened})[i]? =
        some {file with phase := .opened} := List.getElem?_set_self size
    have put := putBase baseU foundU rfl idle ?_ (keptWeaken keptU)
    · exact ⟨resultBase (-1) put.1, put.2⟩
    · intro zero j f differ found'
      change ((wakeOpen s file.pipe).files.set i _)[j]? = some f at found'
      rw [List.getElem?_set_ne differ.symm] at found'
      change (afterRelease file.mode
        ((setPipe (wakeOpen s file.pipe) file.pipe pipe).objects file.pipe).pipe).unreferenced =
          true at zero
      rw [setPipePipe] at zero
      exact nobodyWoke woke (alone rfl zero) j f differ found'

-- A failed open leaves its pipe to somebody else.
theorem failedInv (error : Int) (follows : Follows s file .detached pipe)
    (other : ∃ (j : Nat) (f : File), j ≠ i ∧ s.files[j]? = some f ∧ refersTo file.pipe f = true) :
    Base (failed (setPipe s file.pipe pipe) i file error) ∧
      Kept (failed (setPipe s file.pipe pipe) i file error) none := by
  have woke := wakeOpenWoke s file.pipe
  have awake : file.phase ≠ .asleep := by rcases inside with h | h <;> simp [h]
  have closed : file.phase ≠ .opened := by rcases inside with h | h <;> simp [h]
  have idle : Idle s i := idleUnopened base found closed
  have foundW := wokeAt woke found awake
  have baseU := changeBase (wokeBase woke base) foundW follows (by simp) (by simp) (.inr idle)
  have keptU := changeKeptOthers .detached pipe foundW (wokeKept woke kept)
  refine ⟨resultBase _ baseU, keptBut keptU ?_⟩
  obtain ⟨j, f, differ, found', refers⟩ := other
  obtain ⟨g, foundG, moved⟩ := wokeForth woke found'
  refine ⟨g, List.mem_of_getElem? (i := j) ?_, (movedRefers moved _).trans refers⟩
  change ((wakeOpen s file.pipe).files.set i _)[j]? = some g
  rwa [List.getElem?_set_ne differ.symm]

theorem asleepInv (follows : Follows s file .asleep pipe)
    (alive : (s.objects file.pipe).frees = 0) (mode : file.mode ≠ .readWrite) :
    Base (setFile (setPipe s file.pipe pipe) i {file with phase := .asleep}) ∧
      Kept (setFile (setPipe s file.pipe pipe) i {file with phase := .asleep}) none := by
  have closed : file.phase ≠ .opened := by rcases inside with h | h <;> simp [h]
  exact ⟨changeBase base found follows (fun _ => alive) (fun _ => mode)
    (.inr (idleUnopened base found closed)), changeKept .asleep pipe found (by simp) kept⟩

/-! Each loop of fifo_open_end ends in one of the three. -/

theorem writeLoopInv {nonblock fdFails : Bool} (mode : file.mode = .write)
    (alive : (s.objects file.pipe).frees = 0)
    (other : nonblock = true → (s.objects file.pipe).pipe.readers = 0 →
      ∃ (j : Nat) (f : File), j ≠ i ∧ s.files[j]? = some f ∧ refersTo file.pipe f = true) :
    Base (writeOpenLoop s i file nonblock fdFails) ∧
      Kept (writeOpenLoop s i file nonblock fdFails) none := by
  have stays : ∀ phase, phase ≠ .opened → Follows s file phase (s.objects file.pipe).pipe := by
    intro phase closed
    rcases inside with h | h <;> simp [Follows, readsEnd, writesEnd, mode, h, closed]
  unfold writeOpenLoop
  simp only
  split
  · rename_i reader
    refine openedInv base found inside kept fdFails ?_ alive ?_
    · rcases inside with h | h <;> simp [Follows, readsEnd, writesEnd, mode, h, b2n]
    · intro _ zero
      simp [mode, afterRelease, Pipe.unreferenced, Pipe.writeRelease, Nat.ne_of_gt reader] at zero
  · rename_i noReader
    split
    · rename_i nonblocking
      have step := failedInv base found inside kept ENXIO (stays .detached (by simp))
        (other nonblocking (by omega))
      rwa [setPipeSelf] at step
    · have step := asleepInv base found inside kept (stays .asleep (by simp)) alive (by simp [mode])
      rwa [setPipeSelf] at step

-- Here the pipe counts the reader already, on its first pass as behind a sleep.
theorem readLoopInv (nonblock fdFails : Bool) (mode : file.mode = .read)
    (follows : Follows s file .opened pipe) (alive : (s.objects file.pipe).frees = 0)
    (alone : fdFails = true → (0 < pipe.count ∨ nonblock = true) →
      pipe.readRelease.unreferenced = true → NobodyInside s i file.pipe) :
    Base (readOpenLoop (setPipe s file.pipe pipe) i file nonblock fdFails) ∧
      Kept (readOpenLoop (setPipe s file.pipe pipe) i file nonblock fdFails) none := by
  have sleeps : Follows s file .asleep pipe := by
    simpa [Follows, readsEnd, writesEnd, mode] using follows
  unfold readOpenLoop
  simp only [setPipePipe]
  split
  · rename_i ready
    refine openedInv base found inside kept fdFails follows alive ?_
    intro fails zero
    simp only [mode, afterRelease] at zero
    rcases ready with writer | counted
    · simp [Pipe.unreferenced, Pipe.readRelease, Nat.ne_of_gt writer] at zero
    · exact alone fails counted zero
  · exact asleepInv base found inside kept sleeps alive (by simp [mode])

end Open

theorem fifoOpenEndInv {s : State} {i : Nat} {file : File} {nonblock fdFails : Bool}
    (base : Base s) (found : s.files[i]? = some file) (fresh : file.phase = .detached)
    (kept : Kept s (some file.pipe)) (alive : (s.objects file.pipe).frees = 0)
    (other : file.mode = .write → nonblock = true → (s.objects file.pipe).pipe.readers = 0 →
      ∃ (j : Nat) (f : File), j ≠ i ∧ s.files[j]? = some f ∧ refersTo file.pipe f = true)
    (alone : fdFails = true → (s.objects file.pipe).pipe.unreferenced = true →
      NobodyInside s i file.pipe) :
    Base (fifoOpenEnd s i file nonblock fdFails) ∧
      Kept (fifoOpenEnd s i file nonblock fdFails) none := by
  unfold fifoOpenEnd
  cases mode : file.mode with
  | readWrite =>
    refine openedInv base found (.inl fresh) kept fdFails ?_ alive ?_
    · simp [Follows, readsEnd, writesEnd, mode, fresh, b2n]
    · intro fails zero
      apply alone fails
      simpa only [mode, afterRelease, Pipe.unreferenced, Pipe.readRelease, Pipe.writeRelease,
        Nat.add_sub_cancel] using zero
  | write => exact writeLoopInv base found (.inl fresh) kept mode alive (other mode)
  | read =>
    have woke := wakeOpenWoke s file.pipe
    refine readLoopInv (s := wakeOpen s file.pipe) (wokeBase woke base)
      (wokeAt woke found (by simp [fresh])) (.inl fresh) (wokeKept woke kept) nonblock fdFails mode
      ?_ alive ?_
    · simp [Follows, readsEnd, writesEnd, mode, fresh, b2n, wakeOpen]
    · intro fails _ zero
      apply nobodyWoke woke (alone fails _)
      simpa only [Pipe.unreferenced, Pipe.readRelease, Nat.add_sub_cancel] using zero

theorem resumeOpenInv {s : State} {i : Nat} {file : File} {pending fdFails : Bool}
    (base : Base s) (found : s.files[i]? = some file) (woken : file.phase = .woken)
    (kept : Kept s none)
    (other : pending = true →
      (file.mode = .read → (s.objects file.pipe).pipe.writers = 0 ∧
        (s.objects file.pipe).pipe.count = 0) →
      ∃ (j : Nat) (f : File), j ≠ i ∧ s.files[j]? = some f ∧ refersTo file.pipe f = true)
    (alone : fdFails = true → 0 < (s.objects file.pipe).pipe.count →
      (s.objects file.pipe).pipe.readRelease.unreferenced = true → NobodyInside s i file.pipe) :
    Base (resumeOpen s i file pending fdFails) ∧ Kept (resumeOpen s i file pending fdFails) none := by
  have member := List.mem_of_getElem? found
  have alive : (s.objects file.pipe).frees = 0 := base.refer file member (by simp [woken])
  have kept' : Kept s (some file.pipe) := keptWeaken kept
  unfold resumeOpen
  cases mode : file.mode with
  | readWrite => exact absurd mode (base.modes file member (.inr woken))
  | write =>
    simp only
    split
    · rename_i signalled
      have leaves : Follows s file .detached (s.objects file.pipe).pipe := by
        simp [Follows, readsEnd, writesEnd, mode, woken]
      have step := failedInv base found (.inr woken) kept' EINTR leaves
        (other signalled (by simp [mode]))
      rwa [setPipeSelf] at step
    · exact writeLoopInv base found (.inr woken) kept' mode alive (fun h => by simp at h)
  | read =>
    have stays : Follows s file .opened (s.objects file.pipe).pipe := by
      simp [Follows, readsEnd, writesEnd, mode, woken]
    have counts : 0 < (s.objects file.pipe).pipe.readers := by
      rw [base.readers]
      exact List.countP_pos_iff.mpr ⟨file, member, by simp [readsEnd, mode, woken]⟩
    simp only
    split
    · rename_i ready
      have step := openedInv base found (.inr woken) kept' fdFails stays alive ?_
      · rwa [setPipeSelf] at step
      · intro fails zero
        simp only [mode, afterRelease] at zero
        rcases ready with writer | counted
        · simp [Pipe.unreferenced, Pipe.readRelease, Nat.ne_of_gt writer] at zero
        · exact alone fails counted zero
    · rename_i notReady
      split
      · rename_i signalled
        refine failedInv base found (.inr woken) kept' EINTR ?_ (other signalled fun _ => by omega)
        simp [Follows, readsEnd, writesEnd, mode, woken, b2n]
        omega
      · have step := readLoopInv base found (.inr woken) kept' false fdFails mode stays alive ?_
        · rwa [setPipeSelf] at step
        · intro fails counted zero
          exact alone fails (by simpa using counted) zero

/-! ## The registry -/

theorem liveRefers {s : State} {p : Nat} (base : Base s) (kept : Kept s none)
    (registered : p ∈ s.registry.map FifoEntry.pipe) : ∃ f ∈ s.files, refersTo p f = true :=
  kept p ((base.registry p).mp registered) (by simp)

theorem lookupRegistered {s : State} {key : Key} {e : FifoEntry} (found : fifoLookup s key = some e) :
    e.pipe ∈ s.registry.map FifoEntry.pipe :=
  List.mem_map_of_mem (List.mem_of_find?_eq_some found)

theorem getPipeFreshBase {s : State} {key : Key} (base : Base s) :
    Base {s with
      objects := Function.update s.objects s.next ⟨fifoPipe, 0⟩
      next := s.next + 1
      registry := s.registry ++ [⟨key, s.next⟩]} where
  inRange := fun f member => Nat.lt_succ_of_lt (base.inRange f member)
  modes := base.modes
  readers := by
    intro p
    simp only [Function.update_apply]
    split
    · rename_i same
      symm
      refine List.countP_eq_zero.mpr fun f member => ?_
      have older := base.inRange f member
      simp [readsEnd, same, Nat.ne_of_lt older]
    · exact base.readers p
  writers := by
    intro p
    simp only [Function.update_apply]
    split
    · rename_i same
      symm
      refine List.countP_eq_zero.mpr fun f member => ?_
      have older := base.inRange f member
      simp [writesEnd, same, Nat.ne_of_lt older]
    · exact base.writers p
  freed := by
    intro p
    simp only [Function.update_apply]
    split
    · exact Nat.zero_le 1
    · exact base.freed p
  registry := by
    intro p
    rw [List.map_append, List.mem_append, base.registry p]
    simp only [live, List.map_singleton, List.mem_singleton, Function.update_apply]
    rcases eq_or_ne p s.next with rfl | differ
    · simp
    · simp only [differ, or_false, if_false]
      omega
  once := by
    rw [List.map_append]
    refine List.nodup_append.mpr ⟨base.once, by simp, ?_⟩
    intro p old q new
    rw [List.map_singleton, List.mem_singleton] at new
    have older := ((base.registry p).mp old).1
    exact new ▸ Nat.ne_of_lt older
  refer := by
    intro f member attached
    have older := base.inRange f member
    simp only [Function.update_of_ne (Nat.ne_of_lt older)]
    exact base.refer f member attached
  calls := base.calls

theorem attachBase {s : State} {p : Nat} (mode : AccMode) (base : Base s) (range : p < s.next) :
    Base {s with files := s.files ++ [⟨p, mode, .detached⟩]} where
  inRange := by
    intro f member
    rcases List.mem_append.mp member with old | new
    · exact base.inRange f old
    · rw [List.mem_singleton.mp new]
      exact range
  modes := by
    intro f member inside
    rcases List.mem_append.mp member with old | new
    · exact base.modes f old inside
    · simp [List.mem_singleton.mp new] at inside
  readers := by
    intro q
    simpa [readsEnd] using base.readers q
  writers := by
    intro q
    simpa [writesEnd] using base.writers q
  freed := base.freed
  registry := base.registry
  once := base.once
  refer := by
    intro f member attached
    rcases List.mem_append.mp member with old | new
    · exact base.refer f old attached
    · simp [List.mem_singleton.mp new] at attached
  calls := by
    intro c member unfinished
    obtain ⟨f, found, openNow⟩ := base.calls c member unfinished
    have size := (List.getElem?_eq_some_iff.mp found).1
    exact ⟨f, by rwa [List.getElem?_append_left size], openNow⟩

/-! ## Reads and writes leave the ends alone -/

theorem pipeBase {s : State} {p : Nat} {pipe : Pipe} (base : Base s)
    (readers : pipe.readers = (s.objects p).pipe.readers)
    (writers : pipe.writers = (s.objects p).pipe.writers) : Base (setPipe s p pipe) where
  inRange := base.inRange
  modes := base.modes
  readers := by
    intro q
    rcases eq_or_ne q p with rfl | differ
    · rw [setPipePipe, readers]
      exact base.readers q
    · rw [setPipeOther pipe differ]
      exact base.readers q
  writers := by
    intro q
    rcases eq_or_ne q p with rfl | differ
    · rw [setPipePipe, writers]
      exact base.writers q
    · rw [setPipeOther pipe differ]
      exact base.writers q
  freed := by
    intro q
    rw [setPipeFrees]
    exact base.freed q
  registry := by
    intro q
    rw [live, setPipeFrees]
    exact base.registry q
  once := base.once
  refer := by
    intro f member attached
    rw [setPipeFrees]
    exact base.refer f member attached
  calls := base.calls

theorem pipeKept {s : State} {p : Nat} {pipe : Pipe} (kept : Kept s none) :
    Kept (setPipe s p pipe) none := by
  intro q alive differ
  rw [live, setPipeFrees] at alive
  exact kept q alive differ

theorem callsBase {s : State} {calls : List IoCall} (base : Base s)
    (onOpen : ∀ c ∈ calls, c.call.unfinished = true →
      ∃ f, s.files[c.file]? = some f ∧ f.phase = .opened) : Base {s with calls := calls} :=
  ⟨base.inRange, base.modes, base.readers, base.writers, base.freed, base.registry, base.once,
    base.refer, onOpen⟩

-- A call of before goes on through the file it came through.
theorem setCallBase {s : State} {j : Nat} {c : IoCall} {call : Call} (base : Base s)
    (found : s.calls[j]? = some c) (unfinished : c.call.unfinished = true) :
    Base {s with calls := s.calls.set j {c with call := call}} := by
  refine callsBase base ?_
  intro d member unfinished'
  rcases List.mem_or_eq_of_mem_set member with old | rfl
  · exact base.calls d old unfinished'
  · exact base.calls c (List.mem_of_getElem? found) unfinished

theorem advanceEnds (pipe : Pipe) (call : Call) :
    (advance pipe call).1.readers = pipe.readers ∧ (advance pipe call).1.writers = pipe.writers := by
  unfold advance
  cases call.request with
  | read count buf =>
    rcases readPassCases pipe count call.total with ⟨n, -, -, -, moves⟩ | sleeps | done
    · simp [moves, Pipe.take]
    · simp [sleeps]
    · simp [done]
  | write data =>
    rcases writePassCases pipe data call.total with ⟨n, -, -, moves⟩ | sleeps | done | ⟨-, refused⟩
    · simp [moves, Pipe.put]
    · simp [sleeps]
    · simp [done]
    · simp [refused]

theorem nonblockEnds {p q : Pipe} {bytes : List UInt8} {request : Request} {ret : Int}
    (moved : (match request with
      | .read count _ => pipeReadNonblock p count
      | .write data => pipeWriteNonblock p data) = (ret, some (q, bytes))) :
    q.readers = p.readers ∧ q.writers = p.writers := by
  cases request with
  | read count buf =>
    simp only [pipeReadNonblock] at moved
    split at moved
    · cases moved
      exact ⟨rfl, rfl⟩
    · split at moved <;> cases moved
  | write data =>
    simp only [pipeWriteNonblock] at moved
    split at moved
    · cases moved
    · split at moved
      · cases moved
      · cases moved
        exact ⟨rfl, rfl⟩

/-! ## One step, with care -/

/- The steps that go wrong. An open that fails takes the pipe of nobody else with it:
a non-blocking write open of a FIFO nobody has open or is opening, or an interrupted
open that was the only one left. And the end that leaves no counted end behind does so
while another task is inside a write open. -/
def Careful (s : State) : Action → Prop
  | .open key mode nonblock allocFails fdFails =>
    match fifoLookup s key with
    | none => ¬ (mode = .write ∧ nonblock = true ∧ allocFails = false)
    | some e =>
      fdFails = true → (s.objects e.pipe).pipe.unreferenced = true →
        NobodyInside s s.files.length e.pipe
  | .resumeOpen i pending fdFails => ∀ file, s.files[i]? = some file →
    let pipe := (s.objects file.pipe).pipe
    (pending = true → (file.mode = .read → pipe.writers = 0 ∧ pipe.count = 0) →
      ∃ (j : Nat) (f : File), j ≠ i ∧ s.files[j]? = some f ∧ refersTo file.pipe f = true) ∧
    (fdFails = true → 0 < pipe.count → pipe.readRelease.unreferenced = true →
      NobodyInside s i file.pipe)
  | .close i => ∀ file, s.files[i]? = some file →
    (afterRelease file.mode (s.objects file.pipe).pipe).unreferenced = true →
      NobodyInside s i file.pipe
  | _ => True

def Inv (s : State) : Prop := Base s ∧ Kept s none

theorem startInv : Inv start := by
  refine ⟨⟨by simp [start], by simp [start], fun p => rfl, fun p => rfl, fun p => Nat.zero_le 1,
    ?_, List.nodup_nil, by simp [start], by simp [start]⟩, ?_⟩
  · simp [start, live]
  · intro p alive
    simp [start, live] at alive

theorem openInv {s : State} {key : Key} {mode : AccMode} {nonblock allocFails fdFails : Bool}
    (inv : Inv s) (careful : Careful s (.open key mode nonblock allocFails fdFails)) :
    Inv (fsOpen s key mode nonblock allocFails fdFails) := by
  obtain ⟨base, kept⟩ := inv
  unfold fsOpen fifoGetPipe
  simp only [Careful] at careful
  cases found : fifoLookup s key with
  | some e =>
    simp only [found] at careful ⊢
    obtain ⟨range, alive⟩ := (base.registry e.pipe).mp (lookupRegistered found)
    obtain ⟨f, member, refers⟩ := liveRefers base kept (lookupRegistered found)
    refine fifoOpenEndInv (attachBase mode base range) (by simp) rfl ?_ alive ?_ ?_
    · intro p aliveP _
      obtain ⟨g, memberG, refersG⟩ := kept p aliveP (by simp)
      exact ⟨g, List.mem_append_left _ memberG, refersG⟩
    · intro _ _ _
      obtain ⟨j, foundF⟩ := List.mem_iff_getElem?.mp member
      have size := (List.getElem?_eq_some_iff.mp foundF).1
      exact ⟨j, f, Nat.ne_of_lt size, by rwa [List.getElem?_append_left size], refers⟩
    · intro fails zero j g differ foundG
      rcases Nat.lt_or_gt_of_ne differ with older | newer
      · rw [List.getElem?_append_left older] at foundG
        exact careful fails zero j g differ foundG
      · rw [List.getElem?_eq_none (by simp; omega)] at foundG
        contradiction
  | none =>
    simp only [found] at careful ⊢
    cases allocFails with
    | true => exact ⟨resultBase _ base, kept⟩
    | false =>
      simp only [Bool.false_eq_true, if_false]
      refine fifoOpenEndInv (attachBase mode (getPipeFreshBase base) (Nat.lt_succ_self _))
        (by simp) rfl ?_ (by simp) ?_ ?_
      · intro p alive differ
        have different : p ≠ s.next := by simpa using differ
        have aliveS : live s p := by
          refine ⟨?_, ?_⟩
          · have range : p < s.next + 1 := alive.1
            omega
          · have frees := alive.2
            simpa only [Function.update_of_ne different] using frees
        obtain ⟨g, memberG, refersG⟩ := kept p aliveS (by simp)
        exact ⟨g, List.mem_append_left _ memberG, refersG⟩
      · intro write nonblocking _
        exact absurd ⟨write, nonblocking, rfl⟩ careful
      · intro _ _ j g differ foundG onPipe
        rcases Nat.lt_or_gt_of_ne differ with older | newer
        · rw [List.getElem?_append_left older] at foundG
          have range := base.inRange g (List.mem_of_getElem? foundG)
          exact absurd onPipe (Nat.ne_of_lt range)
        · rw [List.getElem?_eq_none (by simp; omega)] at foundG
          contradiction

theorem wokeInv {s t : State} (woke : Woke s t) (inv : Inv s) : Inv t :=
  ⟨wokeBase woke inv.1, wokeKept woke inv.2⟩

theorem ioPassInv {s : State} {j : Nat} {c : IoCall} {p : Nat} (inv : Inv s)
    (found : s.calls[j]? = some c) (running : c.call.phase = .running) :
    Inv (ioPass s j c p) := by
  obtain ⟨base, kept⟩ := inv
  obtain ⟨readers, writers⟩ := advanceEnds (s.objects p).pipe c.call
  have unfinished : c.call.unfinished = true := by simp [Call.unfinished, running]
  have passed : Inv {setPipe s p (advance (s.objects p).pipe c.call).1 with
      calls := s.calls.set j {c with call := (advance (s.objects p).pipe c.call).2.1}} :=
    ⟨setCallBase (pipeBase base readers writers) found unfinished, pipeKept (p := p) kept⟩
  unfold ioPass
  simp only
  split
  · exact wokeInv (wakeIoWoke ..) passed
  · exact passed

theorem ioNonblockInv {s : State} {i p : Nat} {request : Request} (inv : Inv s) :
    Inv (ioNonblock s i p request) := by
  obtain ⟨base, kept⟩ := inv
  have logged : ∀ ret, Base {s with calls := s.calls ++ [⟨i, ⟨request, 0, .returned ret⟩⟩]} := by
    intro ret
    refine callsBase base ?_
    intro c member unfinished
    rcases List.mem_append.mp member with old | new
    · exact base.calls c old unfinished
    · simp [List.mem_singleton.mp new, Call.unfinished] at unfinished
  unfold ioNonblock
  split
  rename_i ret moved result
  simp only
  split
  · obtain ⟨readers, writers⟩ := nonblockEnds result
    exact wokeInv (wakeIoWoke ..) ⟨pipeBase (logged ret) readers writers, pipeKept kept⟩
  · exact ⟨logged ret, kept⟩

theorem stepInv (s : State) (action : Action) (t : State) (inv : Inv s)
    (careful : Careful s action) (stepped : step s action = some t) : Inv t := by
  obtain ⟨base, kept⟩ := inv
  cases action with
  | «open» key mode nonblock allocFails fdFails =>
    cases stepped
    exact openInv ⟨base, kept⟩ careful
  | resumeOpen i pending fdFails =>
    simp only [step] at stepped
    split at stepped <;> try contradiction
    rename_i file found
    split at stepped <;> cases stepped
    rename_i woken
    obtain ⟨other, alone⟩ := careful file found
    exact resumeOpenInv base found woken kept other alone
  | close i =>
    simp only [step] at stepped
    split at stepped <;> try contradiction
    rename_i file found
    split at stepped <;> cases stepped
    rename_i free
    refine putBase base found free.1 ?_ (careful file found) (keptWeaken kept)
    rintro c member unfinished rfl
    have notUsed := free.2
    simp only [fileInUse, List.any_eq_false, Bool.decide_and, Bool.and_eq_true,
      decide_eq_true_eq, not_and] at notUsed
    exact notUsed c member rfl unfinished
  | io i request =>
    simp only [step] at stepped
    split at stepped <;> try contradiction
    rename_i file found
    split at stepped <;> cases stepped
    rename_i openNow
    refine ⟨callsBase base ?_, kept⟩
    intro c member unfinished
    rcases List.mem_append.mp member with old | new
    · exact base.calls c old unfinished
    · rw [List.mem_singleton.mp new]
      exact ⟨file, found, openNow⟩
  | ioNonblock i request =>
    simp only [step] at stepped
    split at stepped <;> try contradiction
    rename_i file found
    split at stepped <;> cases stepped
    exact ioNonblockInv ⟨base, kept⟩
  | ioPass j =>
    simp only [step] at stepped
    split at stepped <;> try contradiction
    rename_i c found
    split at stepped <;> try contradiction
    rename_i file foundFile
    split at stepped <;> cases stepped
    rename_i running
    exact ioPassInv ⟨base, kept⟩ found running
  | ioResume j pending =>
    simp only [step] at stepped
    split at stepped <;> try contradiction
    rename_i c found
    split at stepped <;> cases stepped
    rename_i woken
    exact ⟨setCallBase base found (by simp [Call.unfinished, woken]), kept⟩

/-! ## Whole runs -/

/- Freed exactly once, and not before the last open end or open in progress is gone;
nobody sleeps on a freed pipe; no entry is left that nothing refers to. -/
structure Lifetime (s : State) : Prop where
  freedOnce : ∀ p < s.next,
    (s.objects p).frees = if s.files.any (refersTo p) then 0 else 1
  insideOpen : ∀ f ∈ s.files, f.phase = .asleep ∨ f.phase = .woken → (s.objects f.pipe).frees = 0
  insideIo : ∀ c ∈ s.calls, c.call.unfinished = true →
    ∃ f, s.files[c.file]? = some f ∧ (s.objects f.pipe).frees = 0
  registry : ∀ e ∈ s.registry, ∃ f ∈ s.files, refersTo e.pipe f = true

theorem invLifetime {s : State} (inv : Inv s) : Lifetime s := by
  obtain ⟨base, kept⟩ := inv
  refine ⟨?_, ?_, ?_, ?_⟩
  · intro p range
    split
    · rename_i referred
      obtain ⟨f, member, refers⟩ := List.any_eq_true.mp referred
      simp only [refersTo, Bool.decide_and, Bool.and_eq_true, decide_eq_true_eq] at refers
      exact refers.1 ▸ base.refer f member refers.2
    · rename_i none
      have once := base.freed p
      have freed : (s.objects p).frees ≠ 0 := by
        intro alive
        obtain ⟨f, member, refers⟩ := kept p ⟨range, alive⟩ (by simp)
        exact none (List.any_eq_true.mpr ⟨f, member, refers⟩)
      omega
  · intro f member inside
    apply base.refer f member
    rcases inside with h | h <;> simp [h]
  · intro c member unfinished
    obtain ⟨f, found, openNow⟩ := base.calls c member unfinished
    exact ⟨f, found, base.refer f (List.mem_of_getElem? found) (by simp [openNow])⟩
  · intro e member
    exact liveRefers base kept (List.mem_map_of_mem member)

theorem fifoLifetime {acts : List Action} {s : State} (careful : Meets step Careful start acts)
    (ran : run step start acts = some s) : Lifetime s :=
  invLifetime (invariantMeets stepInv startInv careful ran)

def spool : Key := ⟨0, 1, 12⟩

/-! A reader sleeps in its open until a writer comes; both close. -/
def readerAndWriter : List Action :=
  [.open spool .read false false false, .open spool .write false false false,
    .resumeOpen 0 false false, .close 1, .close 0]

theorem readerAndWriterLifetime :
    ∃ s, run step start readerAndWriter = some s ∧ (s.objects 0).frees = 1 ∧ Lifetime s := by
  have ends : (run step start readerAndWriter).isSome := rfl
  have careful : Meets step Careful start readerAndWriter := by
    refine ⟨by simp [Careful, fifoLookup, start], ?_⟩
    rintro _ ⟨⟩
    refine ⟨fun fails => (nomatch fails), ?_⟩
    rintro _ ⟨⟩
    refine ⟨?_, ?_⟩
    · rintro _ ⟨⟩
      exact ⟨fun pending => (nomatch pending), fun fails => (nomatch fails)⟩
    rintro _ ⟨⟩
    refine ⟨?_, ?_⟩
    · rintro _ ⟨⟩ zero
      exact absurd zero (by decide)
    rintro _ ⟨⟩
    refine ⟨?_, fun _ _ => trivial⟩
    rintro _ ⟨⟩ _ j f differ found
    match j with
    | 0 => contradiction
    | 1 => cases found; exact fun _ => ⟨by decide, by decide⟩
    | j + 2 => cases found
  exact ⟨(run step start readerAndWriter).get ends, (Option.some_get ends).symm, rfl,
    fifoLifetime careful (Option.some_get ends).symm⟩

-- A non-blocking write open of a FIFO nobody has open: ENXIO, and the entry stays.
def leakingOpen : List Action := [.open spool .write true false false]

-- A reader comes and goes while a writer waits in its open for one.
def earlyFree : List Action :=
  [.open spool .write false false false, .open spool .read true false false, .close 1]

theorem fifoLeaksAndFreesEarly :
    (∃ s, run step start leakingOpen = some s ∧ s.result = - ENXIO ∧
      s.registry = [⟨spool, 0⟩] ∧ ¬ Lifetime s) ∧
    (∃ s, run step start earlyFree = some s ∧ s.files[0]? = some ⟨0, .write, .woken⟩ ∧
      (s.objects 0).frees = 1 ∧ ¬ Lifetime s) := by
  refine ⟨⟨_, rfl, rfl, rfl, ?_⟩, ⟨_, rfl, rfl, rfl, ?_⟩⟩
  · intro lifetime
    obtain ⟨f, member, refers⟩ := lifetime.registry ⟨spool, 0⟩ List.mem_cons_self
    cases List.mem_singleton.mp member
    exact absurd refers (by decide)
  · intro lifetime
    have alive := lifetime.insideOpen ⟨0, .write, .woken⟩ List.mem_cons_self (.inr rfl)
    exact absurd alive (by decide)

end Scepter.Fifo
