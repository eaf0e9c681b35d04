import Scepter.Kernel.Errno
import Scepter.Kernel.Signal
import Scepter.Lib.Run

/-! The status words of wait4 (kernel/process.c, signal.c) and the macros of the C
library that take them apart (crt/include/sys/wait.h). An int is masked and shifted as
a number; the words are never negative. `event` is what last happened to a task, for
the statements only. -/
namespace Scepter.Wait
open Sched (TaskId TaskState SIGCONT sigDefaultTerminates)

def ECHILD : Int := 10

def WNOHANG : Nat := 1
def WUNTRACED : Nat := 2
def WCONTINUED : Nat := 8

/-! ## sys/wait.h -/

def WIFEXITED (s : Nat) : Bool := s &&& 0x7f = 0
def WEXITSTATUS (s : Nat) : Nat := (s >>> 8) &&& 0xff
def WIFSIGNALED (s : Nat) : Bool := s &&& 0x7f ≠ 0 ∧ s &&& 0x7f ≠ 0x7f
def WTERMSIG (s : Nat) : Nat := s &&& 0x7f
def WIFSTOPPED (s : Nat) : Bool := s &&& 0xff = 0x7f
def WSTOPSIG (s : Nat) : Nat := (s >>> 8) &&& 0xff

/-! ## Tasks -/

inductive Event where
  | running
  | exited (code : Int)
  | killed (sig : Nat)
  | stopped (sig : Nat)
  | continued
  deriving DecidableEq

structure Task where
  pid : Nat
  pgid : Nat
  state : TaskState
  exitCode : Nat
  stopSig : Nat
  stopReported : Bool
  continued : Bool
  event : Event

structure State where
  task : TaskId → Task
  children : TaskId → List TaskId
  live : TaskId → Bool
  -- the task of PID 1
  init : Option TaskId

def State.setTask (s : State) (t : TaskId) (task : Task) : State :=
  {s with task := Function.update s.task t task}

def State.setChildren (s : State) (t : TaskId) (children : List TaskId) : State :=
  {s with children := Function.update s.children t children}

def freeTask (s : State) (t : TaskId) : State := {s with live := Function.update s.live t false}

def exitStatus (status : Int) : Nat :=
  if status ≥ 128 then ((status - 128) % 128).toNat else (status % 256).toNat <<< 8

def stopStatus (sig : Nat) : Nat := (sig <<< 8) ||| 0x7f

def continuedStatus : Nat := 0xffff

def leaveChild (task : TaskId) (s : State) (child : TaskId) : State :=
  if (s.task child).state = .zombie then freeTask s child
  else match s.init with
    | some init => if init ≠ task then s.setChildren init (s.children init ++ [child]) else s
    | none => s

def doExit (s : State) (t : TaskId) (status : Int) (event : Event) : State :=
  let s := s.setTask t {s.task t with exitCode := exitStatus status, event := event}
  let s := ((s.children t).foldl (leaveChild t) s).setChildren t []
  s.setTask t {s.task t with state := .zombie}

def sigDefaultStops (sig : Nat) : Bool := sig ∈ [19, 20, 21, 22]

def stopTask (s : State) (t : TaskId) (sig : Nat) : State :=
  s.setTask t {s.task t with
    state := .stopped, stopSig := sig, stopReported := false, continued := false
    event := .stopped sig}

def sendSignal (s : State) (t : TaskId) (signum : Nat) : State :=
  if (s.task t).state ≠ .stopped then s
  else if signum = SIGCONT then
    s.setTask t {s.task t with
      state := .ready, stopSig := 0, stopReported := false, continued := true
      event := .continued}
  else if sigDefaultTerminates signum then
    s.setTask t {s.task t with
      state := .ready, stopSig := 0, stopReported := false, event := .running}
  else s

/-! ## wait4 -/

inductive Found where
  | zombie (child : TaskId)
  | stopped (child : TaskId)
  | continued (child : TaskId)
  | live
  | none

def scan (s : State) (parent : TaskId) (pid : Int) (options : Nat) :
    List TaskId → Bool → Found
  | [], live => if live then .live else .none
  | child :: rest, live =>
    let c := s.task child
    if pid > 0 ∧ (c.pid : Int) ≠ pid then scan s parent pid options rest live
    else if pid = 0 ∧ c.pgid ≠ (s.task parent).pgid then scan s parent pid options rest live
    else if c.state = .zombie then .zombie child
    else if c.state = .stopped ∧ !c.stopReported then
      if options &&& WUNTRACED ≠ 0 then .stopped child else scan s parent pid options rest true
    else if c.continued ∧ options &&& WCONTINUED ≠ 0 then .continued child
    else scan s parent pid options rest true

structure Report where
  child : TaskId
  status : Nat

structure Result where
  -- none while the caller sleeps
  ret : Option Int
  report : Option Report
  state : State

inductive StatusPtr where
  | null | good | bad
  deriving DecidableEq

def giveStatus (s : State) (ptr : StatusPtr) (child : TaskId) (status : Nat) (after : State) :
    Result :=
  if ptr = .bad then ⟨some (-EFAULT), none, s⟩
  else ⟨some (s.task child).pid, if ptr = .good then some ⟨child, status⟩ else none, after⟩

def wait4 (s : State) (parent : TaskId) (pid : Int) (options : Nat) (ptr : StatusPtr) : Result :=
  match scan s parent pid options (s.children parent) false with
  | .zombie child => giveStatus s ptr child (s.task child).exitCode
      (freeTask (s.setChildren parent ((s.children parent).erase child)) child)
  | .stopped child => giveStatus s ptr child (stopStatus (s.task child).stopSig)
      (s.setTask child {s.task child with stopReported := true})
  | .continued child => giveStatus s ptr child continuedStatus
      (s.setTask child {s.task child with continued := false})
  | .live => ⟨if options &&& WNOHANG ≠ 0 then some 0 else none, none, s⟩
  | .none => ⟨some (-ECHILD), none, s⟩

/-! ## Runs -/

inductive Action where
  | create (parent t : TaskId) (pid pgid : Nat)
  | exit (t : TaskId) (code : Int)
  | kill (t : TaskId) (sig : Nat)
  | stop (t : TaskId) (sig : Nat)
  | signal (t : TaskId) (signum : Nat)
  | wait4 (parent : TaskId) (pid : Int) (options : Nat) (ptr : StatusPtr)

def State.runs (s : State) (t : TaskId) : Bool :=
  s.live t ∧ (s.task t).state ≠ .zombie ∧ (s.task t).state ≠ .stopped

def step (s : State) : Action → Option State
  | .create parent t pid pgid =>
    if s.live t then none
    else
      let s := s.setTask t ⟨pid, pgid, .ready, 0, 0, false, false, .running⟩
      let s := {s with live := Function.update s.live t true}
      some ((s.setChildren t []).setChildren parent (s.children parent ++ [t]))
  | .exit t code => if s.runs t then some (doExit s t code (.exited code)) else none
  | .kill t sig =>
    if s.runs t ∧ sigDefaultTerminates sig then some (doExit s t (128 + sig) (.killed sig)) else none
  | .stop t sig => if s.runs t ∧ sigDefaultStops sig then some (stopTask s t sig) else none
  | .signal t signum => some (sendSignal s t signum)
  | .wait4 parent pid options ptr => some (wait4 s parent pid options ptr).state

/-! ## Decoding -/

def Decodes (s : Nat) : Event → Prop
  | .running => False
  | .exited code => WIFEXITED s = true ∧ WIFSIGNALED s = false ∧ WIFSTOPPED s = false ∧
      (WEXITSTATUS s : Int) = code % 256
  | .killed sig => WIFEXITED s = false ∧ WIFSIGNALED s = true ∧ WIFSTOPPED s = false ∧
      WTERMSIG s = sig
  | .stopped sig => WIFEXITED s = false ∧ WIFSIGNALED s = false ∧ WIFSTOPPED s = true ∧
      WSTOPSIG s = sig
  | .continued => WIFEXITED s = false ∧ WIFSIGNALED s = false ∧ WIFSTOPPED s = false
instance (s event) : Decidable (Decodes s event) := by
  cases event <;> unfold Decodes <;> infer_instance

def Plain : Event → Prop
  | .exited code => code < 128 ∨ code % 256 = 0
  | _ => True
instance (event) : Decidable (Plain event) := by cases event <;> unfold Plain <;> infer_instance

theorem lowSeven (s : Nat) : s &&& 0x7f = s % 128 := Nat.and_two_pow_sub_one_eq_mod s 7

theorem lowByte (s : Nat) : s &&& 0xff = s % 256 := Nat.and_two_pow_sub_one_eq_mod s 8

theorem exitDecodes (code : Int) : Decodes (exitStatus code) (.exited code) ↔ Plain (.exited code) := by
  unfold Decodes Plain WIFEXITED WIFSIGNALED WIFSTOPPED WEXITSTATUS exitStatus
  simp only [lowSeven, lowByte, decide_eq_true_eq, decide_eq_false_iff_not]
  split <;> rename_i large
  · omega
  · rw [Nat.shiftLeft_eq]
    omega

theorem killDecodes {sig : Nat} (fatal : sigDefaultTerminates sig = true) :
    Decodes (exitStatus (128 + sig)) (.killed sig) := by
  have bounds : 1 ≤ sig ∧ sig ≤ 31 := by
    unfold sigDefaultTerminates at fatal
    rw [decide_eq_true_eq] at fatal
    simp only [List.mem_cons, List.not_mem_nil, or_false] at fatal
    omega
  unfold Decodes WIFEXITED WIFSIGNALED WIFSTOPPED WTERMSIG exitStatus
  simp only [lowSeven, lowByte, decide_eq_true_eq, decide_eq_false_iff_not]
  rw [if_pos (by omega)]
  omega

theorem stopDecodes {sig : Nat} (stops : sigDefaultStops sig = true) :
    Decodes (stopStatus sig) (.stopped sig) := by
  unfold sigDefaultStops at stops
  rw [decide_eq_true_eq] at stops
  simp only [List.mem_cons, List.not_mem_nil, or_false] at stops
  rcases stops with rfl | rfl | rfl | rfl <;> decide

/-! ## What the fields say -/

structure Right (task : Task) : Prop where
  zombie : task.state = .zombie → (∃ code, task.event = .exited code ∧
      task.exitCode = exitStatus code) ∨
    ∃ sig, sigDefaultTerminates sig = true ∧ task.event = .killed sig ∧
      task.exitCode = exitStatus (128 + sig)
  stopped : task.state = .stopped → sigDefaultStops task.stopSig = true ∧
    task.event = .stopped task.stopSig
  continued : task.state ≠ .zombie → task.continued = true → task.event = .continued

def Start (s : State) : Prop :=
  ∀ t, (s.task t).state = .ready ∧ (s.task t).continued = false

theorem startRight {s : State} (start : Start s) (t : TaskId) : Right (s.task t) := by
  obtain ⟨ready, notContinued⟩ := start t
  refine ⟨fun zombie => ?_, fun stopped => ?_, fun _ continued => ?_⟩
  · rw [ready] at zombie
    cases zombie
  · rw [ready] at stopped
    cases stopped
  · rw [notContinued] at continued
    cases continued

theorem setRight {s : State} (right : ∀ t, Right (s.task t)) {t : TaskId} {task : Task}
    (new : Right task) (u : TaskId) : Right ((s.setTask t task).task u) := by
  unfold State.setTask
  dsimp only
  by_cases same : u = t
  · rw [same, Function.update_self]
    exact new
  · rw [Function.update_of_ne same]
    exact right u

theorem leaveTask (task : TaskId) (s : State) (child : TaskId) :
    (leaveChild task s child).task = s.task := by
  unfold leaveChild
  split
  · rfl
  split
  · split <;> rfl
  · rfl

theorem leaveAllTask (task : TaskId) (children : List TaskId) (s : State) :
    (children.foldl (leaveChild task) s).task = s.task := by
  induction children generalizing s with
  | nil => rfl
  | cons child rest ih => exact (ih _).trans (leaveTask task s child)

theorem exitTask (s : State) (t : TaskId) (status : Int) (event : Event) :
    (doExit s t status event).task = Function.update s.task t {s.task t with
      exitCode := exitStatus status, event := event, state := .zombie} := by
  unfold doExit State.setChildren State.setTask
  dsimp only
  rw [leaveAllTask]
  dsimp only
  rw [Function.update_self, Function.update_idem]

theorem exitRight {s : State} (right : ∀ t, Right (s.task t)) {t : TaskId} {status : Int}
    {event : Event} (told : (∃ code, event = .exited code ∧ status = code) ∨
      ∃ sig : Nat, sigDefaultTerminates sig = true ∧ event = .killed sig ∧ status = 128 + sig)
    (u : TaskId) : Right ((doExit s t status event).task u) := by
  rw [exitTask]
  by_cases same : u = t
  · rw [same, Function.update_self]
    refine ⟨fun _ => ?_, nofun, fun alive => absurd rfl alive⟩
    rcases told with ⟨code, rfl, rfl⟩ | ⟨sig, fatal, rfl, rfl⟩
    · exact .inl ⟨_, rfl, rfl⟩
    · exact .inr ⟨sig, fatal, rfl, rfl⟩
  · rw [Function.update_of_ne same]
    exact right u

theorem signalRight {s : State} (right : ∀ t, Right (s.task t)) (t : TaskId) (signum : Nat)
    (u : TaskId) : Right ((sendSignal s t signum).task u) := by
  unfold sendSignal
  split <;> rename_i stopped
  · exact right u
  split
  · have new : Right {s.task t with
        state := .ready, stopSig := 0, stopReported := false, continued := true
        event := .continued} := ⟨nofun, nofun, fun _ _ => rfl⟩
    exact setRight right new u
  split
  · -- a stop cleared the flag
    have cleared : (s.task t).continued = false := by
      cases continued : (s.task t).continued with
      | false => rfl
      | true =>
        have before := (right t).continued (by rw [not_not.mp stopped]; nofun) continued
        have now := ((right t).stopped (not_not.mp stopped)).2
        rw [before] at now
        cases now
    have new : Right {s.task t with
        state := .ready, stopSig := 0, stopReported := false, event := .running} :=
      ⟨nofun, nofun, fun _ continued => absurd (continued.symm.trans cleared) (by decide)⟩
    exact setRight right new u
  · exact right u

theorem waitRight {s : State} (right : ∀ t, Right (s.task t)) (parent : TaskId) (pid : Int)
    (options : Nat) (ptr : StatusPtr) (u : TaskId) :
    Right ((wait4 s parent pid options ptr).state.task u) := by
  have given : ∀ child status after, (∀ u, Right (after.task u)) →
      ∀ u, Right ((giveStatus s ptr child status after).state.task u) := by
    intro child status after fine
    unfold giveStatus
    split
    · exact right
    · exact fine
  unfold wait4
  split
  · exact given _ _ (freeTask (s.setChildren parent _) _) right u
  · rename_i child _
    have new : Right {s.task child with stopReported := true} :=
      ⟨(right child).zombie, (right child).stopped, (right child).continued⟩
    exact given _ _ _ (setRight right new) u
  · rename_i child _
    have new : Right {s.task child with continued := false} :=
      ⟨(right child).zombie, (right child).stopped, nofun⟩
    exact given _ _ _ (setRight right new) u
  · exact right u
  · exact right u

theorem stepRight (s : State) (a : Action) (t : State) (right : ∀ u, Right (s.task u))
    (taken : step s a = some t) (u : TaskId) : Right (t.task u) := by
  cases a with
  | create parent new pid pgid =>
    dsimp only [step] at taken
    split at taken
    · cases taken
    · cases taken
      have fresh : Right ⟨pid, pgid, .ready, 0, 0, false, false, .running⟩ := ⟨nofun, nofun, nofun⟩
      exact setRight right fresh u
  | exit t code =>
    dsimp only [step] at taken
    split at taken
    · cases taken
      exact exitRight right (.inl ⟨code, rfl, rfl⟩) u
    · cases taken
  | kill t sig =>
    dsimp only [step] at taken
    split at taken <;> rename_i holds
    · cases taken
      exact exitRight right (.inr ⟨sig, holds.2, rfl, rfl⟩) u
    · cases taken
  | stop t sig =>
    dsimp only [step] at taken
    split at taken <;> rename_i holds
    · cases taken
      have new : Right {s.task t with
          state := .stopped, stopSig := sig, stopReported := false, continued := false
          event := .stopped sig} := ⟨nofun, fun _ => ⟨holds.2, rfl⟩, nofun⟩
      exact setRight right new u
    · cases taken
  | signal t signum =>
    cases taken
    exact signalRight right t signum u
  | wait4 parent pid options ptr =>
    cases taken
    exact waitRight right parent pid options ptr u

/-! ## Reports -/

def Found.Seen (s : State) : Found → Prop
  | .zombie child => (s.task child).state = .zombie
  | .stopped child => (s.task child).state = .stopped
  | .continued child => (s.task child).state ≠ .zombie ∧ (s.task child).continued = true
  | .live => True
  | .none => True

theorem scanSeen (s : State) (parent : TaskId) (pid : Int) (options : Nat)
    (children : List TaskId) (live : Bool) :
    (scan s parent pid options children live).Seen s := by
  induction children generalizing live with
  | nil =>
    unfold scan
    cases live <;> trivial
  | cons child rest ih =>
    unfold scan
    dsimp only
    by_cases other : pid > 0 ∧ ((s.task child).pid : Int) ≠ pid
    · rw [if_pos other]
      exact ih live
    rw [if_neg other]
    by_cases foreign : pid = 0 ∧ (s.task child).pgid ≠ (s.task parent).pgid
    · rw [if_pos foreign]
      exact ih live
    rw [if_neg foreign]
    by_cases zombie : (s.task child).state = .zombie
    · rw [if_pos zombie]
      exact zombie
    rw [if_neg zombie]
    by_cases stopped : (s.task child).state = .stopped ∧ !(s.task child).stopReported
    · rw [if_pos stopped]
      by_cases asked : options &&& WUNTRACED ≠ 0
      · rw [if_pos asked]
        exact stopped.1
      · rw [if_neg asked]
        exact ih true
    rw [if_neg stopped]
    by_cases continued : (s.task child).continued ∧ options &&& WCONTINUED ≠ 0
    · rw [if_pos continued]
      exact ⟨zombie, continued.1⟩
    · rw [if_neg continued]
      exact ih true

theorem continuedDecodes : Decodes continuedStatus .continued := by decide

/-- Every status word that wait4 reports is decoded as the event that occurred exactly
when that is no exit with a code whose encoding is a signal's. -/
theorem statusRightIff {start s : State} {acts : List Action} (begun : Start start)
    (ran : Run.run step start acts = some s) {parent : TaskId} {pid : Int} {options : Nat}
    {ptr : StatusPtr} {report : Report}
    (reported : (wait4 s parent pid options ptr).report = some report) :
    Decodes report.status (s.task report.child).event ↔ Plain (s.task report.child).event := by
  have right : ∀ t, Right (s.task t) :=
    Run.invariant (P := fun s => ∀ t, Right (s.task t)) stepRight (startRight begun) ran
  have given : ∀ {child status after},
      (giveStatus s ptr child status after).report = some report → report = ⟨child, status⟩ := by
    intro child status after done
    unfold giveStatus at done
    split at done
    · cases done
    · dsimp only at done
      split at done
      · exact (Option.some.inj done).symm
      · cases done
  have found := scanSeen s parent pid options (s.children parent) false
  unfold wait4 at reported
  split at reported <;> rename_i child scanned
  · rw [scanned] at found
    cases given reported
    rcases (right child).zombie found with ⟨code, event, status⟩ | ⟨sig, fatal, event, status⟩
    · rw [event, status]
      exact exitDecodes code
    · rw [event, status]
      exact ⟨fun _ => trivial, fun _ => killDecodes fatal⟩
  · rw [scanned] at found
    cases given reported
    obtain ⟨stops, event⟩ := (right child).stopped found
    rw [event]
    exact ⟨fun _ => trivial, fun _ => stopDecodes stops⟩
  · rw [scanned] at found
    cases given reported
    rw [(right child).continued found.1 found.2]
    exact ⟨fun _ => trivial, fun _ => continuedDecodes⟩
  · cases reported
  · cases reported

def booted : State where
  task _ := ⟨1, 1, .ready, 0, 0, false, false, .running⟩
  children _ := []
  live t := t = 1
  init := some 1

theorem bootedStart : Start booted := fun _ => ⟨rfl, rfl⟩

theorem exitThreeRight : ∃ s report, Run.run step booted
      [.create 1 2 2 1, .stop 2 20, .wait4 1 (-1) WUNTRACED .good, .signal 2 18, .exit 2 3] = some s ∧
    (wait4 s 1 (-1) 0 .good).report = some report ∧
    (Decodes report.status (s.task report.child).event ↔ Plain (s.task report.child).event) := by
  obtain ⟨s, ran, report, reported⟩ : ∃ s, Run.run step booted [.create 1 2 2 1, .stop 2 20,
      .wait4 1 (-1) WUNTRACED .good, .signal 2 18, .exit 2 3] = some s ∧
      ∃ report, (wait4 s 1 (-1) 0 .good).report = some report := ⟨_, rfl, _, rfl⟩
  exact ⟨s, report, ran, reported, statusRightIff bootedStart ran reported⟩

def Misreported (code : Int) : Prop :=
  ∃ s report, Run.run step booted [.create 1 2 2 1, .exit 2 code] = some s ∧
    (wait4 s 1 (-1) 0 .good).report = some report ∧
    (s.task report.child).event = .exited code ∧
    ¬Decodes report.status (s.task report.child).event

/-- exit(200) is reported as death by signal 72, exit(255) as a stop, exit(128) as exit(0). -/
theorem largeCodesWrong : Misreported 200 ∧ Misreported 255 ∧ Misreported 128 :=
  ⟨⟨_, ⟨2, 72⟩, rfl, rfl, rfl, by decide⟩, ⟨_, ⟨2, 127⟩, rfl, rfl, rfl, by decide⟩,
    ⟨_, ⟨2, 0⟩, rfl, rfl, rfl, by decide⟩⟩

end Scepter.Wait
