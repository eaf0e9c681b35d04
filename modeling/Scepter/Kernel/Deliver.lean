import Scepter.Kernel.Signal
import Scepter.Lib.Bits
import Scepter.Lib.Run

/-! Signal delivery and sigreturn (kernel/signal.c) with the i386 register frame.
One task, `self`, is followed; the rest of the kernel moves freely around it.
`write` tells which user ranges copy_to_user can fill. `History` is read by no
code: it records what became of every signal. -/
namespace Scepter.Deliver
open Scepter.Sched

def SIGKILL : Nat := 9
def SIGSTOP : Nat := 19

def SA_NODEFER : BitVec 32 := 0x40000000
def SA_RESETHAND : BitVec 32 := 0x80000000
def SIGNAL_TRAMPOLINE_VA : BitVec 32 := 0xBFFFFFE0

def sigDefaultStops (sig : Nat) : Bool := sig ∈ [19, 20, 21, 22]

/-- registers_t as user code sees it: popa skips esp_dummy, and cr3 stays the task's own. -/
structure Registers where
  edi : BitVec 32
  esi : BitVec 32
  ebp : BitVec 32
  ebx : BitVec 32
  edx : BitVec 32
  ecx : BitVec 32
  eax : BitVec 32
  gs : BitVec 32
  fs : BitVec 32
  es : BitVec 32
  ds : BitVec 32
  eip : BitVec 32
  cs : BitVec 32
  eflags : BitVec 32
  userEsp : BitVec 32
  ss : BitVec 32
  deriving DecidableEq, Repr

structure Context where
  sigHmask : Nat → BitVec 32
  sigHflags : Nat → BitVec 32
  sigActive : Bool
  sigDelivered : Nat
  sigSavedEip : BitVec 32
  sigSavedEsp : BitVec 32
  sigSavedEflags : BitVec 32
  sigSavedBlocked : BitVec 32

inductive Deed where
  | killed | stopped | caught | ignored | lost
  deriving DecidableEq, Repr

structure History where
  made : List Nat               -- pending bits a send turned on
  deeds : List (Nat × Deed)
  contLast : Bool               -- SIGCONT came after every stop signal

structure Machine where
  kernel : Kernel
  ctx : Context
  regs : Registers
  history : History

variable (write : BitVec 32 → Nat → Bool) (self : TaskId)

def Machine.setSelf (m : Machine) (task : Task) : Machine :=
  {m with kernel := m.kernel.setTask self task}

@[simp] theorem setSelfTask (m : Machine) (task : Task) :
    (m.setSelf self task).kernel.task self = task := by simp [Machine.setSelf]
@[simp] theorem setSelfCtx (m : Machine) (task) : (m.setSelf self task).ctx = m.ctx := rfl
@[simp] theorem setSelfRegs (m : Machine) (task) : (m.setSelf self task).regs = m.regs := rfl
@[simp] theorem setSelfHistory (m : Machine) (task) :
    (m.setSelf self task).history = m.history := rfl

def Machine.note (m : Machine) (sig : Nat) (deed : Deed) : Machine :=
  {m with history.deeds := m.history.deeds ++ [(sig, deed)]}

@[simp] theorem noteKernel (m : Machine) (sig deed) : (m.note sig deed).kernel = m.kernel := rfl
@[simp] theorem noteCtx (m : Machine) (sig deed) : (m.note sig deed).ctx = m.ctx := rfl
@[simp] theorem noteRegs (m : Machine) (sig deed) : (m.note sig deed).regs = m.regs := rfl

/-! ## do_signal -/

def consume (m : Machine) (sig : Nat) : Machine :=
  let task := m.kernel.task self
  m.setSelf self {task with pending := task.pending &&& ~~~(1#32 <<< sig)}

def stopTask (k : Kernel) (sig : Nat) : Kernel :=
  let k := k.setTask self {k.task self with
    state := .stopped, stopSig := sig, stopReported := false, continued := false}
  let k := match findTaskByPid k (k.task self).ppid with
    | some parent => if parent ≠ self then wakeUp k (.wait parent) else k
    | none => k
  schedule k

def resetHand (m : Machine) (sig : Nat) : Machine :=
  let task := m.kernel.task self
  if m.ctx.sigHflags sig &&& SA_RESETHAND ≠ 0 then
    m.setSelf self {task with sigHandlers := Function.update task.sigHandlers sig SIG_DFL}
  else m

def saveContext (m : Machine) (sig : Nat) : Machine :=
  let task := m.kernel.task self
  let add := if m.ctx.sigHflags sig &&& SA_NODEFER = 0
    then m.ctx.sigHmask sig ||| (1#32 <<< sig) else m.ctx.sigHmask sig
  {m.setSelf self {task with blocked := task.blocked ||| add} with
    ctx := {m.ctx with
      sigSavedEip := m.regs.eip, sigSavedEsp := m.regs.userEsp
      sigSavedEflags := m.regs.eflags, sigSavedBlocked := task.blocked
      sigActive := true, sigDelivered := sig}}

def unsave (m : Machine) (oldBlocked : BitVec 32) : Machine :=
  {m.setSelf self {m.kernel.task self with blocked := oldBlocked} with
    ctx := {m.ctx with sigActive := false}}

def enterHandler (m : Machine) (handler : BitVec 32) : Machine :=
  {m with regs := {m.regs with userEsp := m.regs.userEsp - 8, eip := handler, eax := 0}}

inductive Visit where
  | pass (m : Machine)
  | exit (code : Nat) (m : Machine)
  | stop (m : Machine)
  | enter (m : Machine)

def Visit.machine : Visit → Machine
  | .pass m | .exit _ m | .stop m | .enter m => m

def visit (m : Machine) (sig : Nat) : Visit :=
  let task := m.kernel.task self
  if task.pending &&& (1#32 <<< sig) = 0 then .pass m
  else if task.blocked &&& (1#32 <<< sig) ≠ 0 then .pass m
  else
    let m := consume self m sig
    let handler := task.sigHandlers sig
    if handler = SIG_IGN then .pass (m.note sig .ignored)
    else if handler = SIG_DFL then
      if sigDefaultTerminates sig then
        .exit (128 + sig) ({m with kernel := m.kernel.setState self .zombie}.note sig .killed)
      else if sigDefaultStops sig then
        .stop ({m with kernel := stopTask self m.kernel sig}.note sig .stopped)
      else .pass (m.note sig .ignored)
    else if m.ctx.sigActive then .pass (m.setSelf self task)   -- pending |= mask
    else
      let m := resetHand self m sig
      if ¬ write SIGNAL_TRAMPOLINE_VA 7 then .pass (m.note sig .lost)
      else
        let saved := saveContext self m sig
        if ¬ write (m.regs.userEsp - 8) 8 then
          .pass ((unsave self saved task.blocked).note sig .lost)
        else .enter ((enterHandler saved handler).note sig .caught)

inductive Mode where
  | user
  | kernel                        -- inside a system call
  | parked (rest : List Nat)      -- inside schedule(), `rest` still to be looked at
  | dead (code : Nat)
  deriving DecidableEq, Repr

def scan : List Nat → Machine → Mode × Machine
  | [], m => (.user, m)
  | sig :: rest, m => match visit write self m sig with
    | .pass m => scan rest m
    | .exit code m => (.dead code, m)
    | .stop m => (.parked rest, m)
    | .enter m => (.user, m)

def doSignal (m : Machine) : Mode × Machine :=
  if (m.kernel.task self).pid = 0 ∨ (m.kernel.task self).pending = 0 then (.user, m)
  else scan write self (List.range' 1 (NSIG - 1)) m

def sysSigreturn (m : Machine) : Int × Machine :=
  if ¬ m.ctx.sigActive then (-1, m)
  else (0, {m.setSelf self {m.kernel.task self with blocked := m.ctx.sigSavedBlocked} with
    ctx := {m.ctx with sigActive := false}
    regs := {m.regs with
      eip := m.ctx.sigSavedEip, userEsp := m.ctx.sigSavedEsp
      eflags := m.ctx.sigSavedEflags, eax := 0}})

/-! ## The other calls that change the signal state -/

def sysSigaction (m : Machine) (signum : Nat) (handler mask flags : BitVec 32) : Machine :=
  if signum < 1 ∨ NSIG ≤ signum ∨ signum = SIGKILL ∨ signum = SIGSTOP then m
  else
    let task := m.kernel.task self
    {m.setSelf self {task with sigHandlers := Function.update task.sigHandlers signum handler} with
      ctx := {m.ctx with
        sigHmask := Function.update m.ctx.sigHmask signum mask
        sigHflags := Function.update m.ctx.sigHflags signum flags}}

def sysSignal (m : Machine) (signum : Nat) (handler : BitVec 32) : Machine :=
  sysSigaction self m signum handler 0 0

inductive How where
  | block | unblock | setmask
  deriving DecidableEq, Repr

def sysSigprocmask (m : Machine) (how : How) (new : BitVec 32) : Machine :=
  let task := m.kernel.task self
  let new := new &&& ~~~((1#32 <<< SIGKILL) ||| (1#32 <<< SIGSTOP))
  m.setSelf self {task with blocked := match how with
    | .block => task.blocked ||| new
    | .unblock => task.blocked &&& ~~~new
    | .setmask => new}

def send (m : Machine) (pid signum : Nat) : Machine :=
  let kernel := (sendSignal m.kernel pid signum).2
  if signum < 1 ∨ NSIG ≤ signum ∨ findTaskByPid m.kernel pid ≠ some self then
    {m with kernel := kernel}
  else {m with
    kernel := kernel
    history := {m.history with
      made := if (m.kernel.task self).pending.getLsbD signum then m.history.made
        else m.history.made ++ [signum]
      contLast := if signum = SIGCONT then true
        else if sigDefaultStops signum then false else m.history.contLast}}

/-! ## Runs -/

structure System where
  machine : Machine
  mode : Mode

inductive Act where
  | trap (regs : Registers)          -- user code runs up to its next int 0x80
  | sigaction (signum : Nat) (handler mask flags : BitVec 32)
  | sigprocmask (how : How) (new : BitVec 32)
  | sleep (wq : WaitQueue)           -- sleep_on in the call
  | leave (write : BitVec 32 → Nat → Bool) (ret : BitVec 32)
  | sigreturn (write : BitVec 32 → Nat → Bool)
  | resume (write : BitVec 32 → Nat → Bool)
  | send (pid signum : Nat)
  | others (k : Kernel) (state : TaskState)   -- whatever the other tasks do

def returned (m : Machine) (ret : BitVec 32) : Machine := {m with regs.eax := ret}

def settle (result : Mode × Machine) : System := ⟨result.2, result.1⟩

def step (s : System) : Act → Option System
  | .trap regs =>
    if s.mode = .user ∧ s.machine.kernel.current = self then
      some ⟨{s.machine with regs := regs}, .kernel⟩
    else none
  | .sigaction signum handler mask flags =>
    if s.mode = .kernel ∧ s.machine.kernel.current = self then
      some {s with machine := sysSigaction self s.machine signum handler mask flags}
    else none
  | .sigprocmask how new =>
    if s.mode = .kernel ∧ s.machine.kernel.current = self then
      some {s with machine := sysSigprocmask self s.machine how new}
    else none
  | .sleep wq =>
    if s.mode = .kernel ∧ s.machine.kernel.current = self then
      some {s with machine.kernel := sleepOn s.machine.kernel wq}
    else none
  | .leave write ret =>
    if s.mode = .kernel ∧ s.machine.kernel.current = self then
      some (settle (doSignal write self (returned s.machine ret)))
    else none
  | .sigreturn write =>
    if s.mode = .kernel ∧ s.machine.kernel.current = self then
      let (ret, m) := sysSigreturn self s.machine
      some (settle (doSignal write self (returned m (BitVec.ofInt 32 ret))))
    else none
  | .resume write => match s.mode with
    | .parked rest =>
      if s.machine.kernel.current = self ∧ (s.machine.kernel.task self).state = .running then
        some (settle (scan write self rest s.machine))
      else none
    | _ => none
  | .send pid signum => some {s with machine := send self s.machine pid signum}
  | .others k state =>
    if state = .stopped ↔ (s.machine.kernel.task self).state = .stopped then
      let task := {s.machine.kernel.task self with state := state}
      some {s with machine.kernel := k.setTask self task}
    else none

variable {write self}

/-! ## One turn of the loop -/

def Raised (task : Task) (sig : Nat) : Prop :=
  task.pending.getLsbD sig = true ∧ task.blocked.getLsbD sig = false
instance (task sig) : Decidable (Raised task sig) := by unfold Raised; infer_instance

def Fatal (task : Task) (sig : Nat) : Prop :=
  task.sigHandlers sig = SIG_DFL ∧ sigDefaultTerminates sig
instance (task sig) : Decidable (Fatal task sig) := by unfold Fatal; infer_instance

def Stops (task : Task) (sig : Nat) : Prop :=
  task.sigHandlers sig = SIG_DFL ∧ sigDefaultStops sig
instance (task sig) : Decidable (Stops task sig) := by unfold Stops; infer_instance

def Caught (task : Task) (sig : Nat) : Prop :=
  task.sigHandlers sig ≠ SIG_DFL ∧ task.sigHandlers sig ≠ SIG_IGN
instance (task sig) : Decidable (Caught task sig) := by unfold Caught; infer_instance

def Writable (write : BitVec 32 → Nat → Bool) (regs : Registers) : Prop :=
  write SIGNAL_TRAMPOLINE_VA 7 = true ∧ write (regs.userEsp - 8) 8 = true
instance (write regs) : Decidable (Writable write regs) := by unfold Writable; infer_instance

def started (self : TaskId) (m : Machine) (sig : Nat) : Machine :=
  (enterHandler (saveContext self (resetHand self (consume self m sig) sig) sig)
    ((m.kernel.task self).sigHandlers sig)).note sig .caught

def Dropped (self : TaskId) (m : Machine) (sig : Nat) (after : Machine) : Prop :=
  after = (resetHand self (consume self m sig) sig).note sig .lost ∨
  after = (unsave self (saveContext self (resetHand self (consume self m sig) sig) sig)
    (m.kernel.task self).blocked).note sig .lost

theorem stopTaskSelf (self : TaskId) (k : Kernel) (sig : Nat) :
    ((stopTask self k sig).task self).pending = (k.task self).pending ∧
    ((stopTask self k sig).task self).blocked = (k.task self).blocked ∧
    ((stopTask self k sig).task self).sigHandlers = (k.task self).sigHandlers ∧
    ((stopTask self k sig).task self).pid = (k.task self).pid := by
  simp only [stopTask]
  generalize stoppedAt : k.setTask self {k.task self with
    state := .stopped, stopSig := sig, stopReported := false, continued := false} = stopped
  have fields : (stopped.task self).pending = (k.task self).pending ∧
      (stopped.task self).blocked = (k.task self).blocked ∧
      (stopped.task self).sigHandlers = (k.task self).sigHandlers ∧
      (stopped.task self).pid = (k.task self).pid := by
    rw [← stoppedAt]
    simp
  have woken : Rescheduled (stopped.task self)
      ((match findTaskByPid stopped (stopped.task self).ppid with
        | some parent => if parent ≠ self then wakeUp stopped (.wait parent) else stopped
        | none => stopped).task self) := by
    split
    · split
      · exact wakeUpRescheduled _ _ self
      · exact rescheduledRefl _
    · exact rescheduledRefl _
  obtain ⟨state, same, -⟩ := rescheduledTrans woken (scheduleRescheduled _ self)
  rw [same]
  exact fields

theorem resetHandRegs (self : TaskId) (m : Machine) (sig) : (resetHand self m sig).regs = m.regs := by
  unfold resetHand; split <;> rfl
theorem resetHandCtx (self : TaskId) (m : Machine) (sig) : (resetHand self m sig).ctx = m.ctx := by
  unfold resetHand; split <;> rfl
theorem resetHandHistory (self : TaskId) (m : Machine) (sig) :
    (resetHand self m sig).history = m.history := by
  unfold resetHand; split <;> rfl
theorem resetHandPending (self : TaskId) (m : Machine) (sig) :
    ((resetHand self m sig).kernel.task self).pending = (m.kernel.task self).pending := by
  unfold resetHand; split <;> simp
theorem resetHandBlocked (self : TaskId) (m : Machine) (sig) :
    ((resetHand self m sig).kernel.task self).blocked = (m.kernel.task self).blocked := by
  unfold resetHand; split <;> simp
theorem resetHandHandlers (self : TaskId) (m : Machine) (sig) {other : Nat} (apart : other ≠ sig) :
    ((resetHand self m sig).kernel.task self).sigHandlers other =
      (m.kernel.task self).sigHandlers other := by
  unfold resetHand; split <;> simp [Function.update_of_ne apart]

theorem maskZero (set : BitVec 32) (sig : Nat) :
    set &&& (1#32 <<< sig) = 0 ↔ set.getLsbD sig = false := by
  rcases Nat.lt_or_ge sig 32 with valid | beyond
  · exact Bits.maskClear set valid
  · simp [BitVec.shiftLeft_eq_zero beyond, BitVec.getLsbD_of_ge set sig beyond]

theorem raisedMasks (task : Task) (sig : Nat) :
    Raised task sig ↔
      ¬ task.pending &&& (1#32 <<< sig) = 0 ∧ task.blocked &&& (1#32 <<< sig) = 0 := by
  rw [maskZero, maskZero, Raised, Bool.not_eq_false]

theorem visitCases (write : BitVec 32 → Nat → Bool) (self : TaskId) (m : Machine) (sig : Nat) :
    let task := m.kernel.task self
    (¬ Raised task sig ∧ visit write self m sig = .pass m) ∨
    (Raised task sig ∧ ¬ Fatal task sig ∧ ¬ Stops task sig ∧ ¬ Caught task sig ∧
      visit write self m sig = .pass ((consume self m sig).note sig .ignored)) ∨
    (Raised task sig ∧ Fatal task sig ∧ visit write self m sig = .exit (128 + sig)
      ({consume self m sig with kernel := (consume self m sig).kernel.setState self .zombie}.note
        sig .killed)) ∨
    (Raised task sig ∧ Stops task sig ∧ visit write self m sig = .stop
      ({consume self m sig with kernel := stopTask self (consume self m sig).kernel sig}.note
        sig .stopped)) ∨
    (Raised task sig ∧ Caught task sig ∧ m.ctx.sigActive = true ∧
      visit write self m sig = .pass ((consume self m sig).setSelf self task)) ∨
    (Raised task sig ∧ Caught task sig ∧ m.ctx.sigActive = false ∧ ¬ Writable write m.regs ∧
      ∃ after, Dropped self m sig after ∧ visit write self m sig = .pass after) ∨
    (Raised task sig ∧ Caught task sig ∧ m.ctx.sigActive = false ∧ Writable write m.regs ∧
      visit write self m sig = .enter (started self m sig)) := by
  intro task
  by_cases raised : Raised task sig
  swap
  · refine Or.inl ⟨raised, ?_⟩
    rw [raisedMasks task sig, not_and_or, not_not] at raised
    simp only [visit]
    rcases raised with absent | masked
    · rw [if_pos absent]
    · rw [if_pos masked, ite_self]
  refine Or.inr ?_
  have ⟨present, open'⟩ := (raisedMasks task sig).mp raised
  simp only [visit]
  rw [if_neg present, if_neg (not_not.mpr open')]
  by_cases ign : task.sigHandlers sig = SIG_IGN
  · refine Or.inl ⟨raised, ?_, ?_, fun caught => caught.2 ign, if_pos ign⟩
    · rintro ⟨dfl, -⟩
      exact absurd (dfl.symm.trans ign) (by decide)
    · rintro ⟨dfl, -⟩
      exact absurd (dfl.symm.trans ign) (by decide)
  rw [if_neg ign]
  by_cases dfl : task.sigHandlers sig = SIG_DFL
  · rw [if_pos dfl]
    by_cases fatal : sigDefaultTerminates sig = true
    · exact Or.inr (Or.inl ⟨raised, ⟨dfl, fatal⟩, if_pos fatal⟩)
    rw [if_neg fatal]
    by_cases stops : sigDefaultStops sig = true
    · exact Or.inr (Or.inr (Or.inl ⟨raised, ⟨dfl, stops⟩, if_pos stops⟩))
    · exact Or.inl ⟨raised, fun both => fatal both.2, fun both => stops both.2,
        fun caught => caught.1 dfl, if_neg stops⟩
  rw [if_neg dfl]
  have caught : Caught task sig := ⟨dfl, ign⟩
  have activeSame : (consume self m sig).ctx.sigActive = m.ctx.sigActive := rfl
  rw [activeSame]
  cases active : m.ctx.sigActive with
  | true => exact Or.inr (Or.inr (Or.inr (Or.inl ⟨raised, caught, rfl, if_pos rfl⟩)))
  | false =>
    refine Or.inr (Or.inr (Or.inr (Or.inr ?_)))
    rw [if_neg Bool.false_ne_true]
    have espSame : (resetHand self (consume self m sig) sig).regs.userEsp = m.regs.userEsp := by
      rw [resetHandRegs]
      rfl
    rw [espSame]
    by_cases tramp : write SIGNAL_TRAMPOLINE_VA 7 = true
    swap
    · refine Or.inl ⟨raised, caught, rfl, fun both => tramp both.1, _, Or.inl rfl, ?_⟩
      rw [if_pos tramp]
    rw [if_neg (not_not.mpr tramp)]
    by_cases frame : write (m.regs.userEsp - 8) 8 = true
    · refine Or.inr ⟨raised, caught, rfl, ⟨tramp, frame⟩, ?_⟩
      rw [if_neg (not_not.mpr frame)]
      rfl
    · exact Or.inl ⟨raised, caught, rfl, fun both => frame both.2, _, Or.inr rfl,
        if_pos frame⟩

theorem scanKeeps {P : Machine → Prop}
    (turn : ∀ m sig, P m → P (visit write self m sig).machine)
    (sigs : List Nat) {m : Machine} (start : P m) :
    P (scan write self sigs m).2 := by
  induction sigs generalizing m with
  | nil => exact start
  | cons sig rest ih =>
    have kept := turn m sig start
    simp only [scan]
    cases looked : visit write self m sig with
    | pass after =>
      rw [looked] at kept
      exact ih kept
    | exit code after => rwa [looked] at kept
    | stop after => rwa [looked] at kept
    | enter after => rwa [looked] at kept

end Scepter.Deliver
