import Scepter.Kernel.Deliver

/-! The books of send_signal and do_signal over whole runs: what was made pending is
acted upon once, ignored or still pending; no return to user mode leaves an unblocked
fatal signal behind; SIGCONT outlives the stop signals sent before it. `Sound` is what
the code needs for that: a delivery that copy_to_user completes, no fatal signal
behind the point where the loop starts or behind the handler it starts, and no stop
signal waiting when SIGCONT is sent. -/
namespace Scepter.Deliver
open Scepter.Sched Scepter.Run

variable {write : BitVec 32 → Nat → Bool} {self : TaskId}

/-! ## What a send leaves -/

def Reaches (k : Kernel) (self : TaskId) (pid signum : Nat) : Prop :=
  1 ≤ signum ∧ signum < NSIG ∧ findTaskByPid k pid = some self
instance (k self pid signum) : Decidable (Reaches k self pid signum) := by
  unfold Reaches; infer_instance

theorem missedIff {k : Kernel} {pid signum : Nat} : ¬ Reaches k self pid signum ↔
    signum < 1 ∨ NSIG ≤ signum ∨ findTaskByPid k pid ≠ some self := by
  simp only [Reaches, not_and_or, Nat.not_le, Nat.not_lt, ne_eq]

def posted (task : Task) (signum : Nat) : Task :=
  let task := {task with pending := task.pending ||| (1#32 <<< signum)}
  if task.state = .stopped ∧ (signum = SIGCONT ∨ sigDefaultTerminates signum) then
    {task with
      state := .ready, stopSig := 0, stopReported := false
      continued := decide (signum = SIGCONT) || task.continued}
  else task

theorem postedPending (task : Task) (signum : Nat) :
    (posted task signum).pending = task.pending ||| (1#32 <<< signum) := by
  simp only [posted]
  split <;> rfl

theorem postedFields (task : Task) (signum : Nat) :
    (posted task signum).pid = task.pid ∧ (posted task signum).sigHandlers = task.sigHandlers := by
  simp only [posted]
  split <;> exact ⟨rfl, rfl⟩

theorem postedStopped {task : Task} {signum : Nat}
    (stopped : (posted task signum).state = .stopped) :
    task.state = .stopped ∧ signum ≠ SIGCONT := by
  simp only [posted] at stopped
  split at stopped <;> rename_i leaves
  · cases stopped
  · exact ⟨stopped, fun cont => leaves ⟨stopped, Or.inl cont⟩⟩

def postTo (k : Kernel) (t : TaskId) (signum : Nat) : Kernel :=
  let k := setPending k t signum
  if (k.task t).state = .stopped ∧ (signum = SIGCONT ∨ sigDefaultTerminates signum) then
    leaveStop k t (decide (signum = SIGCONT))
  else k

theorem postToTask (k : Kernel) (t u : TaskId) (signum : Nat) :
    (postTo k t signum).task u = if u = t then posted (k.task t) signum else k.task u := by
  have pendingSet : ∀ v, (setPending k t signum).task v = if v = t then
      {k.task t with pending := (k.task t).pending ||| (1#32 <<< signum)} else k.task v :=
    fun v => setTaskTask k t v _
  simp only [postTo, posted, pendingSet, if_true]
  split
  · rw [leaveStop, setTaskTask]
    simp only [pendingSet, if_true]
    split <;> rfl
  · exact pendingSet u

theorem wakeMaybe (k : Kernel) (wq : WaitQueue) (u : TaskId) (woken : Prop) [Decidable woken] :
    Rescheduled (k.task u) ((if woken then ((0 : Int), wakeUp k wq) else (0, k)).2.task u) := by
  split
  · exact wakeUpRescheduled k wq u
  · exact rescheduledRefl _

theorem sendSignalPosts {k : Kernel} {pid signum : Nat} {t : TaskId} (u : TaskId)
    (inRange : ¬ (signum < 1 ∨ NSIG ≤ signum)) (found : findTaskByPid k pid = some t) :
    Rescheduled ((postTo k t signum).task u) ((sendSignal k pid signum).2.task u) := by
  simp only [sendSignal, if_neg inRange, found, postTo]
  by_cases cont : signum = SIGCONT
  · rw [if_pos cont]
    simp only [cont, true_or, and_true, decide_true]
    split
    · split
      · exact wakeMaybe _ _ u _
      · exact rescheduledRefl _
    · exact wakeMaybe _ _ u _
  · rw [if_neg cont]
    simp only [cont, false_or, decide_false]
    exact wakeMaybe _ _ u _

theorem sendSignalPosted {k : Kernel} {pid signum : Nat} (reaches : Reaches k self pid signum) :
    Rescheduled (posted (k.task self) signum) ((sendSignal k pid signum).2.task self) := by
  obtain ⟨low, high, found⟩ := reaches
  have inRange : ¬ (signum < 1 ∨ NSIG ≤ signum) := by omega
  have posts := sendSignalPosts self inRange found
  rwa [postToTask, if_pos rfl] at posts

theorem sendSignalElsewhere {k : Kernel} {pid signum : Nat}
    (missed : ¬ Reaches k self pid signum) :
    Rescheduled (k.task self) ((sendSignal k pid signum).2.task self) := by
  by_cases outside : signum < 1 ∨ NSIG ≤ signum
  · simp only [sendSignal, if_pos outside]
    exact rescheduledRefl _
  cases found : findTaskByPid k pid with
  | none =>
    simp only [sendSignal, if_neg outside, found]
    exact rescheduledRefl _
  | some t =>
    have other : self ≠ t := by
      rintro rfl
      exact missed ⟨by omega, by omega, found⟩
    have posts := sendSignalPosts self outside found
    rwa [postToTask, if_neg other] at posts

/-! ## Made, settled, pending -/

def pend (task : Task) (sig : Nat) : Nat := (task.pending.getLsbD sig).toNat

def settled (history : History) (sig : Nat) : Nat :=
  history.deeds.countP fun entry => entry.1 = sig

def Counted (self : TaskId) (m : Machine) : Prop :=
  ∀ sig, m.history.made.count sig = settled m.history sig + pend (m.kernel.task self) sig

theorem countedFrame {m after : Machine} (counted : Counted self m)
    (history : after.history = m.history)
    (pending : (after.kernel.task self).pending = (m.kernel.task self).pending) :
    Counted self after := by
  intro sig
  rw [history, pend, pending]
  exact counted sig

theorem consumePending (m : Machine) {sig j : Nat} (small : j < NSIG) :
    ((consume self m sig).kernel.task self).pending.getLsbD j =
      if j = sig then false else (m.kernel.task self).pending.getLsbD j := by
  simp only [consume, setSelfTask]
  exact Bits.bitUnset _ sig small

theorem pendBeyond (task : Task) {sig : Nat} (beyond : ¬ sig < NSIG) : pend task sig = 0 := by
  have clear := BitVec.getLsbD_of_ge task.pending sig (Nat.le_of_not_lt beyond)
  rw [pend, clear, Bool.toNat_false]

theorem raisedValid {task : Task} {sig : Nat} (raised : Raised task sig) : sig < NSIG := by
  by_contra beyond
  have clear := BitVec.getLsbD_of_ge task.pending sig (Nat.le_of_not_lt beyond)
  exact absurd (clear.symm.trans raised.1) Bool.false_ne_true

theorem settledNote (m : Machine) (sig j : Nat) (deed : Deed) :
    settled (m.note sig deed).history j = settled m.history j + if j = sig then 1 else 0 := by
  simp [settled, Machine.note, List.countP_append, List.countP_cons, eq_comm]

theorem noteHistory {a b : Machine} (sig : Nat) (deed : Deed) (same : a.history = b.history) :
    (a.note sig deed).history = (b.note sig deed).history := by
  simp only [Machine.note, same]

theorem countedNote {m after : Machine} {sig : Nat} {deed : Deed} (counted : Counted self m)
    (raised : Raised (m.kernel.task self) sig) (history : after.history = (m.note sig deed).history)
    (pending : (after.kernel.task self).pending =
      ((consume self m sig).kernel.task self).pending) : Counted self after := by
  intro j
  have made : after.history.made = m.history.made := by rw [history]; rfl
  rw [made, history, settledNote, counted j]
  by_cases small : j < NSIG
  · rw [pend, pend, pending, consumePending m small]
    by_cases same : j = sig
    · subst same
      simp [raised.1]
    · simp [same]
  · have apart : j ≠ sig := fun same => small (same ▸ raisedValid raised)
    simp [pendBeyond _ small, apart]

theorem visitCounted {m : Machine} (sig : Nat) (counted : Counted self m) :
    Counted self (visit write self m sig).machine := by
  rcases visitCases write self m sig with ⟨-, out⟩ | ⟨raised, -, -, -, out⟩ | ⟨raised, -, out⟩ |
    ⟨raised, -, out⟩ | ⟨-, -, -, out⟩ | ⟨raised, -, -, -, after, dropped, out⟩ |
    ⟨raised, -, -, -, out⟩ <;> rw [out]
  · exact counted
  · exact countedNote counted raised rfl rfl
  · exact countedNote counted raised rfl (by simp [Visit.machine, Kernel.setState])
  · exact countedNote counted raised rfl (stopTaskSelf self _ sig).1
  · exact countedFrame counted rfl (by simp [Visit.machine])
  · have reset := resetHandPending self (consume self m sig) sig
    have same := noteHistory sig .lost (resetHandHistory self (consume self m sig) sig)
    rcases dropped with rfl | rfl
    · exact countedNote counted raised same reset
    · refine countedNote counted raised same ?_
      simpa [Visit.machine, unsave, saveContext] using reset
  · have reset := resetHandPending self (consume self m sig) sig
    have same := noteHistory sig .caught (resetHandHistory self (consume self m sig) sig)
    refine countedNote counted raised same ?_
    simpa [Visit.machine, started, enterHandler, saveContext] using reset

/-! ## Where the loop leads -/

def NoFatal (task : Task) : Prop := ∀ sig < NSIG, Raised task sig → ¬ Fatal task sig
instance (task) : Decidable (NoFatal task) := by unfold NoFatal; infer_instance

def NothingLost (m : Machine) : Prop := ∀ entry ∈ m.history.deeds, entry.2 ≠ .lost
instance (m) : Decidable (NothingLost m) := by unfold NothingLost; infer_instance

def Leads (self : TaskId) (m : Machine) (sig : Nat) : Prop :=
  Raised (m.kernel.task self) sig ∧
    (Fatal (m.kernel.task self) sig ∨ Stops (m.kernel.task self) sig ∨
      Caught (m.kernel.task self) sig ∧ m.ctx.sigActive = false)
instance (self m sig) : Decidable (Leads self m sig) := by unfold Leads; infer_instance

/-- What the signals `sigs` still to be looked at lead to is sound: the end of the loop with
no fatal signal behind its start, or a handler whose two copies succeed and whose sa_mask
holds back the fatal signals behind it. -/
def Clear (write : BitVec 32 → Nat → Bool) (self : TaskId) (sigs : List Nat) (m : Machine) : Prop :=
  match sigs.find? fun sig => Leads self m sig with
  | none => NoFatal (m.kernel.task self)
  | some sig => Caught (m.kernel.task self) sig → Writable write m.regs ∧
      ∀ fatal < NSIG, Raised (m.kernel.task self) fatal → Fatal (m.kernel.task self) fatal →
        (m.ctx.sigHmask sig).getLsbD fatal = true
instance (write self sigs m) : Decidable (Clear write self sigs m) := by
  unfold Clear; split <;> infer_instance

theorem fatalNotCaught {task : Task} {sig : Nat} (fatal : Fatal task sig) : ¬ Caught task sig :=
  fun caught => caught.1 fatal.1

theorem consumeRaised {m : Machine} {sig j : Nat} :
    Raised ((consume self m sig).kernel.task self) j ↔ j ≠ sig ∧ Raised (m.kernel.task self) j := by
  by_cases small : j < NSIG
  · have blocked : ((consume self m sig).kernel.task self).blocked =
        (m.kernel.task self).blocked := by simp [consume]
    simp only [Raised, consumePending m small, blocked]
    by_cases same : j = sig <;> simp [same]
  · exact ⟨fun raised => absurd (raisedValid raised) small,
      fun both => absurd (raisedValid both.2) small⟩

theorem consumeLeads {m : Machine} {sig : Nat} (harmless : ¬ Leads self m sig) (j : Nat) :
    Leads self (consume self m sig) j ↔ Leads self m j := by
  have handlers : ((consume self m sig).kernel.task self).sigHandlers =
      (m.kernel.task self).sigHandlers := by simp [consume]
  have ctx : (consume self m sig).ctx = m.ctx := rfl
  simp only [Leads, Fatal, Stops, Caught, consumeRaised, handlers, ctx]
  by_cases same : j = sig
  · subst same
    simpa [Leads, Fatal, Stops, Caught] using harmless
  · simp [same]

theorem consumeClear {sigs : List Nat} {m : Machine} {sig : Nat} (harmless : ¬ Leads self m sig)
    (clear : Clear write self sigs m) : Clear write self sigs (consume self m sig) := by
  have handlers : ((consume self m sig).kernel.task self).sigHandlers =
      (m.kernel.task self).sigHandlers := by simp [consume]
  have ctx : (consume self m sig).ctx = m.ctx := rfl
  have regs : (consume self m sig).regs = m.regs := rfl
  simp only [Clear, consumeLeads harmless, NoFatal, Fatal, Caught, consumeRaised, handlers, ctx,
    regs] at clear ⊢
  split at clear
  · exact fun fatal small raised => clear fatal small raised.2
  · exact fun caught => ⟨(clear caught).1, fun fatal small raised =>
      (clear caught).2 fatal small raised.2⟩

theorem noteClear {sigs : List Nat} {m : Machine} (sig : Nat) (deed : Deed)
    (clear : Clear write self sigs m) : Clear write self sigs (m.note sig deed) := clear

theorem clearRest {sigs : List Nat} {m : Machine} {sig : Nat} (harmless : ¬ Leads self m sig)
    (clear : Clear write self (sig :: sigs) m) : Clear write self sigs m := by
  simpa [Clear, harmless] using clear

theorem clearFirst {sigs : List Nat} {m : Machine} {sig : Nat} (leads : Leads self m sig)
    (caught : Caught (m.kernel.task self) sig) (clear : Clear write self (sig :: sigs) m) :
    Writable write m.regs ∧ ∀ fatal < NSIG, Raised (m.kernel.task self) fatal →
      Fatal (m.kernel.task self) fatal → (m.ctx.sigHmask sig).getLsbD fatal = true := by
  simp only [Clear, List.find?_cons, decide_eq_true leads] at clear
  exact clear caught

theorem startedNoFatal {m : Machine} {sig : Nat}
    (caught : Caught (m.kernel.task self) sig)
    (masked : ∀ fatal < NSIG, Raised (m.kernel.task self) fatal →
      Fatal (m.kernel.task self) fatal → (m.ctx.sigHmask sig).getLsbD fatal = true) :
    NoFatal ((started self m sig).kernel.task self) := by
  intro j small raised fatal
  generalize resetAt : resetHand self (consume self m sig) sig = reset at *
  have task : (started self m sig).kernel.task self =
      (saveContext self reset sig).kernel.task self := by rw [← resetAt]; rfl
  rw [task] at raised fatal
  have pending : (reset.kernel.task self).pending =
      ((consume self m sig).kernel.task self).pending := resetAt ▸ resetHandPending self _ sig
  have blocked : (reset.kernel.task self).blocked = (m.kernel.task self).blocked := by
    rw [← resetAt, resetHandBlocked]
    simp [consume]
  have ctx : reset.ctx = m.ctx := resetAt ▸ resetHandCtx self _ sig
  simp only [Raised, saveContext, setSelfTask, blocked, pending, ctx, consumePending m small] at raised
  have apart : j ≠ sig := by
    rintro rfl
    simp at raised
  have raisedBefore : Raised (m.kernel.task self) j := by
    simp only [if_neg apart, BitVec.getLsbD_or, Bool.or_eq_false_iff] at raised
    exact ⟨raised.1, raised.2.1⟩
  have handlerSame : ((saveContext self reset sig).kernel.task self).sigHandlers j =
      (m.kernel.task self).sigHandlers j := by
    rw [← resetAt]
    have kept := resetHandHandlers self (consume self m sig) sig apart
    simpa [saveContext, consume] using kept
  have fatalBefore : Fatal (m.kernel.task self) j := ⟨handlerSame ▸ fatal.1, fatal.2⟩
  have inMask := masked j small raisedBefore fatalBefore
  have notAdded : (m.ctx.sigHmask sig).getLsbD j = false := by
    have added := raised.2
    simp only [BitVec.getLsbD_or, Bool.or_eq_false_iff] at added
    have second := added.2
    split at second
    · simp only [BitVec.getLsbD_or, Bool.or_eq_false_iff] at second
      exact second.1
    · exact second
  exact absurd (notAdded.symm.trans inMask) Bool.false_ne_true

theorem nothingLostNote {m after : Machine} {sig : Nat} {deed : Deed} (kept : NothingLost m)
    (fine : deed ≠ .lost) (history : after.history = (m.note sig deed).history) :
    NothingLost after := by
  intro entry member
  rw [history] at member
  rcases List.mem_append.mp member with old | new
  · exact kept entry old
  · rw [List.mem_singleton.mp new]
    exact fine

theorem scanClear {sigs : List Nat} {m : Machine} (clear : Clear write self sigs m)
    (kept : NothingLost m) :
    NothingLost (scan write self sigs m).2 ∧
    ((scan write self sigs m).1 = .user →
      NoFatal ((scan write self sigs m).2.kernel.task self)) := by
  induction sigs generalizing m with
  | nil => exact ⟨kept, fun _ => clear⟩
  | cons sig rest ih =>
    simp only [scan]
    rcases visitCases write self m sig with ⟨quiet, out⟩ | ⟨-, notFatal, notStops, notCaught, out⟩ |
      ⟨-, -, out⟩ | ⟨-, -, out⟩ | ⟨raised, caught, busy, out⟩ |
      ⟨raised, caught, idle, unwritable, -⟩ | ⟨raised, caught, idle, -, out⟩
    · have harmless : ¬ Leads self m sig := fun leads => quiet leads.1
      rw [out]
      exact ih (clearRest harmless clear) kept
    · have harmless : ¬ Leads self m sig := by
        rintro ⟨-, fatal | stops | caught⟩
        · exact notFatal fatal
        · exact notStops stops
        · exact notCaught caught.1
      rw [out]
      exact ih (noteClear sig .ignored (consumeClear harmless (clearRest harmless clear)))
        (nothingLostNote kept (by decide) rfl)
    · rw [out]
      exact ⟨nothingLostNote kept (by decide) rfl, by rintro ⟨⟩⟩
    · rw [out]
      exact ⟨nothingLostNote kept (by decide) rfl, by rintro ⟨⟩⟩
    · have harmless : ¬ Leads self m sig := by
        rintro ⟨-, fatal | stops | both⟩
        · exact fatalNotCaught fatal caught
        · exact caught.1 stops.1
        · exact absurd (busy.symm.trans both.2) (by decide)
      have same : (consume self m sig).setSelf self (m.kernel.task self) = m := by
        simp [consume, Machine.setSelf, Kernel.setTask]
      rw [out, same]
      exact ih (clearRest harmless clear) kept
    · have leads : Leads self m sig := ⟨raised, Or.inr (Or.inr ⟨caught, idle⟩)⟩
      exact absurd (clearFirst leads caught clear).1 unwritable
    · have leads : Leads self m sig := ⟨raised, Or.inr (Or.inr ⟨caught, idle⟩)⟩
      rw [out]
      have history := noteHistory sig .caught (resetHandHistory self (consume self m sig) sig)
      exact ⟨nothingLostNote kept (by decide) history,
        fun _ => startedNoFatal caught (clearFirst leads caught clear).2⟩

/-! ## SIGCONT -/

def NoStopPending (task : Task) : Prop :=
  ∀ sig < NSIG, task.pending.getLsbD sig = true → ¬ Stops task sig
instance (task) : Decidable (NoStopPending task) := by unfold NoStopPending; infer_instance

def Continued (self : TaskId) (m : Machine) : Prop :=
  m.history.contLast = true →
    (m.kernel.task self).state ≠ .stopped ∧ NoStopPending (m.kernel.task self)

theorem continuedFrame {m after : Machine} (held : Continued self m)
    (last : after.history.contLast = m.history.contLast)
    (state : (after.kernel.task self).state = .stopped → (m.kernel.task self).state = .stopped)
    (pending : ∀ sig < NSIG, (after.kernel.task self).pending.getLsbD sig = true →
      (m.kernel.task self).pending.getLsbD sig = true ∧
      (Stops (after.kernel.task self) sig → Stops (m.kernel.task self) sig)) :
    Continued self after := by
  intro cont
  obtain ⟨notStopped, noStop⟩ := held (last ▸ cont)
  refine ⟨fun stopped => notStopped (state stopped), fun sig small isPending stops => ?_⟩
  obtain ⟨wasPending, stopsKept⟩ := pending sig small isPending
  exact noStop sig small wasPending (stopsKept stops)

theorem continuedRescheduled {m after : Machine} (held : Continued self m)
    (last : after.history.contLast = m.history.contLast)
    (same : Rescheduled (m.kernel.task self) (after.kernel.task self)) :
    Continued self after := by
  obtain ⟨state, fields, notNew⟩ := same
  refine continuedFrame held last ?_ ?_
  · rw [fields]
    exact notNew
  · intro sig small isPending
    rw [fields] at isPending ⊢
    exact ⟨isPending, id⟩

theorem consumeContinued {m : Machine} (sig : Nat) (held : Continued self m) :
    Continued self (consume self m sig) := by
  refine continuedFrame held rfl (fun stopped => by simpa [consume] using stopped) ?_
  intro j small isPending
  rw [consumePending m small] at isPending
  split at isPending
  · cases isPending
  · exact ⟨isPending, fun stops => by simpa [Stops, consume] using stops⟩

theorem resetHandContinued {m : Machine} (sig : Nat) (held : Continued self m) :
    Continued self (resetHand self (consume self m sig) sig) := by
  refine continuedFrame (consumeContinued sig held) (by rw [resetHandHistory]) ?_ ?_
  · unfold resetHand
    split
    · intro stopped
      simpa using stopped
    · exact id
  · intro j small isPending
    rw [resetHandPending] at isPending
    have apart : j ≠ sig := by
      rintro rfl
      rw [consumePending m small, if_pos rfl] at isPending
      cases isPending
    exact ⟨isPending, fun stops => ⟨resetHandHandlers self _ sig apart ▸ stops.1, stops.2⟩⟩

theorem saveContextContinued {m : Machine} (sig : Nat) (held : Continued self m) :
    Continued self (saveContext self m sig) := by
  refine continuedFrame held rfl (fun stopped => by simpa [saveContext] using stopped) ?_
  intro j small isPending
  exact ⟨by simpa [saveContext] using isPending,
    fun stops => by simpa [Stops, saveContext] using stops⟩

theorem unsaveContinued {m : Machine} (old : BitVec 32) (held : Continued self m) :
    Continued self (unsave self m old) := by
  refine continuedFrame held rfl (fun stopped => by simpa [unsave] using stopped) ?_
  intro j small isPending
  exact ⟨by simpa [unsave] using isPending, fun stops => by simpa [Stops, unsave] using stops⟩

theorem visitContinued {m : Machine} (sig : Nat) (held : Continued self m) :
    Continued self (visit write self m sig).machine := by
  rcases visitCases write self m sig with ⟨-, out⟩ | ⟨-, -, -, -, out⟩ | ⟨-, -, out⟩ |
    ⟨raised, stops, out⟩ | ⟨-, -, -, out⟩ | ⟨-, -, -, -, after, dropped, out⟩ | ⟨-, -, -, -, out⟩ <;>
    rw [out]
  · exact held
  · exact consumeContinued sig held
  · exact continuedRescheduled (consumeContinued sig held) rfl
      (setStateRescheduled _ self self (by decide))
  · intro cont
    exact absurd stops ((held cont).2 sig (raisedValid raised) raised.1)
  · refine continuedFrame held rfl (fun stopped => by simpa [Visit.machine] using stopped) ?_
    exact fun j _ isPending => ⟨by simpa [Visit.machine] using isPending,
      fun stops => by simpa [Visit.machine] using stops⟩
  · rcases dropped with rfl | rfl
    · exact resetHandContinued sig held
    · exact unsaveContinued _ (saveContextContinued sig (resetHandContinued sig held))
  · exact saveContextContinued sig (resetHandContinued sig held)

/-! ## Whole runs -/

structure Kept (t : TaskId) (m : Machine) : Prop where
  pid : (m.kernel.task t).pid ≠ 0
  counted : Counted t m
  nothingLost : NothingLost m
  continued : Continued t m

structure Fresh (t : TaskId) (s : System) : Prop where
  pid : (s.machine.kernel.task t).pid ≠ 0
  pending : (s.machine.kernel.task t).pending = 0
  history : s.machine.history = ⟨[], [], false⟩

def allSignals : List Nat := List.range' 1 (NSIG - 1)

def Sound (self : TaskId) (s : System) : Act → Prop
  | .send pid signum => signum = SIGCONT → Reaches s.machine.kernel self pid signum →
      NoStopPending (s.machine.kernel.task self)
  | .sigaction signum handler _ _ => s.machine.history.contLast = true → handler = SIG_DFL →
      sigDefaultStops signum = true →
      (s.machine.kernel.task self).pending.getLsbD signum = false
  | .leave write _ => Clear write self allSignals s.machine
  | .sigreturn write => Clear write self allSignals (sysSigreturn self s.machine).2
  | .resume write => match s.mode with
    | .parked rest => Clear write self rest s.machine
    | _ => True
  | _ => True
instance (self s a) : Decidable (Sound self s a) := by
  unfold Sound; split <;> try split
  all_goals infer_instance

theorem freshKept {s : System} (fresh : Fresh self s) : Kept self s.machine := by
  obtain ⟨pid, pending, history⟩ := fresh
  refine ⟨pid, fun sig => ?_, ?_, ?_⟩
  · simp [history, settled, pend, pending]
  · simp [NothingLost, history]
  · intro cont
    rw [history] at cont
    cases cont

theorem visitPid (m : Machine) (sig : Nat) :
    ((visit write self m sig).machine.kernel.task self).pid = (m.kernel.task self).pid := by
  have reset : ((resetHand self (consume self m sig) sig).kernel.task self).pid =
      (m.kernel.task self).pid := by
    unfold resetHand
    split <;> simp [consume]
  rcases visitCases write self m sig with ⟨-, out⟩ | ⟨-, -, -, -, out⟩ | ⟨-, -, out⟩ |
    ⟨-, -, out⟩ | ⟨-, -, -, out⟩ | ⟨-, -, -, -, after, dropped, out⟩ | ⟨-, -, -, -, out⟩ <;> rw [out]
  · rfl
  · simp [Visit.machine, consume]
  · simp [Visit.machine, consume]
  · simpa [Visit.machine, consume] using (stopTaskSelf self (consume self m sig).kernel sig).2.2.2
  · simp [Visit.machine]
  · rcases dropped with rfl | rfl
    · exact reset
    · simpa [Visit.machine, unsave, saveContext] using reset
  · simpa [Visit.machine, started, enterHandler, saveContext] using reset

theorem scanKept {sigs : List Nat} {m : Machine} (kept : Kept self m)
    (clear : Clear write self sigs m) : Kept self (scan write self sigs m).2 where
  pid := by
    have same : ((scan write self sigs m).2.kernel.task self).pid = (m.kernel.task self).pid :=
      scanKeeps (P := fun after => (after.kernel.task self).pid = (m.kernel.task self).pid)
        (fun after sig held => (visitPid after sig).trans held) sigs rfl
    exact same ▸ kept.pid
  counted := scanKeeps (fun _ sig => visitCounted sig) sigs kept.counted
  nothingLost := (scanClear clear kept.nothingLost).1
  continued := scanKeeps (fun _ sig => visitContinued sig) sigs kept.continued

theorem doSignalKept {m : Machine} (kept : Kept self m) (clear : Clear write self allSignals m) :
    Kept self (doSignal write self m).2 ∧ ((doSignal write self m).1 = .user →
      NoFatal ((doSignal write self m).2.kernel.task self)) := by
  unfold doSignal
  split
  · rename_i nothing
    refine ⟨kept, fun _ sig small raised => ?_⟩
    have none : (m.kernel.task self).pending = 0 := nothing.resolve_left kept.pid
    have bit := raised.1
    simp [none] at bit
  · exact ⟨scanKept kept clear, (scanClear clear kept.nothingLost).2⟩

theorem keptRescheduled {m after : Machine} (kept : Kept self m)
    (history : after.history = m.history)
    (same : Rescheduled (m.kernel.task self) (after.kernel.task self)) : Kept self after := by
  have continued := continuedRescheduled kept.continued (by rw [history]) same
  obtain ⟨state, fields, -⟩ := same
  refine ⟨?_, countedFrame kept.counted history (by rw [fields]), ?_, continued⟩
  · rw [fields]
    exact kept.pid
  · rw [NothingLost, history]
    exact kept.nothingLost

theorem sigactionKept {m : Machine} {signum : Nat} {handler mask flags : BitVec 32}
    (kept : Kept self m)
    (sound : m.history.contLast = true → handler = SIG_DFL → sigDefaultStops signum = true →
      (m.kernel.task self).pending.getLsbD signum = false) :
    Kept self (sysSigaction self m signum handler mask flags) := by
  unfold sysSigaction
  split
  · exact kept
  refine ⟨by simpa using kept.pid, countedFrame kept.counted rfl (by simp),
    kept.nothingLost, fun cont => ?_⟩
  obtain ⟨notStopped, noStop⟩ := kept.continued cont
  refine ⟨by simpa using notStopped, fun sig small isPending stops => ?_⟩
  simp only [setSelfTask] at isPending
  by_cases same : sig = signum
  · subst same
    have dfl : handler = SIG_DFL := by simpa [Stops] using stops.1
    exact absurd (isPending.symm.trans (sound cont dfl stops.2)) (by decide)
  · exact noStop sig small isPending (by simpa [Stops, same] using stops)

theorem blockedKept {m : Machine} (blocked : BitVec 32) (kept : Kept self m) :
    Kept self (m.setSelf self {m.kernel.task self with blocked := blocked}) := by
  refine ⟨by simpa using kept.pid, countedFrame kept.counted rfl (by simp), kept.nothingLost, ?_⟩
  refine continuedFrame kept.continued rfl (fun stopped => by simpa using stopped) ?_
  exact fun j _ isPending => ⟨by simpa using isPending, fun stops => by simpa [Stops] using stops⟩

theorem sendMissed {m : Machine} {pid signum : Nat} (missed : ¬ Reaches m.kernel self pid signum)
    (kept : Kept self m) : Kept self (send self m pid signum) := by
  simp only [send, if_pos (missedIff.mp missed)]
  exact keptRescheduled kept rfl (sendSignalElsewhere missed)

theorem sendCounted {m : Machine} {signum : Nat} {made : List Nat} {after : Machine}
    (counted : Counted self m) (valid : signum < NSIG)
    (deeds : after.history.deeds = m.history.deeds) (history : after.history.made = made)
    (wrote : made = if (m.kernel.task self).pending.getLsbD signum then m.history.made
      else m.history.made ++ [signum])
    (pending : (after.kernel.task self).pending =
      (m.kernel.task self).pending ||| (1#32 <<< signum)) : Counted self after := by
  intro sig
  have before := counted sig
  rw [history, settled, deeds, pend, pending, wrote]
  rw [settled, pend] at before
  by_cases small : sig < NSIG
  · rw [Bits.bitSet _ _ (show sig < 32 from small)]
    by_cases same : sig = signum
    · subst same
      cases bit : (m.kernel.task self).pending.getLsbD sig <;> simp [bit] at before ⊢ <;> omega
    · have apart : ¬ signum = sig := fun h => same h.symm
      simp only [if_neg same]
      split
      · exact before
      · simp [List.count_append, apart, before]
  · have apart : ¬ signum = sig := fun h => small (h ▸ valid)
    have clear := BitVec.getLsbD_of_ge
      ((m.kernel.task self).pending ||| (1#32 <<< signum)) sig (Nat.le_of_not_lt small)
    have clearBefore := BitVec.getLsbD_of_ge (m.kernel.task self).pending sig
      (Nat.le_of_not_lt small)
    rw [clear]
    rw [clearBefore] at before
    split
    · exact before
    · simp [List.count_append, apart, before]

theorem sendReached {m : Machine} {pid signum : Nat} (reaches : Reaches m.kernel self pid signum)
    (sound : signum = SIGCONT → NoStopPending (m.kernel.task self)) (kept : Kept self m) :
    Kept self (send self m pid signum) := by
  obtain ⟨state, fields, notNew⟩ := sendSignalPosted reaches
  simp only [send, if_neg fun outside => missedIff.mpr outside reaches]
  have pending := postedPending (m.kernel.task self) signum
  obtain ⟨pidSame, handlersSame⟩ := postedFields (m.kernel.task self) signum
  refine ⟨?_, ?_, kept.nothingLost, ?_⟩
  · simp only [fields, pidSame]
    exact kept.pid
  · exact sendCounted kept.counted reaches.2.1 rfl rfl rfl (by simp only [fields, pending])
  · intro cont
    simp only at cont
    have notStop : sigDefaultStops signum = false := by
      by_contra stops
      simp only [Bool.not_eq_false] at stops
      by_cases isCont : signum = SIGCONT
      · subst isCont
        exact absurd stops (by decide)
      · simp [isCont, stops] at cont
    have before : signum = SIGCONT ∨
        (m.kernel.task self).state ≠ .stopped ∧ NoStopPending (m.kernel.task self) := by
      by_cases isCont : signum = SIGCONT
      · exact Or.inl isCont
      · simp only [if_neg isCont, notStop] at cont
        exact Or.inr (kept.continued cont)
    have noStop : NoStopPending (m.kernel.task self) := before.elim sound And.right
    simp only [fields]
    refine ⟨fun stopped => ?_, fun sig small isPending stops => ?_⟩
    · obtain ⟨wasStopped, notCont⟩ := postedStopped (notNew stopped)
      exact before.elim notCont fun both => both.1 wasStopped
    · rw [pending, Bits.bitSet _ _ (show sig < 32 from small)] at isPending
      have apart : sig ≠ signum := by
        rintro rfl
        exact absurd (notStop.symm.trans stops.2) (by decide)
      rw [if_neg apart] at isPending
      exact noStop sig small isPending ⟨handlersSame ▸ stops.1, stops.2⟩

theorem stepKept {s s' : System} {a : Act} (kept : Kept self s.machine) (sound : Sound self s a)
    (stepped : step self s a = some s') :
    Kept self s'.machine ∧
    (s.mode ≠ .user → s'.mode = .user → NoFatal (s'.machine.kernel.task self)) := by
  cases a with
  | trap regs =>
    simp only [step] at stepped
    split at stepped <;> try contradiction
    cases stepped
    exact ⟨keptRescheduled kept rfl (rescheduledRefl _), fun _ user => by cases user⟩
  | sigaction signum handler mask flags =>
    simp only [step] at stepped
    split at stepped <;> try contradiction
    rename_i inside
    cases stepped
    exact ⟨sigactionKept kept sound, fun other user => absurd user other⟩
  | sigprocmask how new =>
    simp only [step] at stepped
    split at stepped <;> try contradiction
    cases stepped
    exact ⟨blockedKept _ kept, fun other user => absurd user other⟩
  | sleep wq =>
    simp only [step] at stepped
    split at stepped <;> try contradiction
    cases stepped
    exact ⟨keptRescheduled kept rfl (sleepOnRescheduled _ wq self),
      fun other user => absurd user other⟩
  | leave write ret =>
    simp only [step] at stepped
    split at stepped <;> try contradiction
    cases stepped
    have afterRet : Kept self (returned s.machine ret) :=
      keptRescheduled kept rfl (rescheduledRefl _)
    have clear : Clear write self allSignals s.machine := sound
    obtain ⟨keptAfter, noFatal⟩ := doSignalKept afterRet clear
    exact ⟨keptAfter, fun _ user => noFatal user⟩
  | sigreturn write =>
    simp only [step] at stepped
    split at stepped <;> try contradiction
    cases stepped
    have afterReturn : Kept self (sysSigreturn self s.machine).2 := by
      unfold sysSigreturn
      split
      · exact kept
      · have restored := blockedKept s.machine.ctx.sigSavedBlocked kept
        exact keptRescheduled restored rfl (rescheduledRefl _)
    have afterRet : Kept self (returned (sysSigreturn self s.machine).2
        (BitVec.ofInt 32 (sysSigreturn self s.machine).1)) :=
      keptRescheduled afterReturn rfl (rescheduledRefl _)
    have clear : Clear write self allSignals (sysSigreturn self s.machine).2 := sound
    obtain ⟨keptAfter, noFatal⟩ := doSignalKept afterRet clear
    exact ⟨keptAfter, fun _ user => noFatal user⟩
  | resume write =>
    simp only [step] at stepped
    split at stepped <;> try contradiction
    rename_i rest parked
    split at stepped <;> try contradiction
    cases stepped
    simp only [Sound, parked] at sound
    exact ⟨scanKept kept sound, fun _ user => (scanClear sound kept.nothingLost).2 user⟩
  | send pid signum =>
    cases stepped
    refine ⟨?_, fun other user => absurd user other⟩
    by_cases reaches : Reaches s.machine.kernel self pid signum
    · exact sendReached reaches (fun cont => sound cont reaches) kept
    · exact sendMissed reaches kept
  | others k state =>
    simp only [step] at stepped
    split at stepped <;> try contradiction
    rename_i stopped
    cases stepped
    refine ⟨keptRescheduled kept rfl ⟨state, ?_, stopped.mp⟩, fun other user => absurd user other⟩
    simp

theorem runKept {start s : System} {acts : List Act} (fresh : Fresh self start)
    (sound : Meets (step self) (Sound self) start acts)
    (ran : run (step self) start acts = some s) : Kept self s.machine :=
  invariantMeets (P := fun t => Kept self t.machine)
    (fun _ _ _ kept sound stepped => (stepKept kept sound stepped).1) (freshKept fresh) sound ran

def acted (history : History) (sig : Nat) : Nat :=
  history.deeds.countP fun entry =>
    entry.1 = sig ∧ (entry.2 = .killed ∨ entry.2 = .stopped ∨ entry.2 = .caught)

def ignored (history : History) (sig : Nat) : Nat :=
  history.deeds.countP fun entry => entry.1 = sig ∧ entry.2 = .ignored

theorem settledSplit {m : Machine} (kept : NothingLost m) (sig : Nat) :
    settled m.history sig = acted m.history sig + ignored m.history sig := by
  simp only [settled, acted, ignored, NothingLost] at kept ⊢
  generalize m.history.deeds = deeds at kept ⊢
  induction deeds with
  | nil => rfl
  | cons entry rest ih =>
    have later := ih fun e member => kept e (List.mem_cons_of_mem entry member)
    have first := kept entry List.mem_cons_self
    obtain ⟨number, deed⟩ := entry
    simp only [List.countP_cons, later]
    cases deed with
    | lost => exact absurd rfl first
    | killed | stopped | caught => by_cases same : number = sig <;> simp [same]; omega
    | ignored => by_cases same : number = sig <;> simp [same]; omega

def Accounted (self : TaskId) (m : Machine) : Prop :=
  ∀ sig < NSIG, m.history.made.count sig =
    acted m.history sig + ignored m.history sig + pend (m.kernel.task self) sig
instance (self m) : Decidable (Accounted self m) := by unfold Accounted; infer_instance

theorem signalsAccounted {start s s' : System} {acts : List Act} {a : Act}
    (fresh : Fresh self start) (sound : Meets (step self) (Sound self) start acts)
    (ran : run (step self) start acts = some s) (soundLast : Sound self s a)
    (stepped : step self s a = some s') :
    Accounted self s'.machine ∧
    (s.mode ≠ .user → s'.mode = .user → NoFatal (s'.machine.kernel.task self)) ∧
    (s'.machine.history.contLast = true → (s'.machine.kernel.task self).state ≠ .stopped) := by
  obtain ⟨kept, noFatal⟩ := stepKept (runKept fresh sound ran) soundLast stepped
  refine ⟨fun sig _ => ?_, noFatal, fun cont => (kept.continued cont).1⟩
  rw [kept.counted sig, settledSplit kept.nothingLost sig]

def userRegs : Registers where
  edi := 0
  esi := 0
  ebp := 0xBFFFF100
  ebx := 0
  edx := 0
  ecx := 0
  eax := 20
  gs := 0x23
  fs := 0x23
  es := 0x23
  ds := 0x23
  eip := 0x8048100
  cs := 0x1B
  eflags := 0x202
  userEsp := 0xBFFFF000
  ss := 0x23

def quiet : System where
  machine := {
    kernel := {
      task := fun t => {
        pid := t, ppid := 0, priority := 0, state := .running, pending := 0, blocked := 0
        sigHandlers := fun sig => if sig = 10 then 0x8048000 else SIG_DFL
        stopSig := 0, stopReported := false, continued := false }
      taskList := [0, 1], current := 1, queue := fun _ => [] }
    ctx := {
      sigHmask := fun _ => 0, sigHflags := fun _ => 0, sigActive := false, sigDelivered := 0
      sigSavedEip := 0, sigSavedEsp := 0, sigSavedEflags := 0, sigSavedBlocked := 0 }
    regs := userRegs
    history := ⟨[], [], false⟩ }
  mode := .user

def mapped (_ : BitVec 32) (_ : Nat) : Bool := true
def unmapped (_ : BitVec 32) (_ : Nat) : Bool := false

def calledBy (signum : Nat) : Machine := send 1 quiet.machine 1 signum

theorem handlerAccounted :
    Accounted 1 (doSignal mapped 1 (returned (calledBy 10) 1)).2 ∧
    (Mode.kernel ≠ .user → (doSignal mapped 1 (returned (calledBy 10) 1)).1 = .user →
      NoFatal ((doSignal mapped 1 (returned (calledBy 10) 1)).2.kernel.task 1)) ∧
    ((doSignal mapped 1 (returned (calledBy 10) 1)).2.history.contLast = true →
      ((doSignal mapped 1 (returned (calledBy 10) 1)).2.kernel.task 1).state ≠ .stopped) :=
  @signalsAccounted 1 quiet ⟨calledBy 10, .kernel⟩
    (settle (doSignal mapped 1 (returned (calledBy 10) 1)))
    [.trap userRegs, .send 1 10] (.leave mapped 1)
    ⟨by decide, rfl, rfl⟩ (by decide) rfl (by decide) rfl

/-- A handler whose frame cannot be written; SIGKILL sent to a task that SIGSTOP has stopped;
SIGTSTP and SIGCONT sent before do_signal looks at either. -/
theorem signalsGoAstray :
    ((run (step 1) quiet [.trap userRegs, .send 1 10, .leave unmapped 1]).map
      fun s => decide (Accounted 1 s.machine)) = some false ∧
    ((run (step 1) quiet [.trap userRegs, .send 1 19, .leave mapped 1, .send 1 9,
        .others quiet.machine.kernel .running, .resume mapped]).map
      fun s => (s.mode, decide (NoFatal (s.machine.kernel.task 1)))) = some (.user, false) ∧
    ((run (step 1) quiet [.trap userRegs, .send 1 20, .send 1 18, .leave mapped 1]).map
      fun s => (s.machine.history.contLast, (s.machine.kernel.task 1).state)) =
        some (true, .stopped) := by
  decide

end Scepter.Deliver
