import Scepter.Kernel.SignalBooks

/-! SIGKILL and SIGSTOP over whole runs (kernel/signal.c): they keep their default action, and
nothing but the mask that a sigaction brings for its handler can block them. -/
namespace Scepter.Deliver
open Scepter.Sched Scepter.Run

variable {write : BitVec 32 → Nat → Bool} {self : TaskId} {sig : Nat} {plain : Prop}

def Sacred (sig : Nat) : Prop := sig = SIGKILL ∨ sig = SIGSTOP

/- `plain`: no handler has come with a mask that names `sig`. -/
structure Never (t : TaskId) (sig : Nat) (plain : Prop) (m : Machine) : Prop where
  handler : (m.kernel.task t).sigHandlers sig = SIG_DFL
  blocked : plain → (m.kernel.task t).blocked.getLsbD sig = false
  saved : plain → m.ctx.sigSavedBlocked.getLsbD sig = false
  masks : plain → ∀ n, (m.ctx.sigHmask n).getLsbD sig = false

def Brings (sig : Nat) : Act → Prop
  | .sigaction _ _ mask _ => mask.getLsbD sig = true
  | _ => False

theorem neverFrame {m after : Machine} (never : Never self sig plain m)
    (handlers : (after.kernel.task self).sigHandlers = (m.kernel.task self).sigHandlers)
    (blocked : (after.kernel.task self).blocked = (m.kernel.task self).blocked)
    (ctx : after.ctx = m.ctx) : Never self sig plain after where
  handler := handlers ▸ never.handler
  blocked := blocked ▸ never.blocked
  saved := ctx ▸ never.saved
  masks := ctx ▸ never.masks

theorem neverRescheduled {m after : Machine} (never : Never self sig plain m)
    (ctx : after.ctx = m.ctx) (same : Rescheduled (m.kernel.task self) (after.kernel.task self)) :
    Never self sig plain after := by
  obtain ⟨state, fields, -⟩ := same
  exact neverFrame never (by rw [fields]) (by rw [fields]) ctx

theorem neverSetBlocked {m : Machine} (never : Never self sig plain m) {set : BitVec 32}
    (open' : plain → set.getLsbD sig = false) :
    Never self sig plain (m.setSelf self {m.kernel.task self with blocked := set}) where
  handler := by simpa using never.handler
  blocked := by simpa using open'
  saved := never.saved
  masks := never.masks

theorem neverReset {m : Machine} (never : Never self sig plain m) (other : Nat) :
    Never self sig plain (resetHand self m other) := by
  unfold resetHand
  split
  · refine ⟨?_, by simpa using never.blocked, never.saved, never.masks⟩
    by_cases same : sig = other
    · simp [same]
    · simpa [Function.update_of_ne same] using never.handler
  · exact never

theorem neverSave {m : Machine} (never : Never self sig plain m) {other : Nat}
    (apart : sig ≠ other) : Never self sig plain (saveContext self m other) where
  handler := by simpa [saveContext] using never.handler
  blocked clean := by
    have bit : (1#32 <<< other).getLsbD sig = false := by
      by_cases below : sig < other
      · simp [below]
      · simp [show sig - other ≠ 0 by omega]
    have mask := never.masks clean other
    simp only [saveContext]
    split <;> simp [never.blocked clean, mask, bit]
  saved := never.blocked
  masks := never.masks

theorem visitNever (m : Machine) (other : Nat) (never : Never self sig plain m) :
    Never self sig plain (visit write self m other).machine := by
  have consumed : Never self sig plain (consume self m other) :=
    neverFrame never (by simp [consume]) (by simp [consume]) rfl
  rcases visitCases write self m other with ⟨-, out⟩ | ⟨-, -, -, -, out⟩ | ⟨-, -, out⟩ |
    ⟨-, -, out⟩ | ⟨-, -, -, out⟩ | ⟨-, caught, -, -, after, dropped, out⟩ | ⟨-, caught, -, -, out⟩
  all_goals rw [out]
  · exact never
  · exact neverFrame consumed rfl rfl rfl
  · exact neverRescheduled consumed rfl (setStateRescheduled _ self self (by decide))
  · obtain ⟨-, blocked, handlers, -⟩ := stopTaskSelf self (consume self m other).kernel other
    exact neverFrame consumed handlers blocked rfl
  · exact neverFrame never (by simp [Visit.machine]) (by simp [Visit.machine]) rfl
  all_goals
    have apart : sig ≠ other := fun same => caught.1 (same ▸ never.handler)
    have reset := neverReset consumed other
  · rcases dropped with rfl | rfl
    · exact neverFrame reset rfl rfl rfl
    · have restored := neverSetBlocked (neverSave reset apart) never.blocked
      exact ⟨restored.handler, restored.blocked, restored.saved, restored.masks⟩
  · exact neverFrame (neverSave reset apart) rfl rfl rfl

theorem doSignalNever {m : Machine} (never : Never self sig plain m) :
    Never self sig plain (doSignal write self m).2 := by
  unfold doSignal
  split
  · exact never
  · exact scanKeeps (fun m other => visitNever m other) _ never

theorem sigactionNever {m : Machine} {signum : Nat} {handler mask flags : BitVec 32}
    (sacred : Sacred sig) (never : Never self sig plain m)
    (clean : plain → ¬ mask.getLsbD sig = true) :
    Never self sig plain (sysSigaction self m signum handler mask flags) := by
  unfold sysSigaction
  split
  · exact never
  next valid =>
    have apart : sig ≠ signum := by
      rintro rfl
      exact valid (Or.inr (Or.inr sacred))
    refine ⟨?_, by simpa using never.blocked, never.saved, fun holds n => ?_⟩
    · simpa [Function.update_of_ne apart] using never.handler
    · dsimp only
      by_cases same : n = signum
      · rw [same, Function.update_self]
        exact Bool.eq_false_iff.mpr (clean holds)
      · rw [Function.update_of_ne same]
        exact never.masks holds n

theorem stepNever {s s' : System} {a : Act} (sacred : Sacred sig)
    (never : Never self sig plain s.machine) (clean : plain → ¬ Brings sig a)
    (stepped : step self s a = some s') : Never self sig plain s'.machine := by
  cases a with
  | send pid signum =>
    cases stepped
    by_cases reaches : Reaches s.machine.kernel self pid signum
    · obtain ⟨state, fields, -⟩ := sendSignalPosted reaches
      have blocked : (posted (s.machine.kernel.task self) signum).blocked =
          (s.machine.kernel.task self).blocked := by
        simp only [posted]
        split <;> rfl
      have inside := mt missedIff.mpr (not_not.mpr reaches)
      simp only [send, if_neg inside]
      refine neverFrame never ?_ ?_ rfl
      · exact (congrArg Task.sigHandlers fields).trans (postedFields _ signum).2
      · exact (congrArg Task.blocked fields).trans blocked
    · simp only [send, if_pos (missedIff.mp reaches)]
      exact neverRescheduled never rfl (sendSignalElsewhere reaches)
  | resume write =>
    simp only [step] at stepped
    split at stepped <;> try contradiction
    split at stepped <;> try contradiction
    cases stepped
    exact scanKeeps (fun m other => visitNever m other) _ never
  | trap regs =>
    simp only [step] at stepped
    split at stepped <;> try contradiction
    cases stepped
    exact neverFrame never rfl rfl rfl
  | sigaction signum handler mask flags =>
    simp only [step] at stepped
    split at stepped <;> try contradiction
    cases stepped
    exact sigactionNever sacred never clean
  | sigprocmask how new =>
    simp only [step] at stepped
    split at stepped <;> try contradiction
    cases stepped
    refine neverSetBlocked never fun holds => ?_
    have kept := never.blocked holds
    have bit : ((1#32 <<< SIGKILL) ||| (1#32 <<< SIGSTOP)).getLsbD sig = true := by
      rcases sacred with rfl | rfl <;> decide
    cases how <;> simp [kept, bit]
  | sleep wq =>
    simp only [step] at stepped
    split at stepped <;> try contradiction
    cases stepped
    exact neverRescheduled never rfl (sleepOnRescheduled _ wq self)
  | leave write ret =>
    simp only [step] at stepped
    split at stepped <;> try contradiction
    cases stepped
    exact doSignalNever (neverFrame never rfl rfl rfl)
  | sigreturn write =>
    simp only [step] at stepped
    split at stepped <;> try contradiction
    cases stepped
    refine doSignalNever ?_
    unfold sysSigreturn
    split
    · exact neverFrame never rfl rfl rfl
    · have restored := neverSetBlocked never never.saved
      exact ⟨restored.handler, restored.blocked, restored.saved, restored.masks⟩
  | others k state =>
    simp only [step] at stepped
    split at stepped <;> try contradiction
    cases stepped
    exact neverFrame never (by simp) (by simp) rfl

/-- In every run SIGKILL and SIGSTOP keep their default action, and they are not blocked as
long as no sigaction names them in the mask of its handler, which is all that may. -/
theorem sacredNeverBlocked {start s : System} {acts : List Act} (sacred : Sacred sig)
    (fresh : Never self sig True start.machine) (ran : run (step self) start acts = some s) :
    (s.machine.kernel.task self).sigHandlers sig = SIG_DFL ∧
    ((∀ a ∈ acts, ¬ Brings sig a) →
      (s.machine.kernel.task self).blocked.getLsbD sig = false) := by
  have kept : ∀ plain : Prop, (plain → ∀ a ∈ acts, ¬ Brings sig a) →
      Never self sig plain s.machine := fun plain clean =>
    invariantMeets (P := fun s => Never self sig plain s.machine)
      (fun _ _ _ never clean stepped => stepNever sacred never clean stepped)
      ⟨fresh.handler, fun _ => fresh.blocked trivial, fun _ => fresh.saved trivial,
        fun _ => fresh.masks trivial⟩
      (meetsEach (fun a member holds => clean holds a member) start) ran
  exact ⟨(kept False fun none => none.elim).handler, fun clean =>
    (kept True fun _ => clean).blocked trivial⟩

theorem sacredNeverBlockedSent : ∃ s, run (step 1) quiet [.trap userRegs,
      .sigaction 10 0x8048000 4 0, .send 1 10, .leave mapped 1] = some s ∧
    (s.machine.kernel.task 1).sigHandlers 9 = SIG_DFL ∧
    ((∀ a ∈ [Act.trap userRegs, .sigaction 10 0x8048000 4 0, .send 1 10, .leave mapped 1],
        ¬ Brings 9 a) → (s.machine.kernel.task 1).blocked.getLsbD 9 = false) :=
  ⟨_, rfl, @sacredNeverBlocked 1 9 quiet _ _ (Or.inl rfl)
    ⟨rfl, fun _ => rfl, fun _ => rfl, fun _ _ => by simp [quiet]⟩ rfl⟩

end Scepter.Deliver
