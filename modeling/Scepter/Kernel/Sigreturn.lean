import Scepter.Kernel.Deliver

/-! What sys_sigreturn gives back. The task keeps eip, esp, eflags and the mask of
the interrupted context and no other register, so the rest of the frame is the
handler's own and eax is 0. A second handler does not start before sigreturn. -/
namespace Scepter.Deliver
open Scepter.Sched Scepter.Run

variable {write : BitVec 32 → Nat → Bool} {self : TaskId}

structure Saved (t : TaskId) (before m : Machine) : Prop where
  active : m.ctx.sigActive = true
  eip : m.ctx.sigSavedEip = before.regs.eip
  esp : m.ctx.sigSavedEsp = before.regs.userEsp
  eflags : m.ctx.sigSavedEflags = before.regs.eflags
  blocked : m.ctx.sigSavedBlocked = (before.kernel.task t).blocked

theorem savedFrame {before m after : Machine} (saved : Saved self before m)
    (same : after.ctx = m.ctx) : Saved self before after := by
  obtain ⟨active, eip, esp, eflags, blocked⟩ := saved
  rw [← same] at active eip esp eflags blocked
  exact ⟨active, eip, esp, eflags, blocked⟩

/-! ## From the interrupted context to the handler -/

def Interrupted (self : TaskId) (before m : Machine) : Prop :=
  m.ctx.sigActive = false ∧ m.regs = before.regs ∧
      (m.kernel.task self).blocked = (before.kernel.task self).blocked ∨
    Saved self before m

theorem interruptedFrame {before m after : Machine} (held : Interrupted self before m)
    (ctx : after.ctx = m.ctx) (regs : after.regs = m.regs)
    (blocked : (after.kernel.task self).blocked = (m.kernel.task self).blocked) :
    Interrupted self before after := by
  rcases held with ⟨idle, regsSame, blockedSame⟩ | saved
  · exact Or.inl ⟨ctx ▸ idle, regs.trans regsSame, blocked.trans blockedSame⟩
  · exact Or.inr (savedFrame saved ctx)

theorem droppedInterrupted {before m after : Machine} {sig : Nat}
    (held : Interrupted self before m) (idle : m.ctx.sigActive = false)
    (dropped : Dropped self m sig after) : Interrupted self before after := by
  rcases held with ⟨-, regsSame, blockedSame⟩ | saved
  swap
  · exact absurd (idle.symm.trans saved.active) Bool.false_ne_true
  refine Or.inl ?_
  rcases dropped with rfl | rfl
  · refine ⟨?_, ?_, ?_⟩
    · rw [noteCtx, resetHandCtx]
      exact idle
    · rw [noteRegs, resetHandRegs]
      exact regsSame
    · rw [noteKernel, resetHandBlocked]
      simpa [consume] using blockedSame
  · refine ⟨rfl, ?_, ?_⟩
    · exact (resetHandRegs self _ _).trans regsSame
    · simpa [unsave] using blockedSame

theorem startedSaved {before m : Machine} {sig : Nat}
    (held : Interrupted self before m) (idle : m.ctx.sigActive = false) :
    Saved self before (started self m sig) := by
  rcases held with ⟨-, regsSame, blockedSame⟩ | saved
  swap
  · exact absurd (idle.symm.trans saved.active) Bool.false_ne_true
  have regsKept : (resetHand self (consume self m sig) sig).regs = before.regs :=
    (resetHandRegs self _ _).trans regsSame
  have blockedKept : ((resetHand self (consume self m sig) sig).kernel.task self).blocked =
      (before.kernel.task self).blocked := by
    rw [resetHandBlocked]
    simpa [consume] using blockedSame
  exact {
    active := rfl
    eip := congrArg Registers.eip regsKept
    esp := congrArg Registers.userEsp regsKept
    eflags := congrArg Registers.eflags regsKept
    blocked := blockedKept }

theorem visitInterrupted {before m : Machine} (sig : Nat) (held : Interrupted self before m) :
    Interrupted self before (visit write self m sig).machine := by
  rcases visitCases write self m sig with ⟨-, out⟩ | ⟨-, -, -, -, out⟩ | ⟨-, -, out⟩ |
    ⟨-, -, out⟩ | ⟨-, -, -, out⟩ | ⟨-, -, idle, -, after, dropped, out⟩ | ⟨-, -, idle, -, out⟩ <;>
    rw [out]
  · exact held
  · exact interruptedFrame held rfl rfl (by simp [Visit.machine, consume])
  · exact interruptedFrame held rfl rfl (by simp [Visit.machine, consume, Kernel.setState])
  · refine interruptedFrame held rfl rfl ?_
    have kept := (stopTaskSelf self (consume self m sig).kernel sig).2.1
    simpa [Visit.machine, consume] using kept
  · exact interruptedFrame held rfl rfl (by simp [Visit.machine])
  · exact droppedInterrupted held idle dropped
  · exact Or.inr (startedSaved held idle)

/-! ## While the handler runs -/

theorem visitSaved {before m : Machine} (sig : Nat) (saved : Saved self before m) :
    Saved self before (visit write self m sig).machine := by
  have busy : m.ctx.sigActive ≠ false := by simp [saved.active]
  rcases visitCases write self m sig with ⟨-, out⟩ | ⟨-, -, -, -, out⟩ | ⟨-, -, out⟩ |
    ⟨-, -, out⟩ | ⟨-, -, -, out⟩ | ⟨-, -, idle, -⟩ | ⟨-, -, idle, -⟩
  · exact out ▸ saved
  · exact out ▸ savedFrame saved rfl
  · exact out ▸ savedFrame saved rfl
  · exact out ▸ savedFrame saved rfl
  · exact out ▸ savedFrame saved rfl
  · exact absurd idle busy
  · exact absurd idle busy

theorem doSignalSaved {before m : Machine} (saved : Saved self before m) :
    Saved self before (doSignal write self m).2 := by
  unfold doSignal
  split
  · exact saved
  · exact scanKeeps (fun _ sig => visitSaved sig) _ saved

def isSigreturn : Act → Bool
  | .sigreturn _ => true
  | _ => false

theorem stepSaved {before : Machine} {s s' : System} {a : Act}
    (saved : Saved self before s.machine) (handler : isSigreturn a = false)
    (stepped : step self s a = some s') : Saved self before s'.machine := by
  cases a with
  | trap regs =>
    simp only [step] at stepped
    split at stepped <;> try contradiction
    cases stepped
    exact savedFrame saved rfl
  | sigaction signum handler mask flags =>
    simp only [step] at stepped
    split at stepped <;> try contradiction
    cases stepped
    simp only [sysSigaction]
    split
    · exact saved
    · exact ⟨saved.active, saved.eip, saved.esp, saved.eflags, saved.blocked⟩
  | sigprocmask how new =>
    simp only [step] at stepped
    split at stepped <;> try contradiction
    cases stepped
    exact savedFrame saved rfl
  | sleep wq =>
    simp only [step] at stepped
    split at stepped <;> try contradiction
    cases stepped
    exact savedFrame saved rfl
  | leave write ret =>
    simp only [step] at stepped
    split at stepped <;> try contradiction
    cases stepped
    exact doSignalSaved (savedFrame saved rfl)
  | sigreturn write => cases handler
  | resume write =>
    simp only [step] at stepped
    split at stepped <;> try contradiction
    split at stepped <;> try contradiction
    cases stepped
    exact scanKeeps (fun _ sig => visitSaved sig) _ saved
  | send pid signum =>
    cases stepped
    refine savedFrame saved ?_
    unfold send
    split <;> rfl
  | others k state =>
    simp only [step] at stepped
    split at stepped <;> try contradiction
    cases stepped
    exact savedFrame saved rfl

/-! ## sigreturn -/

def SameElsewhere (a b : Registers) : Prop :=
  {a with eip := b.eip, userEsp := b.userEsp, eflags := b.eflags, eax := b.eax} = b
instance (a b) : Decidable (SameElsewhere a b) := by unfold SameElsewhere; infer_instance

def Restored (self : TaskId) (before after : Machine) : Prop :=
  after.regs = before.regs ∧
  (after.kernel.task self).blocked = (before.kernel.task self).blocked
instance (self before after) : Decidable (Restored self before after) := by
  unfold Restored; infer_instance

theorem sysSigreturnSaved {before m : Machine} (saved : Saved self before m) :
    (sysSigreturn self m).2.regs = {m.regs with
      eip := before.regs.eip, userEsp := before.regs.userEsp
      eflags := before.regs.eflags, eax := 0} ∧
    ((sysSigreturn self m).2.kernel.task self).blocked = (before.kernel.task self).blocked := by
  simp [sysSigreturn, saved.active, saved.eip, saved.esp, saved.eflags, saved.blocked]

theorem restoredIff {before m : Machine} (saved : Saved self before m) :
    Restored self before (sysSigreturn self m).2 ↔
      before.regs.eax = 0 ∧ SameElsewhere m.regs before.regs := by
  obtain ⟨regs, blocked⟩ := sysSigreturnSaved saved
  simp only [Restored, regs, blocked, and_true, SameElsewhere]
  constructor
  · intro same
    have zero : before.regs.eax = 0 := (congrArg Registers.eax same).symm
    refine ⟨zero, ?_⟩
    rw [zero]
    exact same
  · rintro ⟨zero, same⟩
    rw [zero] at same
    exact same

def interruptedBy (eax : BitVec 32) : Machine where
  kernel := {
    task := fun t => {
      pid := t, ppid := 0, priority := 0, state := .running
      pending := if t = 1 then 1#32 <<< 10 else 0, blocked := 0
      sigHandlers := fun sig => if sig = 10 then 0x8048000 else SIG_DFL
      stopSig := 0, stopReported := false, continued := false }
    taskList := [0, 1], current := 1, queue := fun _ => [] }
  ctx := {
    sigHmask := fun _ => 0, sigHflags := fun _ => 0, sigActive := false, sigDelivered := 0
    sigSavedEip := 0, sigSavedEsp := 0, sigSavedEflags := 0, sigSavedBlocked := 0 }
  regs := {
    edi := 1, esi := 2, ebp := 0xBFFFF100, ebx := 4, edx := 3, ecx := 5, eax := eax
    gs := 0x23, fs := 0x23, es := 0x23, ds := 0x23, eip := 0x8048100, cs := 0x1B
    eflags := 0x202, userEsp := 0xBFFFF000, ss := 0x23 }
  history := { made := [10], deeds := [], contLast := false }

def writableStack (_ : BitVec 32) (_ : Nat) : Bool := true

def trampolineRegs (eax : BitVec 32) : Registers :=
  {(interruptedBy eax).regs with eip := 0xBFFFFFE7, userEsp := 0xBFFFEFFC, eax := 119}

def handlerStarted (eax : BitVec 32) : Machine :=
  (scan writableStack 1 (List.range' 1 31) (interruptedBy eax)).2

end Scepter.Deliver
