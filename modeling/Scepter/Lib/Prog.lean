import Mathlib.Order.Defs.Unbundled
import Mathlib.Logic.Function.Basic

/-! Programs over a state that may fail. The state a program leaves behind is
kept when it fails, as in a C function that returns an error halfway.
`Leaves` carries a preorder between states through a program, whichever way it
ends; `bindSome` takes a successful run apart; `Sure` shows that one succeeds. -/
namespace Scepter

def Prog (σ α : Type) : Type := σ → Option α × σ

namespace Prog

variable {σ τ α β ι : Type}

instance : Monad (Prog σ) where
  pure a := fun s => (some a, s)
  bind p f := fun s => match p s with
    | (some a, t) => f a t
    | (none, t) => (none, t)

def fail : Prog σ α := fun s => (none, s)

def get : Prog σ σ := fun s => (some s, s)

def modify (f : σ → σ) : Prog σ Unit := fun s => (some (), f s)

def attempt (p : Prog σ α) : Prog σ (Option α) := fun s => (some (p s).1, (p s).2)

def onFst (p : Prog σ α) : Prog (σ × τ) α := fun s => ((p s.1).1, (p s.1).2, s.2)

/-- Runs `p` with `t` as the second part of the state and returns that part. -/
def withSnd (t : τ) (p : Prog (σ × τ) α) : Prog σ τ :=
  fun s => ((p (s, t)).1.map fun _ => (p (s, t)).2.2, (p (s, t)).2.1)

@[simp] theorem pureRun (a : α) (s : σ) : (pure a : Prog σ α) s = (some a, s) := rfl

@[simp] theorem failRun (s : σ) : (fail : Prog σ α) s = (none, s) := rfl

@[simp] theorem getRun (s : σ) : get s = (some s, s) := rfl

@[simp] theorem modifyRun (f : σ → σ) (s : σ) : modify f s = (some (), f s) := rfl

@[simp] theorem attemptRun (p : Prog σ α) (s : σ) :
    attempt p s = (some (p s).1, (p s).2) := rfl

@[simp] theorem onFstRun (p : Prog σ α) (s : σ) (t : τ) :
    onFst p (s, t) = ((p s).1, (p s).2, t) := rfl

theorem withSndRun {p : Prog (σ × τ) α} {s : σ} {t : τ} {r m} (ran : p (s, t) = (r, m)) :
    withSnd t p s = (r.map fun _ => m.2, m.1) := by
  rw [withSnd, ran]

theorem bindOf {p : Prog σ α} {s a m} (ran : p s = (some a, m)) (f : α → Prog σ β) :
    (p >>= f) s = f a m := by
  show (match p s with | (some a, t) => f a t | (none, t) => (none, t)) = _
  rw [ran]

theorem bindFails {p : Prog σ α} {s m} (ran : p s = (none, m)) (f : α → Prog σ β) :
    (p >>= f) s = (none, m) := by
  show (match p s with | (some a, t) => f a t | (none, t) => (none, t)) = _
  rw [ran]

@[simp] theorem getBind (f : σ → Prog σ β) (s : σ) : (get >>= f) s = f s s := rfl

@[simp] theorem modifyBind (g : σ → σ) (f : Unit → Prog σ β) (s : σ) :
    (modify g >>= f) s = f () (g s) := rfl

@[simp] theorem pureBind (a : α) (f : α → Prog σ β) (s : σ) :
    ((pure a : Prog σ α) >>= f) s = f a s := rfl

@[simp] theorem failBind (f : α → Prog σ β) (s : σ) :
    ((fail : Prog σ α) >>= f) s = (none, s) := rfl

theorem bindPure (p : Prog σ α) : (p >>= fun a => pure a) = p := by
  funext s
  rcases ran : p s with ⟨_ | a, m⟩
  · exact bindFails ran _
  · exact bindOf ran _

theorem bindSome {p : Prog σ α} {f : α → Prog σ β} {s b t} :
    (p >>= f) s = (some b, t) ↔ ∃ a m, p s = (some a, m) ∧ f a m = (some b, t) := by
  rcases ran : p s with ⟨_ | a, m⟩
  · simp [bindFails ran]
  · rw [bindOf ran]
    constructor
    · exact fun h => ⟨a, m, rfl, h⟩
    · rintro ⟨_, _, ⟨⟩, h⟩
      exact h

/-- From `s`, the program leaves a state related to `s`, on success and on failure. -/
def Leaves (R : σ → σ → Prop) (p : Prog σ α) (s : σ) : Prop := R s (p s).2

section rules

variable {R : σ → σ → Prop}

theorem leavesModify {g : σ → σ} {s : σ} (h : R s (g s)) : Leaves R (modify g) s := h

theorem leavesAttempt {p : Prog σ α} {s : σ} (h : Leaves R p s) : Leaves R (attempt p) s := h

theorem leavesOf {p : Prog σ α} {s r t} (h : Leaves R p s) (ran : p s = (r, t)) : R s t := by
  rw [Leaves, ran] at h
  exact h

variable [IsPreorder σ R]

theorem leavesPure (a : α) (s : σ) : Leaves R (pure a) s := refl_of R s

theorem leavesFail (s : σ) : Leaves R (fail : Prog σ α) s := refl_of R s

theorem leavesBind {p : Prog σ α} {f : α → Prog σ β} {s : σ} (first : Leaves R p s)
    (rest : ∀ a m, p s = (some a, m) → Leaves R (f a) m) : Leaves R (p >>= f) s := by
  unfold Leaves at *
  rcases ran : p s with ⟨_ | a, m⟩
  · simpa only [bindFails ran, ran] using first
  · rw [ran] at first
    rw [bindOf ran]
    exact trans_of R first (rest a m ran)

theorem leavesForM {xs : List ι} {body : ι → Prog σ Unit}
    (each : ∀ x ∈ xs, ∀ s, Leaves R (body x) s) (s : σ) : Leaves R (xs.forM body) s := by
  induction xs generalizing s with
  | nil => exact leavesPure () s
  | cons x rest ih =>
    refine leavesBind (each x (by simp) s) fun _ m _ => ?_
    exact ih (fun y hy => each y (by simp [hy])) m

end rules

def Sure (I : σ → Prop) (p : Prog σ α) (s : σ) : Prop := (p s).1.isSome ∧ I (p s).2

section sure

variable {I : σ → Prop}

theorem sureRun {p : Prog σ α} {s : σ} (h : Sure I p s) :
    ∃ a t, p s = (some a, t) ∧ I t := by
  obtain ⟨done, after⟩ := h
  rcases ran : p s with ⟨_ | a, t⟩
  · simp [ran] at done
  · exact ⟨a, t, rfl, by rw [ran] at after; exact after⟩

theorem surePure (a : α) {s : σ} (h : I s) : Sure I (pure a) s := ⟨rfl, h⟩

theorem sureModify {g : σ → σ} {s : σ} (h : I (g s)) : Sure I (modify g) s := ⟨rfl, h⟩

theorem sureBind {p : Prog σ α} {f : α → Prog σ β} {s : σ} (first : Sure I p s)
    (rest : ∀ a m, p s = (some a, m) → I m → Sure I (f a) m) : Sure I (p >>= f) s := by
  obtain ⟨a, m, ran, after⟩ := sureRun first
  unfold Sure
  rw [bindOf ran]
  exact rest a m ran after

theorem sureForM {xs : List ι} {body : ι → Prog σ Unit}
    (each : ∀ x ∈ xs, ∀ s, I s → Sure I (body x) s) {s : σ} (start : I s) :
    Sure I (xs.forM body) s := by
  induction xs generalizing s with
  | nil => exact surePure () start
  | cons x rest ih =>
    refine sureBind (each x (by simp) s start) fun _ m _ after => ?_
    exact ih (fun y hy => each y (by simp [hy])) after

end sure

end Prog
end Scepter
