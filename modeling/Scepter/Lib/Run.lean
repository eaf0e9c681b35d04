import Mathlib.Data.List.Basic

/-! Runs of a partial transition system. A refused action gives `none`, and a run
is the step folded over a list of actions. What one step preserves is carried
over whole runs by the rules below; `Meets` restricts a run to actions that
satisfy a condition in the state before each of them. -/
namespace Scepter.Run

variable {σ α : Type} (step : σ → α → Option σ)

def run : σ → List α → Option σ
  | s, [] => some s
  | s, a :: rest => (step s a).bind fun t => run t rest

def Meets (Q : σ → α → Prop) : σ → List α → Prop
  | _, [] => True
  | s, a :: rest => Q s a ∧ ∀ t, step s a = some t → Meets Q t rest

instance decidableMeets (Q : σ → α → Prop) [held : ∀ s a, Decidable (Q s a)] (s : σ)
    (acts : List α) : Decidable (Meets step Q s acts) :=
  match acts with
  | [] => isTrue trivial
  | a :: rest => match taken : step s a with
    | none => decidable_of_iff (Q s a)
      ⟨fun holds => ⟨holds, fun _ same => nomatch taken.symm.trans same⟩, And.left⟩
    | some t =>
      have := decidableMeets Q t rest
      decidable_of_iff (Q s a ∧ Meets step Q t rest) (and_congr_right fun _ =>
        ⟨fun meets _ same => Option.some.inj (taken.symm.trans same) ▸ meets,
          fun meets => meets t taken⟩)

variable {step}

@[simp] theorem runNil (s : σ) : run step s [] = some s := rfl

theorem runCons {s : σ} {a rest t} (h : run step s (a :: rest) = some t) :
    ∃ mid, step s a = some mid ∧ run step mid rest = some t := by
  simpa only [run, Option.bind_eq_some_iff] using h

theorem invariantMeets {P : σ → Prop} {Q : σ → α → Prop}
    (preserved : ∀ s a t, P s → Q s a → step s a = some t → P t)
    {s : σ} {acts t} (start : P s) (meets : Meets step Q s acts)
    (ran : run step s acts = some t) : P t := by
  induction acts generalizing s with
  | nil => cases ran; exact start
  | cons a rest ih =>
    obtain ⟨mid, hstep, hrest⟩ := runCons ran
    exact ih (preserved s a mid start meets.1 hstep) (meets.2 mid hstep) hrest

theorem meetsTrivial (s : σ) (acts : List α) : Meets step (fun _ _ => True) s acts := by
  induction acts generalizing s with
  | nil => trivial
  | cons a rest ih => exact ⟨trivial, fun t _ => ih t⟩

theorem meetsEach {Q : α → Prop} {acts : List α} (each : ∀ a ∈ acts, Q a) (s : σ) :
    Meets step (fun _ a => Q a) s acts := by
  induction acts generalizing s with
  | nil => trivial
  | cons a rest ih =>
    exact ⟨each a List.mem_cons_self, fun t _ =>
      ih (fun b member => each b (List.mem_cons_of_mem a member)) t⟩

theorem meetsLast {Q : σ → α → Prop} {s t : σ} {acts : List α} {a : α}
    (meets : Meets step Q s (acts ++ [a])) (ran : run step s acts = some t) : Q t a := by
  induction acts generalizing s with
  | nil => cases ran; exact meets.1
  | cons b rest ih =>
    obtain ⟨mid, taken, later⟩ := runCons ran
    exact ih (meets.2 mid taken) later

theorem invariant {P : σ → Prop} (preserved : ∀ s a t, P s → step s a = some t → P t)
    {s : σ} {acts t} (start : P s) (ran : run step s acts = some t) : P t :=
  invariantMeets (Q := fun _ _ => True) (fun s a t hp _ => preserved s a t hp) start
    (meetsTrivial s acts) ran

end Scepter.Run
