import Mathlib.Data.List.Basic

/-! Patterns with wildcards over an arbitrary alphabet: the strings that a pattern stands for,
and what an open end behind the last star adds to them. -/
namespace Scepter.Wildcard

inductive Piece (α : Type) where
  | one (c : α)
  | any
  | star

def Lang {α : Type} : List (Piece α) → List α → Prop
  | [], s => s = []
  | .one c :: p, s => ∃ t, s = c :: t ∧ Lang p t
  | .any :: p, s => ∃ c t, s = c :: t ∧ Lang p t
  | .star :: p, s => ∃ a b, s = a ++ b ∧ Lang p b

def fill {α : Type} (c : α) : List (Piece α) → List α
  | [] => []
  | .one d :: p => d :: fill c p
  | .any :: p => c :: fill c p
  | .star :: p => fill c p

variable {α : Type} {p q h r : List (Piece α)} {s a b : List α} {c d : α}

theorem langStar : Lang (.star :: p) s ↔ Lang p s ∨ ∃ c t, s = c :: t ∧ Lang (.star :: p) t := by
  constructor
  · rintro ⟨a, b, rfl, rest⟩
    cases a with
    | nil => exact Or.inl rest
    | cons c a => exact Or.inr ⟨c, a ++ b, rfl, a, b, rfl, rest⟩
  · rintro (now | ⟨c, t, rfl, a, b, rfl, rest⟩)
    · exact ⟨[], s, rfl, now⟩
    · exact ⟨c :: a, b, rfl, rest⟩

theorem langAppend : Lang (p ++ q) s ↔ ∃ a b, s = a ++ b ∧ Lang p a ∧ Lang q b := by
  induction p generalizing s with
  | nil =>
    constructor
    · exact fun all => ⟨[], s, rfl, rfl, all⟩
    · rintro ⟨a, b, rfl, rfl, rest⟩
      exact rest
  | cons x p ih =>
    cases x with
    | one c =>
      constructor
      · rintro ⟨t, rfl, later⟩
        obtain ⟨a, b, rfl, left, right⟩ := ih.mp later
        exact ⟨c :: a, b, rfl, ⟨a, rfl, left⟩, right⟩
      · rintro ⟨a, b, rfl, ⟨t, rfl, left⟩, right⟩
        exact ⟨t ++ b, rfl, ih.mpr ⟨t, b, rfl, left, right⟩⟩
    | any =>
      constructor
      · rintro ⟨c, t, rfl, later⟩
        obtain ⟨a, b, rfl, left, right⟩ := ih.mp later
        exact ⟨c :: a, b, rfl, ⟨c, a, rfl, left⟩, right⟩
      · rintro ⟨a, b, rfl, ⟨c, t, rfl, left⟩, right⟩
        exact ⟨c, t ++ b, rfl, ih.mpr ⟨t, b, rfl, left, right⟩⟩
    | star =>
      constructor
      · rintro ⟨u, v, rfl, later⟩
        obtain ⟨a, b, rfl, left, right⟩ := ih.mp later
        exact ⟨u ++ a, b, (List.append_assoc ..).symm, ⟨u, a, rfl, left⟩, right⟩
      · rintro ⟨a, b, rfl, ⟨u, v, rfl, left⟩, right⟩
        exact ⟨u, v ++ b, List.append_assoc .., ih.mpr ⟨v, b, rfl, left, right⟩⟩

theorem langFree (free : ∀ x ∈ p, x = .any) : Lang p s ↔ s.length = p.length := by
  induction p generalizing s with
  | nil => exact List.length_eq_zero_iff.symm
  | cons x p ih =>
    obtain rfl := free x List.mem_cons_self
    have later := fun y member => free y (List.mem_cons_of_mem _ member)
    constructor
    · rintro ⟨c, t, rfl, rest⟩
      rw [List.length_cons, List.length_cons, (ih later).mp rest]
    · intro length
      cases s with
      | nil => exact absurd length (Nat.succ_ne_zero _).symm
      | cons c t => exact ⟨c, t, rfl, (ih later).mpr (Nat.succ.inj length)⟩

theorem langFill (c : α) (p : List (Piece α)) : Lang p (fill c p) := by
  induction p with
  | nil => rfl
  | cons x p ih =>
    cases x with
    | one d => exact ⟨fill c p, rfl, ih⟩
    | any => exact ⟨c, fill c p, rfl, ih⟩
    | star => exact ⟨[], fill c p, rfl, ih⟩

theorem fillFrom (member : d ∈ fill c p) : .one d ∈ p ∨ d = c := by
  induction p with
  | nil => cases member
  | cons x p ih =>
    cases x with
    | one e =>
      rcases List.mem_cons.mp member with rfl | later
      · exact Or.inl List.mem_cons_self
      · exact (ih later).imp_left (List.mem_cons_of_mem _)
    | any =>
      rcases List.mem_cons.mp member with same | later
      · exact Or.inr same
      · exact (ih later).imp_left (List.mem_cons_of_mem _)
    | star => exact (ih member).imp_left (List.mem_cons_of_mem _)

theorem langOpen : Lang (p ++ [.star]) s ↔ ∃ a b, s = a ++ b ∧ Lang p a := by
  rw [langAppend]
  constructor
  · rintro ⟨a, b, whole, left, _⟩
    exact ⟨a, b, whole, left⟩
  · rintro ⟨a, b, whole, left⟩
    exact ⟨a, b, whole, left, b, [], (List.append_nil b).symm, rfl⟩

theorem openFree (free : ∀ x ∈ r, x = .any) :
    Lang (h ++ .star :: r ++ [.star]) s ↔ Lang (h ++ .star :: r) s := by
  rw [langOpen]
  constructor
  · rintro ⟨s, more, rfl, inside⟩
    obtain ⟨a, _, rfl, left, u, v, rfl, right⟩ := langAppend.mp inside
    -- as much as `more` is long goes from the open characters to the star
    have long := (langFree free).mp right
    have cut : (v ++ more).drop more.length ∈ {w : List α | w.length = r.length} := by
      show ((v ++ more).drop more.length).length = r.length
      rw [List.length_drop, List.length_append]
      omega
    refine langAppend.mpr ⟨a, u ++ (v ++ more), by simp only [List.append_assoc], left,
      u ++ (v ++ more).take more.length, _, ?_, (langFree free).mpr cut⟩
    rw [List.append_assoc, List.take_append_drop]
  · exact fun inside => ⟨s, [], (List.append_nil s).symm, inside⟩

theorem openFixed (free : ∀ x ∈ q, x = .any) (other : d ≠ c) :
    let p := h ++ .one c :: q
    let s := fill d p ++ List.replicate (q.length + 1) d
    Lang (p ++ [.star]) s ∧ ¬ Lang p s := by
  refine ⟨langOpen.mpr ⟨_, _, rfl, langFill d _⟩, fun inside => ?_⟩
  obtain ⟨a, b, whole, _, t, rfl, rest⟩ := langAppend.mp inside
  have long := (langFree free).mp rest
  have same := (List.append_inj' whole (by rw [List.length_replicate, List.length_cons, long])).2
  rw [List.replicate_succ] at same
  exact other (List.cons.inj same).1

end Scepter.Wildcard
