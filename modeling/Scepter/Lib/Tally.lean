import Mathlib.Algebra.GroupWithZero.Nat
import Mathlib.Algebra.Order.BigOperators.Group.List
import Mathlib.Algebra.Order.Group.Nat
import Mathlib.Data.List.Basic

/-! Sums of a weight over a list, one element of which changes. -/
namespace Scepter.Tally

variable {α : Type}

def total (weight : α → Nat) (l : List α) : Nat := (l.map weight).sum

theorem totalModify (weight : α → Nat) {l : List α} {t : Nat} {a : α} (change : α → α)
    (found : l[t]? = some a) :
    total weight (l.modify t change) + weight a = total weight l + weight (change a) := by
  induction l generalizing t with
  | nil => simp at found
  | cons first rest ih =>
    cases t with
    | zero =>
      simp only [List.getElem?_cons_zero, Option.some.injEq] at found
      subst found
      simp only [List.modify_zero_cons, total, List.map_cons, List.sum_cons]
      omega
    | succ t =>
      have later := ih (by simpa using found)
      simp only [total, List.modify_succ_cons, List.map_cons, List.sum_cons] at later ⊢
      omega

theorem totalSnoc (weight : α → Nat) (l : List α) (a : α) :
    total weight (l ++ [a]) = total weight l + weight a := by
  simp [total]

theorem weightLe (weight : α → Nat) {l : List α} {a : α} (member : a ∈ l) :
    weight a ≤ total weight l :=
  List.le_sum_of_mem (List.mem_map_of_mem member)

theorem modifyMem {l : List α} {t : Nat} {change : α → α} {b : α}
    (member : b ∈ l.modify t change) : b ∈ l ∨ ∃ a, l[t]? = some a ∧ b = change a := by
  induction l generalizing t with
  | nil =>
    rw [List.modify_nil] at member
    exact Or.inl member
  | cons first rest ih =>
    cases t with
    | zero =>
      rw [List.modify_zero_cons] at member
      rcases List.mem_cons.mp member with rfl | old
      · exact Or.inr ⟨first, rfl, rfl⟩
      · exact Or.inl (List.mem_cons_of_mem first old)
    | succ t =>
      rw [List.modify_succ_cons] at member
      rcases List.mem_cons.mp member with rfl | later
      · exact Or.inl List.mem_cons_self
      · rcases ih later with old | ⟨a, found, new⟩
        · exact Or.inl (List.mem_cons_of_mem first old)
        · exact Or.inr ⟨a, by simpa using found, new⟩

end Scepter.Tally
