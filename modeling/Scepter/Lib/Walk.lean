import Scepter.Lib.Path

/-! A loop over the words of a path, with the step from one place to the next as a
parameter: what it does at the last word, and what it finds again when the places change. -/
namespace Scepter.Walk
open Scepter.Path (Str)

variable {α β : Type} (enter : α → Str → Option α) (through : α → Bool)

/-- The loop behind the characters `token` of the word at hand. What is not the last must
let the path through. -/
def walk (token : Str) : Str → α → Option α
  | [], place => if token = [] then some place else enter place token
  | c :: rest, place =>
    if c = '/' then
      if token = [] then walk [] rest place
      else (enter place token).bind fun next => if through next then walk [] rest next else none
    else walk (token ++ [c]) rest place

variable {enter through} {token a b : Str} {place : α}

theorem walkWord (word : '/' ∉ a) :
    walk enter through token a place =
      if token ++ a = [] then some place else enter place (token ++ a) := by
  induction a generalizing token with
  | nil => rw [List.append_nil, walk]
  | cons c a ih =>
    have other : c ≠ '/' := fun same => word (same ▸ List.mem_cons_self)
    rw [walk, if_neg other, ih fun member => word (List.mem_cons_of_mem c member),
      List.append_assoc, List.singleton_append]

theorem walkSlash : walk enter through [] ('/' :: a) place = walk enter through [] a place := by
  rw [walk, if_pos rfl, if_pos rfl]

theorem walkLast (stops : ∀ p word, through p = false → enter p word = none)
    (word : '/' ∉ b) (filled : b ≠ []) :
    walk enter through token (a ++ '/' :: b) place =
      (walk enter through token a place).bind fun found => enter found b := by
  have entered (found : α) :
      (if through found then walk enter through [] b found else none) = enter found b := by
    rw [walkWord word, List.nil_append, if_neg filled]
    split
    · rfl
    · rename_i shut
      exact (stops found b (Bool.eq_false_iff.mpr shut)).symm
  induction a generalizing token place with
  | nil =>
    rw [List.nil_append, walk.eq_2, if_pos rfl, walk.eq_1]
    split
    · rw [walkWord word, List.nil_append, if_neg filled]
      rfl
    · simp only [entered]
  | cons c a ih =>
    rw [List.cons_append, walk, walk]
    split
    · split
      · exact ih
      · rw [Option.bind_assoc]
        refine congrArg _ (funext fun found => ?_)
        split
        · exact ih
        · rfl
    · exact ih

theorem walkRelated {enter' : β → Str → Option β} {through' : β → Bool} {R : α → β → Prop}
    (onward : ∀ p p' word q, R p p' → enter p word = some q →
      ∃ q', enter' p' word = some q' ∧ R q q')
    (opens : ∀ p p', R p p' → through' p' = through p) {p q : α} {p' : β} (related : R p p')
    (found : walk enter through token a p = some q) :
    ∃ q', walk enter' through' token a p' = some q' ∧ R q q' := by
  induction a generalizing token p p' with
  | nil =>
    rw [walk] at found ⊢
    split at found <;> rename_i none_
    · cases found
      exact ⟨p', if_pos none_, related⟩
    · rw [if_neg none_]
      exact onward p p' token q related found
  | cons c a ih =>
    rw [walk] at found ⊢
    split at found <;> rename_i slash
    · rw [if_pos slash]
      split at found <;> rename_i none_
      · rw [if_pos none_]
        exact ih related found
      · rw [if_neg none_]
        obtain ⟨next, entered, rest⟩ := Option.bind_eq_some_iff.mp found
        obtain ⟨next', entered', related'⟩ := onward p p' token next related entered
        rw [entered', Option.bind_some, opens next next' related']
        split at rest <;> rename_i free
        · rw [if_pos free]
          exact ih related' rest
        · cases rest
    · rw [if_neg slash]
      exact ih related found

end Scepter.Walk
