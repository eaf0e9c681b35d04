import Mathlib.Data.List.Basic

/-! A list as a partial map: the first element that has a value under a key counts. An element has
a value under one key at most. -/
namespace Scepter.FirstMatch

variable {κ α β : Type} (value : κ → α → Option β)

def look (list : List α) (k : κ) : Option β := list.findSome? (value k)

def slot (list : List α) (k : κ) : Option Nat := list.findIdx? fun a => (value k a).isSome

def held (list : List α) (k : κ) : Nat := list.countP fun a => (value k a).isSome

def Exclusive : Prop := ∀ j k a, (value j a).isSome → (value k a).isSome → j = k

variable {value} {list : List α} {j k : κ} {i : Nat} {a : α}

theorem slotNone : slot value list k = none ↔ ∀ a ∈ list, value k a = none := by
  rw [slot, List.findIdx?_eq_none_iff]
  simp

theorem lookNone : look value list k = none ↔ ∀ a ∈ list, value k a = none :=
  List.findSome?_eq_none_iff

theorem slotSplit (found : slot value list k = some i) :
    ∃ before a after v, list = before ++ a :: after ∧ before.length = i ∧
      (∀ b ∈ before, value k b = none) ∧ value k a = some v := by
  rw [slot, List.findIdx?_eq_some_iff_getElem] at found
  obtain ⟨inside, isSome, first⟩ := found
  obtain ⟨v, is⟩ := Option.isSome_iff_exists.mp isSome
  refine ⟨list.take i, list[i], list.drop (i + 1), v, ?_, ?_, ?_, is⟩
  · rw [List.getElem_cons_drop, List.take_append_drop]
  · rw [List.length_take]
    omega
  · intro b member
    obtain ⟨l, less, rfl⟩ := List.getElem_of_mem member
    rw [List.length_take] at less
    have none := first l (by omega)
    rw [List.getElem_take]
    simpa using none

theorem lookAppend (list : List α) (a : α) (k : κ) :
    look value (list ++ [a]) k = (look value list k).or (value k a) := by
  rw [look, List.findSome?_append, List.findSome?_cons]
  cases value k a <;> rfl

theorem lookSplit {before after : List α} {v : β} (none : ∀ b ∈ before, value k b = none)
    (is : value k a = some v) : look value (before ++ a :: after) k = some v := by
  rw [look, List.findSome?_append, List.findSome?_eq_none_iff.mpr none, List.findSome?_cons, is]
  rfl

theorem lookSlot (found : slot value list k = some i) : (look value list k).isSome := by
  obtain ⟨before, a, after, v, rfl, _, none, is⟩ := slotSplit found
  rw [lookSplit none is]
  rfl

theorem lookSet (exclusive : Exclusive value) {v : β} (found : slot value list j = some i)
    (is : value j a = some v) [DecidableEq κ] (k : κ) :
    look value (list.set i a) k = if k = j then some v else look value list k := by
  obtain ⟨before, b, after, w, rfl, rfl, none, was⟩ := slotSplit found
  rw [List.set_append_right _ _ (Nat.le_refl _), Nat.sub_self, List.set_cons_zero]
  split
  · rename_i same
    rw [same]
    exact lookSplit none is
  · rename_i other
    have missed : ∀ c, (value j c).isSome → value k c = .none := by
      intro c some
      by_contra has
      exact other (exclusive _ _ c (Option.ne_none_iff_isSome.mp has) some)
    have old := missed b (by rw [was]; rfl)
    have new := missed a (by rw [is]; rfl)
    rw [look, look, List.findSome?_append, List.findSome?_append, List.findSome?_cons,
      List.findSome?_cons, old, new]

theorem lookErase (exclusive : Exclusive value) (found : slot value list j = some i) (other : k ≠ j) :
    look value (list.eraseIdx i) k = look value list k := by
  obtain ⟨before, b, after, w, rfl, rfl, none, was⟩ := slotSplit found
  have missed : value k b = .none := by
    by_contra has
    exact other (exclusive _ _ b (Option.ne_none_iff_isSome.mp has) (by rw [was]; rfl))
  rw [List.eraseIdx_append_of_length_le (Nat.le_refl _), Nat.sub_self, List.eraseIdx_cons_zero, look,
    look, List.findSome?_append, List.findSome?_append, List.findSome?_cons, missed]

theorem lookEraseSelf (found : slot value list j = some i) :
    look value (list.eraseIdx i) j = none ↔ held value list j ≤ 1 := by
  obtain ⟨before, b, after, w, rfl, rfl, none, was⟩ := slotSplit found
  have first : before.countP (fun a => (value j a).isSome) = 0 := by
    rw [List.countP_eq_zero]
    intro c member
    simp [none c member]
  have itself : (value j b).isSome = true := by rw [was]; rfl
  rw [List.eraseIdx_append_of_length_le (Nat.le_refl _), Nat.sub_self, List.eraseIdx_cons_zero, look,
    List.findSome?_append, List.findSome?_eq_none_iff.mpr none, held, List.countP_append, first,
    List.countP_cons, if_pos itself, Option.none_or, List.findSome?_eq_none_iff]
  constructor
  · intro rest
    have zero : after.countP (fun a => (value j a).isSome) = 0 := by
      rw [List.countP_eq_zero]
      intro c member
      simp [rest c member]
    omega
  · intro few c member
    have zero : after.countP (fun a => (value j a).isSome) = 0 := by omega
    rw [List.countP_eq_zero] at zero
    simpa using zero c member

end Scepter.FirstMatch
