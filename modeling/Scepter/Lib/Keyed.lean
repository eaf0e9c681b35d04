import Mathlib.Data.List.Perm.Basic
import Mathlib.Data.List.Pairwise

/-! Lists kept in the order of a key. A new element goes behind those of its own
key, and the first element that satisfies a test can be replaced in its place. -/
namespace Scepter.Keyed

variable {α : Type}

def insert (key : α → Nat) (a : α) : List α → List α
  | [] => [a]
  | b :: rest => if key a < key b then a :: b :: rest else b :: insert key a rest

def insertAll (key : α → Nat) (list : List α) (new : List α) : List α :=
  new.foldl (fun list a => insert key a list) list

def update (p : α → Bool) (f : α → α) : List α → List α
  | [] => []
  | a :: rest => if p a then f a :: rest else a :: update p f rest

def Sorted (key : α → Nat) (list : List α) : Prop := list.Pairwise fun a b => key a ≤ key b
instance (key : α → Nat) (list) : Decidable (Sorted key list) := by
  unfold Sorted
  infer_instance

variable {key : α → Nat}

theorem insertPerm (a : α) (list : List α) : (insert key a list).Perm (a :: list) := by
  induction list with
  | nil => exact List.Perm.refl _
  | cons b rest ih =>
    unfold insert
    split
    · exact List.Perm.refl _
    · exact (ih.cons b).trans (List.Perm.swap a b rest)

theorem insertMem {a b : α} {list} : b ∈ insert key a list ↔ b = a ∨ b ∈ list := by
  rw [(insertPerm a list).mem_iff, List.mem_cons]

theorem insertSorted {a : α} {list} (sorted : Sorted key list) :
    Sorted key (insert key a list) := by
  induction list with
  | nil => exact List.pairwise_singleton _ a
  | cons b rest ih =>
    obtain ⟨least, tail⟩ := List.pairwise_cons.mp sorted
    unfold insert
    split <;> rename_i less
    · refine List.pairwise_cons.mpr ⟨fun c member => ?_, sorted⟩
      rcases List.mem_cons.mp member with rfl | member
      · exact Nat.le_of_lt less
      · exact Nat.le_trans (Nat.le_of_lt less) (least c member)
    · refine List.pairwise_cons.mpr ⟨fun c member => ?_, ih tail⟩
      rcases insertMem.mp member with rfl | member
      · exact Nat.not_lt.mp less
      · exact least c member

theorem insertLast {a : α} {list} (greatest : ∀ b ∈ list, key b ≤ key a) :
    insert key a list = list ++ [a] := by
  induction list with
  | nil => rfl
  | cons b rest ih =>
    have behind := greatest b List.mem_cons_self
    unfold insert
    rw [if_neg (Nat.not_lt.mpr behind), ih fun c member => greatest c (List.mem_cons_of_mem b member)]
    rfl

theorem insertAllPerm (list new : List α) : (insertAll key list new).Perm (new ++ list) := by
  induction new generalizing list with
  | nil => exact List.Perm.refl _
  | cons a rest ih =>
    have head : (rest ++ insert key a list).Perm (rest ++ a :: list) :=
      (insertPerm a list).append_left rest
    exact (ih (insert key a list)).trans (head.trans List.perm_middle)

theorem insertAllSorted {list new : List α} (sorted : Sorted key list) :
    Sorted key (insertAll key list new) := by
  induction new generalizing list with
  | nil => exact sorted
  | cons a rest ih => exact ih (insertSorted sorted)

theorem insertAllOfSorted {list new : List α} (sorted : Sorted key (list ++ new)) :
    insertAll key list new = list ++ new := by
  induction new generalizing list with
  | nil => exact (List.append_nil list).symm
  | cons a rest ih =>
    have greatest : ∀ b ∈ list, key b ≤ key a := fun b member =>
      (List.pairwise_append.mp sorted).2.2 b member a List.mem_cons_self
    have step : insertAll key list (a :: rest) = insertAll key (insert key a list) rest := rfl
    rw [step, insertLast greatest, ih (by rwa [List.append_assoc]), List.append_assoc]
    rfl

theorem updateSplit {p : α → Bool} {f : α → α} {list a} (found : list.find? p = some a) :
    ∃ before after, list = before ++ a :: after ∧ update p f list = before ++ f a :: after := by
  induction list with
  | nil => cases found
  | cons b rest ih =>
    unfold update
    cases holds : p b with
    | true =>
      rw [List.find?_cons_of_pos holds] at found
      cases found
      exact ⟨[], rest, rfl, rfl⟩
    | false =>
      rw [List.find?_cons_of_neg (by simp [holds])] at found
      obtain ⟨before, after, split, updated⟩ := ih found
      exact ⟨b :: before, after, congrArg (b :: ·) split, congrArg (b :: ·) updated⟩

theorem updateFirst {p : α → Bool} {f : α → α} {before after : List α} {a : α}
    (skipped : ∀ b ∈ before, ¬ p b) (holds : p a) :
    update p f (before ++ a :: after) = before ++ f a :: after := by
  induction before with
  | nil => simp [update, holds]
  | cons b rest ih =>
    have other := skipped b List.mem_cons_self
    have tail := ih fun c member => skipped c (List.mem_cons_of_mem b member)
    simp [update, other, tail]

theorem replaceSorted {before after : List α} {a a' : α}
    (sorted : Sorted key (before ++ a :: after)) (above : ∀ b ∈ before, key b ≤ key a')
    (lower : key a' ≤ key a) : Sorted key (before ++ a' :: after) := by
  obtain ⟨left, right, across⟩ := List.pairwise_append.mp sorted
  obtain ⟨least, tail⟩ := List.pairwise_cons.mp right
  refine List.pairwise_append.mpr ⟨left, List.pairwise_cons.mpr ⟨fun b member => ?_, tail⟩,
    fun b old c new => ?_⟩
  · exact Nat.le_trans lower (least b member)
  · rcases List.mem_cons.mp new with rfl | member
    · exact above b old
    · exact across b old c (List.mem_cons_of_mem a member)

theorem replacePairwise {R : α → α → Prop} (symm : ∀ {a b}, R a b → R b a)
    {before after : List α} {a a' : α} (pairwise : (before ++ a :: after).Pairwise R)
    (kept : ∀ b ∈ before ++ after, R a b → R a' b) : (before ++ a' :: after).Pairwise R := by
  rw [List.pairwise_middle symm] at pairwise ⊢
  obtain ⟨others, rest⟩ := List.pairwise_cons.mp pairwise
  exact List.pairwise_cons.mpr ⟨fun b member => kept b member (others b member), rest⟩

end Scepter.Keyed
