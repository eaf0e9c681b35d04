import Mathlib.Data.List.Nodup
import Mathlib.Logic.Function.Basic

/-! Cells linked by a next pointer, and items dealt out to rows: each item lies in one row,
once. Popping a row's head and putting it into another row keeps both. -/
namespace Scepter.Links

variable {α ι : Type}

def Chain (next : α → Option α) : Option α → List α → Prop
  | head, [] => head = none
  | head, a :: rest => head = some a ∧ Chain next (next a) rest

structure Dealt (items : α → Prop) (rows : ι → List α) : Prop where
  once : ∀ i, (rows i).Nodup
  apart : ∀ i j a, a ∈ rows i → a ∈ rows j → i = j
  all : ∀ a, items a ↔ ∃ i, a ∈ rows i

variable {next : α → Option α} {head : Option α} {row : List α} {a t : α}

theorem chainNone (chain : Chain next none row) : row = [] := by
  cases row with
  | nil => rfl
  | cons a rest => exact nomatch chain.1

theorem chainSome (chain : Chain next (some a) row) :
    ∃ rest, row = a :: rest ∧ Chain next (next a) rest := by
  cases row with
  | nil => exact nomatch (show some a = none from chain)
  | cons b rest =>
    obtain ⟨⟨⟩, later⟩ := chain
    exact ⟨rest, rfl, later⟩

theorem chainCongr {next' : α → Option α} (same : ∀ a ∈ row, next' a = next a)
    (chain : Chain next head row) : Chain next' head row := by
  induction row generalizing head with
  | nil => exact chain
  | cons a rest ih =>
    obtain ⟨first, later⟩ := chain
    refine ⟨first, ?_⟩
    rw [same a List.mem_cons_self]
    exact ih (fun b member => same b (List.mem_cons_of_mem a member)) later

variable [DecidableEq α]

theorem chainPush (chain : Chain next head row) (new : a ∉ row) :
    Chain (Function.update next a head) (some a) (a :: row) := by
  refine ⟨rfl, ?_⟩
  rw [Function.update_self]
  refine chainCongr (fun b member => Function.update_of_ne ?_ _ _) chain
  exact fun same => new (same ▸ member)

theorem chainAppend (chain : Chain next head row) (once : row.Nodup) (last : row.getLast? = some t)
    (new : a ∉ row) :
    Chain (Function.update (Function.update next a none) t (some a)) head (row ++ [a]) := by
  induction row generalizing head with
  | nil => exact nomatch last
  | cons b rest ih =>
    obtain ⟨first, later⟩ := chain
    obtain ⟨others, once⟩ := List.nodup_cons.mp once
    have apart : a ≠ b := fun same => new (same ▸ List.mem_cons_self)
    refine ⟨first, ?_⟩
    cases rest with
    | nil =>
      have same : b = t := Option.some.inj last
      subst same
      rw [Function.update_self]
      exact ⟨rfl, by rw [Function.update_of_ne apart, Function.update_self]; rfl⟩
    | cons c rest =>
      rw [List.getLast?_cons_cons] at last
      have inRest : t ∈ c :: rest := List.mem_of_getLast? last
      have differ : b ≠ t := fun same => others (same ▸ inRest)
      rw [Function.update_of_ne differ, Function.update_of_ne apart.symm]
      exact ih later once last fun member => new (List.mem_cons_of_mem b member)

variable [DecidableEq ι] {items : α → Prop} {rows : ι → List α} {i j : ι}

theorem Dealt.move (dealt : Dealt items rows) {rest new : List α} (here : rows i = a :: rest)
    (differ : i ≠ j) (put : new.Perm (a :: rows j)) :
    Dealt items (Function.update (Function.update rows i rest) j new) := by
  have member : ∀ k b, b ∈ Function.update (Function.update rows i rest) j new k ↔
      (b = a ∧ k = j) ∨ (b ≠ a ∧ b ∈ rows k) := by
    intro k b
    have onceI := List.nodup_cons.mp (here ▸ dealt.once i)
    have notJ : a ∉ rows j := fun inJ => differ (dealt.apart i j a (by simp [here]) inJ)
    by_cases atJ : k = j
    · subst atJ
      rw [Function.update_self, put.mem_iff, List.mem_cons]
      by_cases same : b = a <;> simp [same]
    · rw [Function.update_of_ne atJ]
      by_cases atI : k = i
      · subst atI
        rw [Function.update_self, here, List.mem_cons]
        by_cases same : b = a
        · subst same
          simp [atJ, onceI.1]
        · simp [same]
      · rw [Function.update_of_ne atI]
        have notK : a ∉ rows k := fun inK => atI (dealt.apart k i a inK (by simp [here]))
        by_cases same : b = a
        · subst same
          simp [atJ, notK]
        · simp [same]
  refine ⟨fun k => ?_, fun k l b inK inL => ?_, fun b => ?_⟩
  · by_cases atJ : k = j
    · subst atJ
      rw [Function.update_self, put.nodup_iff, List.nodup_cons]
      exact ⟨fun inJ => differ (dealt.apart i k a (by simp [here]) inJ), dealt.once k⟩
    · rw [Function.update_of_ne atJ]
      by_cases atI : k = i
      · subst atI
        rw [Function.update_self]
        exact (List.nodup_cons.mp (here ▸ dealt.once k)).2
      · rw [Function.update_of_ne atI]
        exact dealt.once k
  · rcases (member k b).mp inK with ⟨rfl, rfl⟩ | ⟨other, inK⟩
    · rcases (member l b).mp inL with ⟨_, rfl⟩ | ⟨other, _⟩
      · rfl
      · exact absurd rfl other
    · rcases (member l b).mp inL with ⟨rfl, _⟩ | ⟨_, inL⟩
      · exact absurd rfl other
      · exact dealt.apart k l b inK inL
  · rw [dealt.all b]
    constructor
    · rintro ⟨k, inK⟩
      by_cases same : b = a
      · exact ⟨j, (member j b).mpr (Or.inl ⟨same, rfl⟩)⟩
      · exact ⟨k, (member k b).mpr (Or.inr ⟨same, inK⟩)⟩
    · rintro ⟨k, inK⟩
      rcases (member k b).mp inK with ⟨rfl, _⟩ | ⟨_, inK⟩
      · exact ⟨i, by simp [here]⟩
      · exact ⟨k, inK⟩

end Scepter.Links
