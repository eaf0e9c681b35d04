import Mathlib.Data.List.Basic
import Mathlib.Algebra.BigOperators.Group.List.Basic
import Mathlib.Algebra.Ring.Nat

/-! Rows of slots, each of some length and free or holding something: what a first fit
that splits and a removal that merges with free neighbours do to such a row. -/
namespace Scepter

structure Slot (α : Type) where
  len : Nat
  held : Option α

namespace Slot

variable {α : Type}

def total (row : List (Slot α)) : Nat := (row.map len).sum

def contents (row : List (Slot α)) : List α := row.filterMap held

@[simp] theorem totalNil : total ([] : List (Slot α)) = 0 := rfl

@[simp] theorem totalCons (s : Slot α) (row : List (Slot α)) :
    total (s :: row) = s.len + total row := List.sum_cons

@[simp] theorem totalAppend (row rest : List (Slot α)) :
    total (row ++ rest) = total row + total rest := by
  unfold total
  rw [List.map_append, List.sum_append]

@[simp] theorem contentsNil : contents ([] : List (Slot α)) = [] := rfl

@[simp] theorem contentsAppend (row rest : List (Slot α)) :
    contents (row ++ rest) = contents row ++ contents rest := List.filterMap_append

theorem contentsFree (n : Nat) (row : List (Slot α)) :
    contents (⟨n, none⟩ :: row) = contents row := rfl

theorem contentsHeld (n : Nat) (a : α) (row : List (Slot α)) :
    contents (⟨n, some a⟩ :: row) = a :: contents row := rfl

/-- Where the first slot that satisfies `p` starts, and where the one before it does. -/
def seek (p : Slot α → Bool) : Nat → Option Nat → List (Slot α) → Option (Nat × Option Nat)
  | _, _, [] => none
  | off, prev, s :: rest =>
    if p s then some (off, prev) else seek p (off + s.len) (some off) rest

theorem seekNone {p : Slot α → Bool} {row : List (Slot α)} {off : Nat} {prev : Option Nat} :
    seek p off prev row = none ↔ ∀ s ∈ row, p s = false := by
  induction row generalizing off prev with
  | nil => exact iff_of_true rfl fun _ member => absurd member List.not_mem_nil
  | cons s rest ih =>
    unfold seek
    cases hit : p s with
    | true => simp [hit]
    | false => simp [hit, ih]

theorem seekSome {p : Slot α → Bool} {row : List (Slot α)} {off at_ : Nat}
    {prev before : Option Nat} (found : seek p off prev row = some (at_, before)) :
    ∃ pre s post, row = pre ++ s :: post ∧ (∀ x ∈ pre, p x = false) ∧ p s = true ∧
      at_ = off + total pre ∧
      ((pre = [] ∧ before = prev) ∨
        ∃ pre' q, pre = pre' ++ [q] ∧ before = some (off + total pre')) := by
  induction row generalizing off prev with
  | nil => cases found
  | cons s rest ih =>
    unfold seek at found
    cases hit : p s with
    | true =>
      rw [hit, if_pos rfl] at found
      cases found
      exact ⟨[], s, rest, rfl, fun _ member => absurd member List.not_mem_nil, hit, rfl,
        .inl ⟨rfl, rfl⟩⟩
    | false =>
      rw [hit, if_neg nofun] at found
      obtain ⟨pre, x, post, rfl, misses, hits, rfl, last⟩ := ih found
      refine ⟨s :: pre, x, post, rfl, ?_, hits, ?_, .inr ?_⟩
      · intro y member
        rcases List.mem_cons.mp member with rfl | later
        · exact hit
        · exact misses y later
      · rw [totalCons, Nat.add_assoc]
      · rcases last with ⟨rfl, rfl⟩ | ⟨pre', q, rfl, rfl⟩
        · exact ⟨[], s, rfl, rfl⟩
        · exact ⟨s :: pre', q, rfl, by rw [totalCons, Nat.add_assoc]⟩

/-! ## First fit -/

/-- What becomes of a free slot that takes `a`: a remainder of at least `least` stays. -/
def place (least need : Nat) (a : α) (s : Slot α) : List (Slot α) :=
  if need + least ≤ s.len then [⟨need, some a⟩, ⟨s.len - need, none⟩] else [⟨s.len, some a⟩]

theorem totalPlace (least need : Nat) (a : α) (s : Slot α) :
    total (place least need a s) = s.len := by
  unfold place
  split
  · simp only [totalCons, totalNil]
    omega
  · rfl

theorem contentsPlace (least need : Nat) (a : α) (s : Slot α) (row : List (Slot α)) :
    contents (place least need a s ++ row) = a :: contents row := by
  unfold place
  split <;> rfl

/-! ## Removal -/

def vacate (pre : List (Slot α)) (s : Slot α) : List (Slot α) → List (Slot α)
  | t :: post =>
    match t.held with
    | none => pre ++ ⟨s.len + t.len, none⟩ :: post
    | some _ => pre ++ ⟨s.len, none⟩ :: t :: post
  | [] =>
    match pre.getLast? with
    | some ⟨n, none⟩ => pre.dropLast ++ [⟨n + s.len, none⟩]
    | _ => pre ++ [⟨s.len, none⟩]

theorem vacateLast (pre : List (Slot α)) (q s : Slot α) :
    vacate (pre ++ [q]) s [] =
      match q.held with
      | none => pre ++ [⟨q.len + s.len, none⟩]
      | some _ => pre ++ [q] ++ [⟨s.len, none⟩] := by
  obtain ⟨n, held⟩ := q
  unfold vacate
  rw [List.getLast?_concat, List.dropLast_concat]
  cases held <;> rfl

theorem totalVacate (pre : List (Slot α)) (s : Slot α) (post : List (Slot α)) :
    total (vacate pre s post) = total (pre ++ s :: post) := by
  cases post with
  | cons t post =>
    obtain ⟨n, held⟩ := t
    unfold vacate
    cases held with
    | none =>
      simp only [totalAppend, totalCons]
      omega
    | some _ => simp only [totalAppend, totalCons]
  | nil =>
    rcases List.eq_nil_or_concat pre with rfl | ⟨pre', q, rfl⟩
    · rfl
    · rw [List.concat_eq_append, vacateLast]
      obtain ⟨n, held⟩ := q
      cases held with
      | none =>
        simp only [totalAppend, totalCons, totalNil]
        omega
      | some _ => simp only [totalAppend, totalCons]

theorem contentsVacate (pre : List (Slot α)) (s : Slot α) (post : List (Slot α)) :
    contents (vacate pre s post) = contents pre ++ contents post := by
  cases post with
  | cons t post =>
    obtain ⟨n, held⟩ := t
    unfold vacate
    cases held with
    | none => rw [contentsAppend, contentsFree, contentsFree]
    | some a => rw [contentsAppend, contentsFree]
  | nil =>
    rcases List.eq_nil_or_concat pre with rfl | ⟨pre', q, rfl⟩
    · rfl
    · rw [List.concat_eq_append, vacateLast]
      obtain ⟨n, held⟩ := q
      cases held with
      | none => simp only [contentsAppend, contentsFree, contentsNil, List.append_nil]
      | some a => simp only [contentsAppend, contentsFree, contentsNil]

end Slot
end Scepter
