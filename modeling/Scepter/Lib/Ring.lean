import Mathlib.Data.List.Basic
import Mathlib.Data.Nat.ModEq

/-! A ring of `size` slots held in a flat buffer. `ringRead` lists the items from
a tail position on and `ringWrite` stores a list from a head position on, both
wrapping at `size`, slot by slot as a copy loop does. -/
namespace Scepter.RingBuffer

variable {α : Type} (buf : Nat → α) (size : Nat)

def store (i : Nat) (x : α) : Nat → α := fun j => if j = i then x else buf j

def ringRead (tail count : Nat) : List α :=
  (List.range count).map fun i => buf ((tail + i) % size)

def ringWrite (buf : Nat → α) (size head : Nat) : List α → Nat → α
  | [] => buf
  | x :: xs => ringWrite (store buf (head % size) x) size (head + 1) xs

@[simp] theorem readZero (tail : Nat) : ringRead buf size tail 0 = [] := rfl

@[simp] theorem readLength (tail count : Nat) :
    (ringRead buf size tail count).length = count := by
  simp [ringRead]

theorem readSucc (tail count : Nat) :
    ringRead buf size tail (count + 1) =
      buf (tail % size) :: ringRead buf size (tail + 1) count := by
  simp only [ringRead, List.range_succ_eq_map, List.map_cons, List.map_map, Nat.add_zero]
  congr 1
  apply List.map_congr_left
  intro i _
  simp only [Function.comp, Nat.succ_eq_add_one]
  congr 2
  omega

theorem readAdd (tail a b : Nat) :
    ringRead buf size tail (a + b) =
      ringRead buf size tail a ++ ringRead buf size (tail + a) b := by
  induction a generalizing tail with
  | zero => simp
  | succ a ih =>
    rw [Nat.succ_add, readSucc, readSucc, ih, List.cons_append, Nat.succ_add_eq_add_succ]

@[simp] theorem readMod (tail count : Nat) :
    ringRead buf size (tail % size) count = ringRead buf size tail count := by
  simp [ringRead]

theorem readTake {a count : Nat} (fits : a ≤ count) (tail : Nat) :
    ringRead buf size tail count =
      ringRead buf size tail a ++ ringRead buf size ((tail + a) % size) (count - a) := by
  rw [readMod, ← readAdd, Nat.add_sub_cancel' fits]

theorem slotsDiffer {a b : Nat} (later : a < b) (turn : b < a + size) : a % size ≠ b % size := by
  intro same
  obtain ⟨k, hk⟩ := (Nat.modEq_iff_dvd' later.le).mp same
  rcases Nat.eq_zero_or_pos k with rfl | pos
  · omega
  · have : size ≤ size * k := Nat.le_mul_of_pos_right size pos
    omega

theorem writeElsewhere {head j : Nat} {xs : List α}
    (outside : ∀ i < xs.length, (head + i) % size ≠ j) :
    ringWrite buf size head xs j = buf j := by
  induction xs generalizing buf head with
  | nil => rfl
  | cons x rest ih =>
    have first : head % size ≠ j := outside 0 (by simp)
    have later : ∀ i < rest.length, (head + 1 + i) % size ≠ j := by
      intro i hi
      have away := outside (i + 1) (by simpa using hi)
      rwa [show head + (i + 1) = head + 1 + i by omega] at away
    rw [ringWrite, ih _ later, store, if_neg (Ne.symm first)]

theorem writeCongr {head head' : Nat} (same : head % size = head' % size) (xs : List α) :
    ringWrite buf size head xs = ringWrite buf size head' xs := by
  induction xs generalizing buf head head' with
  | nil => rfl
  | cons x rest ih =>
    have next : (head + 1) % size = (head' + 1) % size := Nat.ModEq.add_right 1 same
    rw [ringWrite, ringWrite, same, ih _ next]

@[simp] theorem writeMod (head : Nat) (xs : List α) :
    ringWrite buf size (head % size) xs = ringWrite buf size head xs :=
  writeCongr buf size (Nat.mod_mod head size) xs

theorem readWritten {head : Nat} {xs : List α} (fits : xs.length ≤ size) :
    ringRead (ringWrite buf size head xs) size head xs.length = xs := by
  induction xs generalizing buf head with
  | nil => rfl
  | cons x rest ih =>
    have short : rest.length < size := fits
    have kept : ringWrite (store buf (head % size) x) size (head + 1) rest (head % size) = x := by
      rw [writeElsewhere]
      · simp [store]
      · intro i hi
        exact (slotsDiffer size (by omega) (by omega)).symm
    rw [List.length_cons, readSucc, ringWrite, kept, ih _ short.le]

theorem readBeforeWrite {tail count : Nat} {xs : List α} (room : count + xs.length ≤ size) :
    ringRead (ringWrite buf size (tail + count) xs) size tail count =
      ringRead buf size tail count := by
  apply List.map_congr_left
  intro i member
  have waiting : i < count := List.mem_range.mp member
  apply writeElsewhere
  intro j hj
  exact (slotsDiffer size (by omega) (by omega)).symm

theorem readAppend {tail count : Nat} {xs : List α} (room : count + xs.length ≤ size) :
    ringRead (ringWrite buf size ((tail + count) % size) xs) size tail (count + xs.length) =
      ringRead buf size tail count ++ xs := by
  rw [writeMod, readAdd, readBeforeWrite buf size room, readWritten buf size (by omega)]

end Scepter.RingBuffer
