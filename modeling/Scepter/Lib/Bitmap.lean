import Mathlib.Data.Finset.Card
import Mathlib.Data.Finset.Range
import Mathlib.Order.Interval.Finset.Nat
import Scepter.Lib.Bits

/-! A bitmap packed in 32-bit words: bit `i` is bit `i % 32` of word `i / 32`.
A set bit means taken; `freeBits` are the clear bits below a limit. -/
namespace Scepter

abbrev Bitmap := Nat → BitVec 32

namespace Bitmap

def test (b : Bitmap) (i : Nat) : Bool := (b (i / 32) &&& (1#32 <<< (i % 32))) ≠ 0#32

def set (b : Bitmap) (i : Nat) : Bitmap :=
  Function.update b (i / 32) (b (i / 32) ||| (1#32 <<< (i % 32)))

def clear (b : Bitmap) (i : Nat) : Bitmap :=
  Function.update b (i / 32) (b (i / 32) &&& ~~~(1#32 <<< (i % 32)))

def setRange (b : Bitmap) (start n : Nat) : Bitmap :=
  (List.range n).foldl (fun b i => b.set (start + i)) b

theorem testBit (b : Bitmap) (i : Nat) : b.test i = (b (i / 32)).getLsbD (i % 32) := by
  have clear := Bits.maskClear (b (i / 32)) (Nat.mod_lt i (by decide : 0 < 32))
  unfold test
  cases bit : (b (i / 32)).getLsbD (i % 32) with
  | true =>
    rw [bit] at clear
    simp [clear]
  | false => simp [clear.mpr bit]

theorem testSet (b : Bitmap) (i j : Nat) :
    (b.set i).test j = if j = i then true else b.test j := by
  rw [testBit, testBit]
  exact Bits.packedSet (by decide) b i j

theorem testClear (b : Bitmap) (i j : Nat) :
    (b.clear i).test j = if j = i then false else b.test j := by
  rw [testBit, testBit]
  exact Bits.packedUnset (by decide) b i j

theorem testSetRange (b : Bitmap) (start n j : Nat) :
    (b.setRange start n).test j = (decide (start ≤ j ∧ j < start + n) || b.test j) := by
  unfold setRange
  induction n with
  | zero => simp
  | succ n ih =>
    rw [List.range_succ, List.foldl_concat, testSet, ih]
    split <;> rename_i last
    · simp [last]
    · congr 1
      exact decide_eq_decide.mpr (by omega)

def freeBits (b : Bitmap) (limit : Nat) : Finset Nat :=
  (Finset.range limit).filter fun i => b.test i = false

/-- The number of clear bits below the limit. -/
def freeCount (b : Bitmap) (limit : Nat) : Nat := (b.freeBits limit).card

theorem freeBitsMem {b : Bitmap} {limit i} :
    i ∈ b.freeBits limit ↔ i < limit ∧ b.test i = false := by
  simp [freeBits]

theorem freeCountSetRange {b : Bitmap} {limit start n} (inside : start + n ≤ limit)
    (free : ∀ i, start ≤ i → i < start + n → b.test i = false) :
    (b.setRange start n).freeCount limit + n = b.freeCount limit := by
  have parts : b.freeBits limit =
      (b.setRange start n).freeBits limit ∪ Finset.Ico start (start + n) := by
    ext i
    rw [Finset.mem_union, freeBitsMem, freeBitsMem, Finset.mem_Ico, testSetRange]
    by_cases within : start ≤ i ∧ i < start + n
    · have below : i < limit := by omega
      simp [within, below, free i within.1 within.2]
    · simp [within]
  have apart : Disjoint ((b.setRange start n).freeBits limit) (Finset.Ico start (start + n)) := by
    rw [Finset.disjoint_left]
    intro i member within
    rw [freeBitsMem, testSetRange] at member
    simp [Finset.mem_Ico.mp within] at member
  unfold freeCount
  rw [parts, Finset.card_union_of_disjoint apart, Nat.card_Ico]
  omega

theorem freeCountClear {b : Bitmap} {limit i} (inside : i < limit) (taken : b.test i = true) :
    (b.clear i).freeCount limit = b.freeCount limit + 1 := by
  have parts : (b.clear i).freeBits limit = insert i (b.freeBits limit) := by
    ext j
    rw [Finset.mem_insert, freeBitsMem, freeBitsMem, testClear]
    by_cases same : j = i
    · simp [same, inside]
    · simp [same]
  have fresh : i ∉ b.freeBits limit := by
    rw [freeBitsMem, taken]
    simp
  unfold freeCount
  rw [parts, Finset.card_insert_of_notMem fresh]

def clearRange (b : Bitmap) (start n : Nat) : Bitmap :=
  (List.range n).foldl (fun b i => b.clear (start + i)) b

theorem testClearRange (b : Bitmap) (start n j : Nat) :
    (b.clearRange start n).test j = (!decide (start ≤ j ∧ j < start + n) && b.test j) := by
  unfold clearRange
  induction n with
  | zero =>
    rw [decide_eq_false (by omega)]
    rfl
  | succ n ih =>
    rw [List.range_succ, List.foldl_concat, testClear, ih]
    split <;> rename_i last
    · simp [last]
    · congr 2
      exact decide_eq_decide.mpr (by omega)

theorem freeCountClearRange {b : Bitmap} {limit start n} (inside : start + n ≤ limit)
    (taken : ∀ i, start ≤ i → i < start + n → b.test i = true) :
    (b.clearRange start n).freeCount limit = b.freeCount limit + n := by
  induction n with
  | zero => rfl
  | succ n ih =>
    have last := taken (start + n) (by omega) (by omega)
    have before := ih (by omega) fun i low high => taken i low (by omega)
    have set : (b.clearRange start n).test (start + n) = true := by
      rw [testClearRange, last]
      simp
    have step : b.clearRange start (n + 1) = (b.clearRange start n).clear (start + n) := by
      unfold clearRange
      rw [List.range_succ, List.foldl_concat]
    rw [step, freeCountClear (by omega) set, before, Nat.add_assoc]

end Bitmap
end Scepter
