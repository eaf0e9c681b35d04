import Scepter.Lib.Bytes
import Mathlib.Tactic.Ring

/-! Sums of big-endian 16-bit words in ones' complement. Folding the carries back into a
sum keeps it modulo 65535, and of the two zeros only an empty sum folds to 0. -/
namespace Scepter.OnesSum

def beWord (buf : Buf) (o : Nat) : Nat := 256 * (buf o).toNat + (buf (o + 1)).toNat

def wordSum (buf : Buf) (o : Nat) : Nat → Nat
  | 0 => 0
  | 1 => 256 * (buf o).toNat
  | n + 2 => beWord buf o + wordSum buf (o + 2) n

def fold (sum : Nat) : Nat :=
  if sum / 65536 = 0 then sum else fold (sum % 65536 + sum / 65536)
termination_by sum
decreasing_by omega

theorem foldEq (sum : Nat) : fold sum = if sum = 0 then 0 else (sum - 1) % 65535 + 1 := by
  induction sum using fold.induct with
  | case1 sum small =>
    rw [fold, if_pos small]
    split <;> omega
  | case2 sum large ih =>
    rw [fold, if_neg large, ih]
    split <;> split <;> omega

theorem foldComplement (sum : Nat) : fold (sum + (65535 - fold sum)) = 65535 := by
  rw [foldEq, foldEq]
  split <;> split <;> omega

theorem beWordLt (buf : Buf) (o : Nat) : beWord buf o < 65536 := by
  have := (buf o).isLt
  have := (buf (o + 1)).isLt
  unfold beWord
  omega

theorem wordSumCongr {a b : Buf} {o p n : Nat} (same : ∀ i < n, a (o + i) = b (p + i)) :
    wordSum a o n = wordSum b p n := by
  induction n using Nat.twoStepInduction generalizing o p with
  | zero => rfl
  | one =>
    have first := same 0 (by omega)
    simp only [Nat.add_zero] at first
    simp only [wordSum, first]
  | more n ih =>
    have first := same 0 (by omega)
    have second := same 1 (by omega)
    simp only [Nat.add_zero] at first
    have rest := ih (o := o + 2) (p := p + 2) fun i small => by
      have := same (i + 2) (by omega)
      rwa [Nat.add_assoc, Nat.add_assoc, Nat.add_comm 2]
    simp only [wordSum, beWord, first, second, rest]

theorem beWordCongr {a b : Buf} {o p : Nat} (high : a o = b p) (low : a (o + 1) = b (p + 1)) :
    beWord a o = beWord b p := by
  unfold beWord
  rw [high, low]

theorem wordSumSwap {a b : Buf} {o k n : Nat} (inside : 2 * k + 2 ≤ n)
    (same : ∀ p, p < o + 2 * k ∨ o + 2 * k + 2 ≤ p → a p = b p) :
    wordSum a o n + beWord b (o + 2 * k) = wordSum b o n + beWord a (o + 2 * k) := by
  induction k generalizing o n with
  | zero =>
    obtain ⟨n, rfl⟩ := Nat.exists_eq_add_of_le' inside
    have rest : wordSum a (o + 2) n = wordSum b (o + 2) n :=
      wordSumCongr fun i _ => same (o + 2 + i) (by omega)
    simp only [wordSum, rest]
    simp only [Nat.mul_zero, Nat.add_zero]
    omega
  | succ k ih =>
    obtain ⟨n, rfl⟩ := Nat.exists_eq_add_of_le' (show 2 ≤ n by omega)
    have rest := ih (o := o + 2) (n := n) (by omega) fun p apart => same p (by omega)
    have first : beWord a o = beWord b o := beWordCongr (same o (by omega)) (same (o + 1) (by omega))
    rw [show o + 2 + 2 * k = o + 2 * (k + 1) by omega] at rest
    simp only [wordSum, first]
    omega

theorem foldWithout {sum old : Nat} (large : old ≤ sum) (small : old < 65536)
    {without : Nat} (taken : without + old = sum + (65535 - fold sum)) (positive : 0 < sum)
    (spare : sum ≠ 65535) : fold without = 65535 ↔ old = 0 ∨ old = 65535 := by
  rw [foldEq] at taken ⊢
  rw [if_neg (by omega)] at taken
  split <;> omega

end Scepter.OnesSum
