import Mathlib.Algebra.Group.Nat.Defs
import Mathlib.Logic.Function.Basic
import Mathlib.Tactic.Basic

/-! Single bits of words, and sets of numbers packed in words: number `i` is bit
`i % w` of word `i / w`. -/
namespace Scepter.Bits

variable {w : Nat}

theorem maskClear (x : BitVec w) {i : Nat} (small : i < w) :
    x &&& (1#w <<< i) = 0#w ↔ x.getLsbD i = false := by
  constructor
  · intro zero
    have clear := congrArg (fun y => y.getLsbD i) zero
    simpa [small, Nat.zero_lt_of_lt small] using clear
  · intro clear
    apply BitVec.eq_of_getLsbD_eq
    intro j _
    by_cases same : j = i
    · subst same
      simp [clear]
    · have apart : ¬ (i ≤ j ∧ j ≤ i) := by omega
      simp only [BitVec.getLsbD_and, BitVec.getLsbD_shiftLeft, BitVec.getLsbD_one,
        BitVec.getLsbD_zero]
      grind

theorem bitSet (x : BitVec w) (i : Nat) {j : Nat} (small : j < w) :
    (x ||| (1#w <<< i)).getLsbD j = if j = i then true else x.getLsbD j := by
  by_cases same : j = i
  · subst same
    simp [small]
  · have differ : ¬ (j ≤ i ∧ i ≤ j) := by omega
    simp only [BitVec.getLsbD_or, BitVec.getLsbD_shiftLeft, BitVec.getLsbD_one, if_neg same]
    grind

theorem bitUnset (x : BitVec w) (i : Nat) {j : Nat} (small : j < w) :
    (x &&& ~~~(1#w <<< i)).getLsbD j = if j = i then false else x.getLsbD j := by
  by_cases same : j = i
  · subst same
    simp [small]
  · have differ : ¬ (j ≤ i ∧ i ≤ j) := by omega
    simp only [BitVec.getLsbD_and, BitVec.getLsbD_not, BitVec.getLsbD_shiftLeft,
      BitVec.getLsbD_one, if_neg same]
    grind

theorem samePlace {i j : Nat} (word : j / w = i / w) : j % w = i % w ↔ j = i := by
  refine ⟨fun bit => ?_, fun same => by rw [same]⟩
  rw [← Nat.div_add_mod j w, ← Nat.div_add_mod i w, word, bit]

theorem packedSet (pos : 0 < w) (words : Nat → BitVec w) (i j : Nat) :
    (Function.update words (i / w) (words (i / w) ||| (1#w <<< (i % w))) (j / w)).getLsbD (j % w) =
      if j = i then true else (words (j / w)).getLsbD (j % w) := by
  by_cases word : j / w = i / w
  · rw [word, Function.update_self, bitSet _ _ (Nat.mod_lt _ pos)]
    simp only [samePlace word]
  · rw [Function.update_of_ne word, if_neg fun same => word (by rw [same])]

theorem packedUnset (pos : 0 < w) (words : Nat → BitVec w) (i j : Nat) :
    (Function.update words (i / w) (words (i / w) &&& ~~~(1#w <<< (i % w))) (j / w)).getLsbD
        (j % w) = if j = i then false else (words (j / w)).getLsbD (j % w) := by
  by_cases word : j / w = i / w
  · rw [word, Function.update_self, bitUnset _ _ (Nat.mod_lt _ pos)]
    simp only [samePlace word]
  · rw [Function.update_of_ne word, if_neg fun same => word (by rw [same])]

end Scepter.Bits
