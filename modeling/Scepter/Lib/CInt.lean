import Mathlib.Algebra.Group.Int.Defs
import Mathlib.Data.Int.Init

/-! 32-bit arithmetic as wrapped arithmetic of integers, and division that rounds to zero. -/
namespace Scepter.CInt

def int (x : Int) : Int := (x + 2 ^ 31) % 2 ^ 32 - 2 ^ 31

def unsigned (x : Int) : Int := x % 2 ^ 32

def IsInt (x : Int) : Prop := -2 ^ 31 ≤ x ∧ x < 2 ^ 31
instance (x) : Decidable (IsInt x) := by unfold IsInt; infer_instance

variable {x y : Int}

theorem intFits (low : -2 ^ 31 ≤ x) (high : x < 2 ^ 31) : int x = x := by
  unfold int
  omega

theorem intIsInt (x : Int) : IsInt (int x) := by
  unfold IsInt int
  omega

theorem IsInt.int (fits : IsInt x) : int x = x := intFits fits.1 fits.2

theorem intSub (x y : Int) : int (int x - int y) = int (x - y) := by
  unfold int
  omega

theorem intSubRight (x y : Int) : int (x - int y) = int (x - y) := by
  unfold int
  omega

theorem intAdd (x y : Int) : int (x + int y) = int (x + y) := by
  unfold int
  omega

theorem intUnsigned (x : Int) : int (unsigned x) = int x := by
  unfold int unsigned
  omega

theorem unsignedInt (x : Int) : unsigned (int x) = unsigned x := by
  unfold int unsigned
  omega

theorem unsignedAdd (x y : Int) : unsigned (x + unsigned y) = unsigned (x + y) := by
  unfold unsigned
  omega

theorem unsignedAddLeft (x y : Int) : unsigned (unsigned x + y) = unsigned (x + y) :=
  Int.emod_add_emod x _ y

theorem unsignedMulLeft (x y : Int) : unsigned (unsigned x * y) = unsigned (x * y) := by
  unfold unsigned
  rw [Int.mul_emod, Int.emod_emod_of_dvd x (Int.dvd_refl _), ← Int.mul_emod]

theorem unsignedFits (low : 0 ≤ x) (high : x < 2 ^ 32) : unsigned x = x := by
  unfold unsigned
  omega

theorem tdivSplit (x n : Int) : x.tdiv n = if 0 ≤ x then x / n else -(-x / n) := by
  split <;> rename_i sign
  · exact Int.tdiv_eq_ediv_of_nonneg sign
  · rw [← Int.tdiv_eq_ediv_of_nonneg (by omega), Int.neg_tdiv, Int.neg_neg]

theorem tmodSplit (x n : Int) : x.tmod n = if 0 ≤ x then x % n else -(-x % n) := by
  split <;> rename_i sign
  · exact Int.tmod_eq_emod_of_nonneg sign
  · rw [← Int.tmod_eq_emod_of_nonneg (by omega), Int.neg_tmod, Int.neg_neg]

end Scepter.CInt
