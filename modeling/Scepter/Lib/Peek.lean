import Scepter.Lib.Bytes

/-! Programs that only read a byte memory. Each comes with the places it reads, so that
`Within` says a program stays inside the first bytes of the memory. -/
namespace Scepter

def Peek (α : Type) : Type := Buf → α × List Nat

namespace Peek

variable {α β : Type} {m : Buf} {n : Nat}

instance : Monad Peek where
  pure a := fun _ => (a, [])
  bind p f := fun m => ((f (p m).1 m).1, (p m).2 ++ (f (p m).1 m).2)

def value (p : Peek α) (m : Buf) : α := (p m).1

def Within (n : Nat) (p : Peek α) (m : Buf) : Prop := ∀ a ∈ (p m).2, a < n

instance (n : Nat) (p : Peek α) (m : Buf) : Decidable (Within n p m) := by
  unfold Within; infer_instance

def byte (a : Nat) : Peek Byte := fun m => (m a, [a])

/-- The `n` bytes from `a` on, as a buffer of their own. -/
def take (a n : Nat) : Peek Buf := fun m => (fun i => m (a + i), List.range' a n)

def be16 (a : Nat) : Peek Nat := fun m => (256 * (m a).toNat + (m (a + 1)).toNat, [a, a + 1])

def le16 (a : Nat) : Peek Nat := fun m => ((m a).toNat + 256 * (m (a + 1)).toNat, [a, a + 1])

def same (a : Nat) (other : Buf) (o : Nat) : Nat → Peek Bool
  | 0 => pure true
  | k + 1 => do
    if (← byte a) ≠ other o then return false
    same (a + 1) other (o + 1) k

section values

/-! Not stated by rfl: a rewrite below a condition has to change its instance too. -/

@[simp] theorem valuePure (a : α) : (pure a : Peek α).value m = a := by
  unfold value
  rfl

@[simp] theorem valueBind (p : Peek α) (f : α → Peek β) :
    (p >>= f).value m = (f (p.value m)).value m := by
  unfold value
  rfl

@[simp] theorem valueByte (a : Nat) : (byte a).value m = m a := by
  unfold value
  rfl

@[simp] theorem valueTake (a k : Nat) : (take a k).value m = fun i => m (a + i) := by
  unfold value
  rfl

@[simp] theorem valueBe16 (a : Nat) :
    (be16 a).value m = 256 * (m a).toNat + (m (a + 1)).toNat := by
  unfold value
  rfl

@[simp] theorem valueLe16 (a : Nat) :
    (le16 a).value m = (m a).toNat + 256 * (m (a + 1)).toNat := by
  unfold value
  rfl

@[simp] theorem valueIte {c : Prop} [Decidable c] (p q : Peek α) :
    (if c then p else q).value m = if c then p.value m else q.value m := by
  split <;> rfl

end values

theorem valueSame {a : Nat} {other : Buf} {o k : Nat} :
    (same a other o k).value m = true ↔ ∀ i < k, m (a + i) = other (o + i) := by
  induction k generalizing a o with
  | zero => simp [same]
  | succ k ih =>
    unfold same
    simp only [valueBind, valueIte, valueByte, valuePure]
    by_cases first : m a = other o
    · rw [if_neg (not_not_intro first), ih]
      constructor
      · intro rest i small
        cases i with
        | zero => exact first
        | succ i =>
          have := rest i (by omega)
          rwa [Nat.add_assoc, Nat.add_comm 1, Nat.add_assoc, Nat.add_comm 1] at this
      · intro all i small
        have := all (i + 1) (by omega)
        rwa [Nat.add_assoc, Nat.add_comm 1, Nat.add_assoc, Nat.add_comm 1]
    · rw [if_pos first]
      constructor
      · exact fun absurd' => nomatch absurd'
      · exact fun all => absurd (all 0 (by omega)) first

section places

@[simp] theorem withinPure (a : α) : Within n (pure a) m ↔ True :=
  iff_true_intro fun _ member => nomatch member

@[simp] theorem withinByte {a : Nat} : Within n (byte a) m ↔ a < n := by
  simp [Within, byte]

@[simp] theorem withinBe16 {a : Nat} : Within n (be16 a) m ↔ a + 1 < n := by
  simp only [Within, be16, List.mem_cons, List.not_mem_nil, or_false, forall_eq_or_imp, forall_eq]
  omega

@[simp] theorem withinLe16 {a : Nat} : Within n (le16 a) m ↔ a + 1 < n := by
  simp only [Within, le16, List.mem_cons, List.not_mem_nil, or_false, forall_eq_or_imp, forall_eq]
  omega

theorem withinTake {a k : Nat} (inside : a + k ≤ n) : Within n (take a k) m := by
  intro b member
  have := List.mem_range'_1.mp member
  omega

@[simp] theorem withinBind (p : Peek α) (f : α → Peek β) :
    Within n (p >>= f) m ↔ Within n p m ∧ Within n (f (p.value m)) m :=
  List.forall_mem_append

@[simp] theorem withinIte {c : Prop} [Decidable c] (p q : Peek α) :
    Within n (if c then p else q) m ↔ if c then Within n p m else Within n q m := by
  split <;> rfl

theorem withinSame {a : Nat} (other : Buf) (o : Nat) {k : Nat} (inside : a + k ≤ n) :
    Within n (same a other o k) m := by
  induction k generalizing a o with
  | zero => exact (withinPure true).mpr trivial
  | succ k ih =>
    unfold same
    rw [withinBind, withinByte, withinIte]
    refine ⟨by omega, ?_⟩
    split
    · exact (withinPure false).mpr trivial
    · exact ih (o + 1) (by omega)

theorem sameReads {a : Nat} {other : Buf} {o k : Nat} (some_ : 0 < k)
    (equal : (same a other o k).value m = true) (within : Within n (same a other o k) m) :
    a + k ≤ n := by
  induction k generalizing a o with
  | zero => cases some_
  | succ k ih =>
    have first : m a = other o := valueSame.mp equal 0 (by omega)
    unfold same at within equal
    rw [withinBind, withinByte, withinIte, valueByte, if_neg (not_not_intro first)] at within
    rw [valueBind, valueIte, valueByte, if_neg (not_not_intro first)] at equal
    rcases Nat.eq_zero_or_pos k with rfl | more
    · exact within.1
    · have := ih more equal within.2
      omega

theorem withinSameIff {a : Nat} {other : Buf} {o k : Nat} (some_ : 0 < k) :
    Within n (same a other o k) m ↔
      a + k ≤ n ∨ ∃ i < k, a + i < n ∧ m (a + i) ≠ other (o + i) := by
  induction k generalizing a o with
  | zero => cases some_
  | succ k ih =>
    unfold same
    rw [withinBind, withinByte, withinIte, valueByte]
    by_cases differs : m a = other o
    · rw [if_neg (not_not_intro differs)]
      rcases Nat.eq_zero_or_pos k with rfl | more
      · simp only [same, withinPure, and_true]
        constructor
        · exact fun inside => .inl inside
        · rintro (inside | ⟨i, small, inside, _⟩) <;> omega
      · rw [ih more]
        constructor
        · rintro ⟨_, inside | ⟨i, small, inside, apart⟩⟩
          · exact .inl (by omega)
          · refine .inr ⟨i + 1, by omega, by omega, ?_⟩
            rwa [show a + (i + 1) = a + 1 + i by omega, show o + (i + 1) = o + 1 + i by omega]
        · rintro (inside | ⟨i, small, inside, apart⟩)
          · exact ⟨by omega, .inl (by omega)⟩
          · cases i with
            | zero => exact absurd differs apart
            | succ i =>
              refine ⟨by omega, .inr ⟨i, by omega, by omega, ?_⟩⟩
              rwa [show a + 1 + i = a + (i + 1) by omega, show o + 1 + i = o + (i + 1) by omega]
    · rw [if_pos differs]
      simp only [withinPure, and_true]
      constructor
      · exact fun inside => .inr ⟨0, by omega, inside, differs⟩
      · rintro (inside | ⟨i, small, inside, _⟩) <;> omega

end places

end Peek
end Scepter
