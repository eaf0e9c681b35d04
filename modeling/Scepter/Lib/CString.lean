import Scepter.Lib.Path
import Mathlib.Data.List.GetD
import Mathlib.Logic.Function.Basic

/-! NUL-terminated strings in a memory of characters: what a memory holds at an address, what
is read back there, and which stores leave it alone. -/
namespace Scepter.CString
open Path (Str)

abbrev Mem := Nat → Char

def NUL : Char := '\x00'

def Holds (m : Mem) (p : Nat) : Str → Prop
  | [] => m p = NUL
  | c :: rest => m p = c ∧ c ≠ NUL ∧ Holds m (p + 1) rest

def read (m : Mem) : Nat → Nat → Str
  | 0, _ => []
  | n + 1, p => if m p = NUL then [] else m p :: read m n (p + 1)

def ofStr (s : Str) : Mem := fun p => s.getD p NUL

variable {m m' : Mem} {p q n : Nat} {s t : Str} {c : Char}

theorem Holds.nil (held : Holds m p []) : m p = NUL := held

theorem Holds.head (held : Holds m p (c :: s)) : m p = c := held.1

theorem Holds.headNul (held : Holds m p (c :: s)) : m p ≠ NUL := held.1.symm ▸ held.2.1

theorem Holds.tail (held : Holds m p (c :: s)) : Holds m (p + 1) s := held.2.2

theorem Holds.frame (held : Holds m p s) (same : ∀ k, p ≤ k → k ≤ p + s.length → m' k = m k) :
    Holds m' p s := by
  induction s generalizing p with
  | nil => exact (same p (Nat.le_refl p) (Nat.le_refl p)).trans held
  | cons c rest ih =>
    rw [List.length_cons] at same
    exact ⟨(same p (Nat.le_refl p) (by omega)).trans held.1, held.2.1,
      ih held.2.2 fun k above below => same k (by omega) (by omega)⟩

theorem Holds.congr (held : Holds m p s) (same : ∀ k, p ≤ k → m' k = m k) : Holds m' p s :=
  held.frame fun k above _ => same k above

theorem Holds.update (held : Holds m p s) (below : q < p) :
    Holds (Function.update m q c) p s :=
  held.congr fun _ above => Function.update_of_ne (by omega) ..

theorem Holds.read (held : Holds m p s) (long : s.length ≤ n) : read m n p = s := by
  induction s generalizing p n with
  | nil =>
    cases n with
    | zero => rfl
    | succ n => exact if_pos held
  | cons c rest ih =>
    rw [List.length_cons] at long
    obtain ⟨k, rfl⟩ : ∃ k, n = k + 1 := ⟨n - 1, by omega⟩
    unfold CString.read
    rw [if_neg held.headNul, held.head, ih held.tail (by omega)]

theorem Holds.drop {more : Str} (held : Holds m p (s ++ more)) : Holds m (p + s.length) more := by
  induction s generalizing p with
  | nil => exact held
  | cons c rest ih =>
    have later := ih held.tail
    rwa [Nat.add_assoc, Nat.add_comm 1] at later

theorem Holds.cut {more : Str} (held : Holds m p (s ++ more)) :
    Holds (Function.update m (p + s.length) NUL) p s := by
  induction s generalizing p with
  | nil => exact Function.update_self ..
  | cons c rest ih =>
    have later := ih held.tail
    rw [Nat.add_assoc, Nat.add_comm 1] at later
    refine ⟨?_, held.2.1, later⟩
    rw [Function.update_of_ne (by rw [List.length_cons]; omega), held.head]

theorem Holds.clean (held : Holds m p s) : NUL ∉ s := by
  induction s generalizing p with
  | nil => exact List.not_mem_nil
  | cons c rest ih =>
    intro member
    rcases List.mem_cons.mp member with same | later
    · exact held.2.1 same.symm
    · exact ih held.tail later

theorem ofStrHolds {s : Str} (clean : NUL ∉ s) : Holds (ofStr s) 0 s := by
  have each : ∀ a, Holds (ofStr (a ++ s)) a.length s := by
    induction s with
    | nil =>
      intro a
      show (a ++ []).getD a.length NUL = NUL
      rw [List.append_nil, List.getD_eq_default _ _ (Nat.le_refl _)]
    | cons c rest ih =>
      intro a
      obtain ⟨other, clean⟩ := not_or.mp (mt List.mem_cons.mpr clean)
      have later := ih clean (a ++ [c])
      rw [List.append_assoc, List.length_append] at later
      refine ⟨?_, fun nul => other nul.symm, later⟩
      show (a ++ c :: rest).getD a.length NUL = c
      rw [List.getD_append_right _ _ _ _ (Nat.le_refl _), Nat.sub_self]
      rfl
  exact each []

end Scepter.CString
