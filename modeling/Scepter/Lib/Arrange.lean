import Mathlib.Logic.Equiv.Basic
import Mathlib.Data.List.Perm.Basic
import Mathlib.Data.List.Nodup

/-! Values at places, moved among the places of a range, and put in order there. -/
namespace Scepter.Arrange

variable {α : Type} {f g h : Nat → α} {lo hi : Nat}

/-- `g` has the values of `f` between `lo` and `hi` at other places there, and the rest at its
own. -/
def Moved (lo hi : Nat) (f g : Nat → α) : Prop :=
  ∃ place : Equiv.Perm Nat, (∀ k, ¬(lo ≤ k ∧ k < hi) → place k = k) ∧ ∀ k, g k = f (place k)

theorem Moved.refl (lo hi : Nat) (f : Nat → α) : Moved lo hi f f :=
  ⟨Equiv.refl Nat, fun _ _ => rfl, fun _ => rfl⟩

theorem Moved.trans (first : Moved lo hi f g) (second : Moved lo hi g h) : Moved lo hi f h := by
  obtain ⟨place, fixed, from'⟩ := first
  obtain ⟨next, fixed', then'⟩ := second
  refine ⟨next.trans place, ?_, ?_⟩
  · intro k outside
    rw [Equiv.trans_apply, fixed' k outside, fixed k outside]
  · intro k
    rw [then' k, from' (next k), Equiv.trans_apply]

theorem Moved.widen {lo' hi' : Nat} (moved : Moved lo hi f g) (low : lo' ≤ lo) (high : hi ≤ hi') :
    Moved lo' hi' f g := by
  obtain ⟨place, fixed, from'⟩ := moved
  exact ⟨place, fun k outside => fixed k (by omega), from'⟩

theorem Moved.outside (moved : Moved lo hi f g) {k : Nat} (outside : ¬(lo ≤ k ∧ k < hi)) :
    g k = f k := by
  obtain ⟨place, fixed, from'⟩ := moved
  rw [from' k, fixed k outside]

theorem Moved.swap {a b : Nat} (first : lo ≤ a ∧ a < hi) (second : lo ≤ b ∧ b < hi)
    (swapped : ∀ k, g k = f (Equiv.swap a b k)) : Moved lo hi f g :=
  ⟨Equiv.swap a b, fun k outside => Equiv.swap_apply_of_ne_of_ne (by rintro rfl; exact outside first)
    (by rintro rfl; exact outside second), swapped⟩

theorem Moved.all (moved : Moved lo hi f g) {p : α → Prop} (all : ∀ k, lo ≤ k → k < hi → p (f k)) :
    ∀ k, lo ≤ k → k < hi → p (g k) := by
  obtain ⟨place, fixed, from'⟩ := moved
  intro k low high
  rw [from' k]
  by_cases inside : lo ≤ place k ∧ place k < hi
  · exact all _ inside.1 inside.2
  · have same : place k = k := place.injective (fixed _ inside)
    rw [same]
    exact all k low high

theorem Moved.perm {n : Nat} (moved : Moved 0 n f g) :
    ((List.range n).map g).Perm ((List.range n).map f) := by
  obtain ⟨place, fixed, from'⟩ := moved
  have places : ((List.range n).map place).Perm (List.range n) := by
    refine (List.perm_ext_iff_of_nodup (List.nodup_range.map place.injective) List.nodup_range).mpr ?_
    intro k
    rw [List.mem_map, List.mem_range]
    constructor
    · rintro ⟨l, inside, rfl⟩
      by_contra outside
      have same := place.injective (fixed _ fun range => outside range.2)
      rw [same] at outside
      exact outside (List.mem_range.mp inside)
    · intro inside
      refine ⟨place.symm k, List.mem_range.mpr ?_, place.apply_symm_apply k⟩
      by_contra outside
      have same := fixed _ fun range => outside range.2
      rw [place.apply_symm_apply] at same
      rw [← same] at outside
      exact outside inside
  rw [show (List.range n).map g = ((List.range n).map place).map f by
    rw [List.map_map]; exact List.map_congr_left fun k _ => from' k]
  exact places.map f

def Ascending (le : α → α → Prop) (lo hi : Nat) (f : Nat → α) : Prop :=
  ∀ k l, lo ≤ k → k < l → l < hi → le (f k) (f l)

variable {le : α → α → Prop}

theorem Ascending.congr (ascending : Ascending le lo hi f) (same : ∀ k, lo ≤ k → k < hi → g k = f k) :
    Ascending le lo hi g := by
  intro k l low order high
  rw [same k low (by omega), same l (by omega) high]
  exact ascending k l low order high

theorem Ascending.join (mid : Nat) (left : Ascending le lo mid f) (right : Ascending le (mid + 1) hi f)
    (below : ∀ k, lo ≤ k → k < mid → le (f k) (f mid))
    (above : ∀ k, mid + 1 ≤ k → k < hi → le (f mid) (f k))
    (trans : ∀ k l, lo ≤ k → l < hi → le (f k) (f mid) → le (f mid) (f l) → le (f k) (f l)) :
    Ascending le lo hi f := by
  intro k l low order high
  rcases Nat.lt_trichotomy k mid with before | rfl | after
  · rcases Nat.lt_trichotomy l mid with before' | rfl | after'
    · exact left k l low order before'
    · exact below k low before
    · exact trans k l low high (below k low before) (above l after' high)
  · exact above l order high
  · exact right k l after order high

theorem Ascending.pairwise {n : Nat} (ascending : Ascending le 0 n f) :
    ((List.range n).map f).Pairwise le := by
  rw [List.pairwise_map]
  refine List.Pairwise.imp_of_mem ?_ List.pairwise_lt_range
  intro k l _ inside order
  exact ascending k l (Nat.zero_le k) order (List.mem_range.mp inside)

end Scepter.Arrange
