import Mathlib.Data.List.Basic
import Mathlib.Logic.Function.Basic

/-! Trees of pointer blocks: a row of roots and blocks whose entries point to
further blocks, 0 standing for no block. A position is a root slot and the
list of indices below it, the last step first. -/
namespace Scepter

structure PtrTree where
  root : Nat → Nat
  entry : Nat → Nat → Nat

namespace PtrTree

def nodeAt (t : PtrTree) (slot : Nat) : List Nat → Nat
  | [] => t.root slot
  | i :: up => if t.nodeAt slot up = 0 then 0 else t.entry (t.nodeAt slot up) i

theorem nodeBelow {t : PtrTree} {slot : Nat} {up : List Nat} (none_ : t.nodeAt slot up = 0)
    (i : Nat) : t.nodeAt slot (i :: up) = 0 := by
  rw [nodeAt, if_pos none_]

theorem nodeAppend {t : PtrTree} {slot : Nat} {up : List Nat} (none_ : t.nodeAt slot up = 0)
    (down : List Nat) : t.nodeAt slot (down ++ up) = 0 := by
  induction down with
  | nil => exact none_
  | cons i rest ih => exact nodeBelow ih i

def Distinct (P : Nat → List Nat → Prop) (t : PtrTree) : Prop :=
  ∀ slot path slot' path', P slot path → P slot' path' → t.nodeAt slot path ≠ 0 →
    t.nodeAt slot path = t.nodeAt slot' path' → slot = slot' ∧ path = path'

def Under (P : Nat → List Nat → Prop) (t : PtrTree) (slot : Nat) (up : List Nat) (b : Nat) : Prop :=
  ∃ path, up <:+ path ∧ P slot path ∧ b ≠ 0 ∧ t.nodeAt slot path = b

variable {P : Nat → List Nat → Prop} {t u : PtrTree}

theorem Under.above {slot b : Nat} {up path : List Nat} (under : Under P t slot path b)
    (onWay : up <:+ path) : Under P t slot up b := by
  obtain ⟨path', below, rest⟩ := under
  exact ⟨path', onWay.trans below, rest⟩

theorem noneUnder {slot b : Nat} {up : List Nat} (none_ : t.nodeAt slot up = 0) :
    ¬ Under P t slot up b := by
  rintro ⟨_, ⟨down, rfl⟩, _, nonzero, rfl⟩
  exact nonzero (nodeAppend none_ down)

theorem Distinct.meets (distinct : Distinct P t) {slot slot' b : Nat} {up up' : List Nat}
    (one : Under P t slot up b) (two : Under P t slot' up' b) :
    slot = slot' ∧ (up <:+ up' ∨ up' <:+ up) := by
  obtain ⟨path, below, pos, nonzero, rfl⟩ := one
  obtain ⟨path', below', pos', _, same⟩ := two
  obtain ⟨rfl, rfl⟩ := distinct _ _ _ _ pos pos' nonzero same.symm
  exact ⟨rfl, List.suffix_or_suffix_of_suffix below below'⟩

theorem Distinct.siblings (distinct : Distinct P t) {slot i j b : Nat} {up : List Nat}
    (one : Under P t slot (i :: up) b) (two : Under P t slot (j :: up) b) : i = j := by
  rcases (distinct.meets one two).2 with suffix | suffix
  · exact (List.cons.inj (suffix.eq_of_length rfl)).1
  · exact (List.cons.inj (suffix.eq_of_length rfl)).1.symm

theorem nodeSame (closed : ∀ slot i up, P slot (i :: up) → P slot up)
    (roots : ∀ slot, P slot [] → u.root slot = t.root slot)
    (entries : ∀ slot i up, P slot (i :: up) → t.nodeAt slot up ≠ 0 →
      u.entry (t.nodeAt slot up) i = t.entry (t.nodeAt slot up) i)
    {slot : Nat} {path : List Nat} (pos : P slot path) :
    u.nodeAt slot path = t.nodeAt slot path := by
  induction path with
  | nil => exact roots slot pos
  | cons i up ih =>
    rw [nodeAt, nodeAt, ih (closed slot i up pos)]
    split
    · rfl
    · exact entries slot i up pos ‹_›

structure Graft (P : Nat → List Nat → Prop) (t u : PtrTree) (slot : Nat) (path : List Nat)
    (f : Nat) : Prop where
  nonzero : f ≠ 0
  free : t.nodeAt slot path = 0
  fresh : ∀ slot' path', P slot' path' → t.nodeAt slot' path' ≠ f
  empty : ∀ i, u.entry f i = 0
  root : ∀ slot', P slot' [] →
    u.root slot' = if slot' = slot ∧ path = [] then f else t.root slot'
  entry : ∀ slot' i up, P slot' (i :: up) → t.nodeAt slot' up ≠ 0 →
    u.entry (t.nodeAt slot' up) i =
      if slot' = slot ∧ i :: up = path then f else t.entry (t.nodeAt slot' up) i
  -- the position hangs below a block that is there
  above : ∀ i up, path = i :: up → t.nodeAt slot up ≠ 0

/-- `u` is `t` with the block `f` hung at a free position. It is empty as far as positions
reach below it. -/
structure Hung (P : Nat → List Nat → Prop) (t u : PtrTree) (slot : Nat) (path : List Nat)
    (f : Nat) : Prop where
  nonzero : f ≠ 0
  free : t.nodeAt slot path = 0
  empty : ∀ i, P slot (i :: path) → u.entry f i = 0
  root : ∀ slot', P slot' [] →
    u.root slot' = if slot' = slot ∧ path = [] then f else t.root slot'
  entry : ∀ slot' i up, P slot' (i :: up) → t.nodeAt slot' up ≠ 0 →
    u.entry (t.nodeAt slot' up) i =
      if slot' = slot ∧ i :: up = path then f else t.entry (t.nodeAt slot' up) i
  above : ∀ i up, path = i :: up → t.nodeAt slot up ≠ 0

theorem Hung.node {slot path f} (hung : Hung P t u slot path f)
    (closed : ∀ slot i up, P slot (i :: up) → P slot up) {slot' : Nat} {path' : List Nat}
    (pos : P slot' path') :
    u.nodeAt slot' path' = if slot' = slot ∧ path' = path then f else t.nodeAt slot' path' := by
  induction path' with
  | nil =>
    rw [nodeAt, hung.root slot' pos, nodeAt]
    simp only [eq_comm]
  | cons i up ih =>
    have posUp := closed slot' i up pos
    rw [nodeAt, ih posUp]
    by_cases here : slot' = slot ∧ up = path
    · obtain ⟨rfl, rfl⟩ := here
      -- the new block has no entries, and nothing was there before
      have deeper : ¬ (slot' = slot' ∧ i :: up = up) := fun h => List.cons_ne_self i up h.2
      rw [if_pos (And.intro rfl rfl), if_neg hung.nonzero, hung.empty i pos, if_neg deeper,
        nodeBelow hung.free]
    · rw [if_neg here]
      by_cases absent : t.nodeAt slot' up = 0
      · rw [if_pos absent, nodeBelow absent, if_neg]
        rintro ⟨rfl, rfl⟩
        exact hung.above i up rfl absent
      · rw [if_neg absent, hung.entry slot' i up pos absent, nodeAt, if_neg absent]

theorem Hung.distinct {slot path f} (hung : Hung P t u slot path f)
    (closed : ∀ slot i up, P slot (i :: up) → P slot up)
    (fresh : ∀ slot' path', P slot' path' → t.nodeAt slot' path' ≠ f) (distinct : Distinct P t) :
    Distinct P u := by
  intro a p b q posA posB nonzero same
  rw [hung.node closed posA] at nonzero same
  rw [hung.node closed posB] at same
  by_cases hereA : a = slot ∧ p = path
  · by_cases hereB : b = slot ∧ q = path
    · exact ⟨hereA.1.trans hereB.1.symm, hereA.2.trans hereB.2.symm⟩
    · rw [if_pos hereA, if_neg hereB] at same
      exact absurd same.symm (fresh b q posB)
  · rw [if_neg hereA] at nonzero same
    by_cases hereB : b = slot ∧ q = path
    · rw [if_pos hereB] at same
      exact absurd same (fresh a p posA)
    · rw [if_neg hereB] at same
      exact distinct a p b q posA posB nonzero same

theorem Graft.hung {slot path f} (graft : Graft P t u slot path f) : Hung P t u slot path f :=
  ⟨graft.nonzero, graft.free, fun i _ => graft.empty i, graft.root, graft.entry, graft.above⟩

theorem Graft.node {slot path f} (graft : Graft P t u slot path f)
    (closed : ∀ slot i up, P slot (i :: up) → P slot up) {slot' : Nat} {path' : List Nat}
    (pos : P slot' path') :
    u.nodeAt slot' path' = if slot' = slot ∧ path' = path then f else t.nodeAt slot' path' :=
  graft.hung.node closed pos

theorem Graft.distinct {slot path f} (graft : Graft P t u slot path f)
    (closed : ∀ slot i up, P slot (i :: up) → P slot up) (distinct : Distinct P t) :
    Distinct P u :=
  graft.hung.distinct closed graft.fresh distinct

end PtrTree
end Scepter
