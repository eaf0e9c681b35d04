import Mathlib.Data.List.Nodup

/-! A least-recently-used cache: a list of keyed entries, the most recently used
one first. An insertion replaces the entry of its key, or drops the last entry
of a full list; it may then still find no room for a new one. -/
namespace Scepter.Lru

variable {κ α : Type} [DecidableEq κ]

def find (k : κ) (c : List (κ × α)) : Option (κ × α) := c.find? fun e => e.1 = k

def remove (k : κ) (c : List (κ × α)) : List (κ × α) := c.eraseP fun e => e.1 = k

def lookup (c : List (κ × α)) (k : κ) : Option (α × List (κ × α)) :=
  (find k c).map fun e => (e.2, e :: remove k c)

def insert (limit : Nat) (room : Bool) (c : List (κ × α)) (k : κ) (v : α) : List (κ × α) :=
  match find k c with
  | some _ => (k, v) :: remove k c
  | none =>
    let c := if c.length ≥ limit then c.dropLast else c
    if room then (k, v) :: c else c

def Unique (c : List (κ × α)) : Prop := (c.map Prod.fst).Nodup

omit [DecidableEq κ] in
theorem uniqueNil : Unique ([] : List (κ × α)) := List.nodup_nil

theorem findSome {c : List (κ × α)} {k e} (found : find k c = some e) : e ∈ c ∧ e.1 = k :=
  ⟨List.mem_of_find?_eq_some found, by simpa using List.find?_some found⟩

theorem removeMem {c : List (κ × α)} (unique : Unique c) {k e} :
    e ∈ remove k c ↔ e ∈ c ∧ e.1 ≠ k := by
  unfold remove
  induction c with
  | nil => simp
  | cons head rest ih =>
    obtain ⟨fresh, unique⟩ := List.nodup_cons.mp unique
    rw [List.eraseP_cons]
    by_cases same : head.1 = k
    · have away : ∀ e ∈ rest, e.1 ≠ k := fun e member equal =>
        fresh (List.mem_map.mpr ⟨e, member, equal.trans same.symm⟩)
      simp only [same, decide_true, cond_true, List.mem_cons]
      constructor
      · exact fun member => ⟨Or.inr member, away e member⟩
      · rintro ⟨rfl | member, other⟩
        · exact absurd same other
        · exact member
    · simp only [same, decide_false, cond_false, List.mem_cons, ih unique]
      constructor
      · rintro (rfl | ⟨member, other⟩)
        · exact ⟨Or.inl rfl, same⟩
        · exact ⟨Or.inr member, other⟩
      · rintro ⟨rfl | member, other⟩
        · exact Or.inl rfl
        · exact Or.inr ⟨member, other⟩

theorem removeUnique {c : List (κ × α)} (unique : Unique c) (k : κ) : Unique (remove k c) :=
  unique.sublist (List.eraseP_sublist.map Prod.fst)

theorem frontUnique {c : List (κ × α)} (unique : Unique c) (k : κ) (v : α) :
    Unique ((k, v) :: remove k c) := by
  refine List.nodup_cons.mpr ⟨fun again => ?_, removeUnique unique k⟩
  obtain ⟨e, member, same⟩ := List.mem_map.mp again
  exact ((removeMem unique).mp member).2 same

theorem lookupSome {c : List (κ × α)} (unique : Unique c) {k v c'}
    (hit : lookup c k = some (v, c')) :
    (k, v) ∈ c ∧ Unique c' ∧ ∀ e, e ∈ c' ↔ e ∈ c := by
  obtain ⟨e, found, same⟩ := Option.map_eq_some_iff.mp hit
  obtain ⟨member, rfl⟩ := findSome found
  cases same
  refine ⟨member, frontUnique unique _ _, fun x => ?_⟩
  rw [List.mem_cons, removeMem unique]
  constructor
  · rintro (rfl | ⟨old, _⟩)
    · exact member
    · exact old
  · intro old
    by_cases key : x.1 = e.1
    · exact Or.inl (List.inj_on_of_nodup_map unique old member key)
    · exact Or.inr ⟨old, key⟩

theorem insertMem {c : List (κ × α)} (unique : Unique c) {limit room k v e}
    (member : e ∈ insert limit room c k v) : e = (k, v) ∨ e ∈ c ∧ e.1 ≠ k := by
  unfold insert at member
  split at member <;> rename_i found
  · rcases List.mem_cons.mp member with rfl | old
    · exact Or.inl rfl
    · exact Or.inr ((removeMem unique).mp old)
  · have away : ∀ e ∈ c, e.1 ≠ k := fun e old same => by
      have never := List.find?_eq_none.mp found e old
      simp [same] at never
    have kept : ∀ e ∈ (if c.length ≥ limit then c.dropLast else c), e ∈ c ∧ e.1 ≠ k := by
      intro e old
      split at old
      · exact ⟨List.dropLast_subset c old, away e (List.dropLast_subset c old)⟩
      · exact ⟨old, away e old⟩
    dsimp only at member
    split at member
    · rcases List.mem_cons.mp member with rfl | old
      · exact Or.inl rfl
      · exact Or.inr (kept e old)
    · exact Or.inr (kept e member)

theorem insertUnique {c : List (κ × α)} (unique : Unique c) (limit room) (k : κ) (v : α) :
    Unique (insert limit room c k v) := by
  unfold insert
  split <;> rename_i found
  · exact frontUnique unique k v
  · have shorter : (if c.length ≥ limit then c.dropLast else c).Sublist c := by
      split
      · exact List.dropLast_sublist c
      · exact List.Sublist.refl c
    have unique' : Unique (if c.length ≥ limit then c.dropLast else c) :=
      unique.sublist (shorter.map Prod.fst)
    dsimp only
    split
    · refine List.nodup_cons.mpr ⟨fun again => ?_, unique'⟩
      obtain ⟨e, member, same⟩ := List.mem_map.mp again
      have never := List.find?_eq_none.mp found e (shorter.subset member)
      simp [same] at never
    · exact unique'

end Scepter.Lru
