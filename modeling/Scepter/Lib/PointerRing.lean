import Mathlib.Data.List.Nodup

/-! A path follows one pointer from cell to cell. A ring is a path forth and a path back
through the same cells, both from a sentinel to itself, and a cell is linked in or out of it
by changing the pointers of its two neighbours. -/
namespace Scepter.PointerRing

variable {α : Type}

def PathOf (f : α → α) : α → List α → α → Prop
  | a, [], b => f a = b
  | a, x :: xs, b => f a = x ∧ PathOf f x xs b

structure RingOf (next prev : α → α) (head : α) (row : List α) : Prop where
  once : (head :: row).Nodup
  forth : PathOf next head row head
  back : PathOf prev head row.reverse head

variable {f g next prev next' prev' : α → α} {a b c x head : α} {xs ys zs row : List α}

theorem PathOf.first (path : PathOf f a xs b) : f a = xs.headD b := by
  cases xs with
  | nil => exact path
  | cons x xs => exact path.1

theorem PathOf.congr (path : PathOf f a xs b) (same : ∀ c ∈ a :: xs, g c = f c) : PathOf g a xs b := by
  induction xs generalizing a with
  | nil => exact (same a List.mem_cons_self).trans path
  | cons x xs ih =>
    obtain ⟨first, later⟩ := path
    exact ⟨(same a List.mem_cons_self).trans first,
      ih later fun c member => same c (List.mem_cons_of_mem a member)⟩

theorem PathOf.drop (path : PathOf f a (xs ++ ys) b) : PathOf f (xs.getLastD a) ys b := by
  induction xs generalizing a with
  | nil => exact path
  | cons x xs ih =>
    rw [List.getLastD_cons]
    exact ih path.2

/-- The rest of a path may start from another cell that points where its first cell did. -/
theorem PathOf.hop (path : PathOf f a xs b) (first : g c = f a) (same : ∀ c ∈ xs, g c = f c) :
    PathOf g c xs b := by
  cases xs with
  | nil => exact first.trans path
  | cons x xs => exact ⟨first.trans path.1, path.2.congr same⟩

theorem memLast (a : α) (xs : List α) : xs.getLastD a ∈ a :: xs := by
  rw [List.getLastD_eq_getLast?]
  cases last : xs.getLast? with
  | none => exact List.mem_cons_self
  | some z => exact List.mem_cons_of_mem a (List.mem_of_getLast? last)

/-- A path goes on in another way from a cell on. -/
theorem PathOf.splice (path : PathOf f a (xs ++ ys) b) (once : (a :: xs).Nodup)
    (rest : PathOf g (xs.getLastD a) zs b)
    (same : ∀ c ∈ a :: xs, c ≠ xs.getLastD a → g c = f c) : PathOf g a (xs ++ zs) b := by
  induction xs generalizing a with
  | nil => exact rest
  | cons y xs ih =>
    obtain ⟨first, later⟩ := path
    obtain ⟨apart, once⟩ := List.nodup_cons.mp once
    rw [List.getLastD_cons] at rest same
    have kept := same a List.mem_cons_self fun here => apart (here ▸ memLast y xs)
    exact ⟨kept.trans first,
      ih later once rest fun c member => same c (List.mem_cons_of_mem a member)⟩

theorem PathOf.insert (path : PathOf f a (xs ++ ys) b) (once : (a :: (xs ++ ys)).Nodup)
    (last : g (xs.getLastD a) = x) (new : g x = f (xs.getLastD a))
    (same : ∀ c ∈ a :: (xs ++ ys), c ≠ xs.getLastD a → g c = f c) :
    PathOf g a (xs ++ x :: ys) b := by
  obtain ⟨left, -, apart⟩ := List.nodup_append.mp (show ((a :: xs) ++ ys).Nodup from once)
  refine path.splice left ⟨last, path.drop.hop new fun c member => ?_⟩ fun c member =>
    same c (List.mem_append_left ys member)
  exact same c (List.mem_append_right (a :: xs) member) (apart _ (memLast a xs) c member).symm

theorem PathOf.remove (path : PathOf f a (xs ++ x :: ys) b) (once : (a :: (xs ++ x :: ys)).Nodup)
    (last : g (xs.getLastD a) = f x)
    (same : ∀ c ∈ a :: (xs ++ ys), c ≠ xs.getLastD a → g c = f c) :
    PathOf g a (xs ++ ys) b := by
  obtain ⟨left, -, apart⟩ := List.nodup_append.mp (show ((a :: xs) ++ x :: ys).Nodup from once)
  refine path.splice left (path.drop.2.hop last fun c member => ?_) fun c member =>
    same c (List.mem_append_left ys member)
  exact same c (List.mem_append_right (a :: xs) member)
    (apart _ (memLast a xs) c (List.mem_cons_of_mem x member)).symm

theorem headReverse : xs.reverse.headD a = xs.getLastD a := by
  rw [List.headD_eq_head?_getD, List.head?_reverse, List.getLastD_eq_getLast?]

theorem lastReverse : xs.reverse.getLastD a = xs.headD a := by
  rw [← headReverse, List.reverse_reverse]

/-! ## Rings -/

theorem RingOf.flip (ring : RingOf next prev head row) : RingOf prev next head row.reverse where
  once := by
    refine List.nodup_cons.mpr ⟨?_, List.nodup_reverse.mpr ring.once.of_cons⟩
    rw [List.mem_reverse]
    exact (List.nodup_cons.mp ring.once).1
  forth := ring.back
  back := by
    rw [List.reverse_reverse]
    exact ring.forth

theorem RingOf.first (ring : RingOf next prev head row) : next head = row.headD head := ring.forth.first

theorem RingOf.last (ring : RingOf next prev head row) : prev head = row.getLastD head :=
  ring.back.first.trans headReverse

theorem RingOf.congr (ring : RingOf next prev head row)
    (same : ∀ c ∈ head :: row, next' c = next c ∧ prev' c = prev c) :
    RingOf next' prev' head row where
  once := ring.once
  forth := ring.forth.congr fun c member => (same c member).1
  back := ring.back.congr fun c member => (same c (by simpa using member)).2

theorem RingOf.seam (ring : RingOf next prev head (xs ++ ys)) :
    next (xs.getLastD head) = ys.headD head ∧ prev (ys.headD head) = xs.getLastD head := by
  have back := ring.back
  rw [List.reverse_append] at back
  have joined := back.drop.first
  rw [lastReverse, headReverse] at joined
  exact ⟨ring.forth.drop.first, joined⟩

theorem RingOf.neighbours (ring : RingOf next prev head (xs ++ x :: ys)) :
    next x = ys.headD head ∧ prev x = xs.getLastD head := by
  have back := ring.back
  rw [List.reverse_append, List.reverse_cons, List.append_assoc] at back
  exact ⟨ring.forth.drop.2.first, back.drop.2.first.trans headReverse⟩

/-- A cell that is not in the ring is linked in between two neighbours. -/
theorem RingOf.insert (ring : RingOf next prev head (xs ++ ys)) (new : x ∉ head :: (xs ++ ys))
    (left : next' (xs.getLastD head) = x) (right : prev' (ys.headD head) = x)
    (nextNew : next' x = ys.headD head) (prevNew : prev' x = xs.getLastD head)
    (nexts : ∀ c ∈ head :: (xs ++ ys), c ≠ xs.getLastD head → next' c = next c)
    (prevs : ∀ c ∈ head :: (xs ++ ys), c ≠ ys.headD head → prev' c = prev c) :
    RingOf next' prev' head (xs ++ x :: ys) := by
  obtain ⟨nextOld, prevOld⟩ := ring.seam
  have flipped := ring.flip
  rw [List.reverse_append] at flipped
  refine ⟨?_, ring.forth.insert ring.once left (nextNew.trans nextOld.symm) nexts, ?_⟩
  · refine (List.perm_middle.cons head).nodup_iff.mpr ?_
    exact (List.Perm.swap head x _).nodup_iff.mp (List.nodup_cons.mpr ⟨new, ring.once⟩)
  · rw [List.reverse_append, List.reverse_cons, List.append_assoc]
    refine flipped.forth.insert flipped.once ?_ ?_ fun c member away => ?_
    · rw [lastReverse]
      exact right
    · rw [lastReverse]
      exact prevNew.trans prevOld.symm
    · rw [lastReverse] at away
      exact prevs c (by simpa [or_comm] using member) away

theorem RingOf.remove (ring : RingOf next prev head (xs ++ x :: ys))
    (left : next' (xs.getLastD head) = ys.headD head)
    (right : prev' (ys.headD head) = xs.getLastD head)
    (nexts : ∀ c ∈ head :: (xs ++ ys), c ≠ xs.getLastD head → next' c = next c)
    (prevs : ∀ c ∈ head :: (xs ++ ys), c ≠ ys.headD head → prev' c = prev c) :
    RingOf next' prev' head (xs ++ ys) := by
  obtain ⟨nextOld, prevOld⟩ := ring.neighbours
  have flipped := ring.flip
  rw [List.reverse_append, List.reverse_cons, List.append_assoc] at flipped
  refine ⟨?_, ring.forth.remove ring.once (left.trans nextOld.symm) nexts, ?_⟩
  · exact ring.once.sublist (((List.sublist_cons_self x ys).append_left xs).cons_cons head)
  · rw [List.reverse_append]
    refine flipped.forth.remove flipped.once ?_ fun c member away => ?_
    · rw [lastReverse]
      exact right.trans prevOld.symm
    · rw [lastReverse] at away
      exact prevs c (by simpa [or_comm] using member) away

end Scepter.PointerRing
