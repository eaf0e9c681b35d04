import Scepter.Lib.Bytes
import Scepter.Lib.Arrange

/-! qsort (crt/libc/stdlib/stdlib_extra.c) on the bytes of the array. Every access is checked
against the bounds of the array and the loops and calls count down fuel, so that a result says
that the run ends and keeps inside. An array lies inside the address space: its pointers do not
wrap. -/
namespace Scepter.Qsort
open Arrange

structure Region where
  lo : Nat
  hi : Nat

namespace Region

def get (r : Region) (m : Buf) (a : Nat) : Option Byte :=
  if r.lo ≤ a ∧ a < r.hi then some (m a) else none

def put (r : Region) (m : Buf) (a : Nat) (v : Byte) : Option Buf :=
  if r.lo ≤ a ∧ a < r.hi then some (Function.update m a v) else none

def bytes (r : Region) (m : Buf) (a : Nat) : Nat → Option (List Byte)
  | 0 => some []
  | k + 1 => do
    let b ← r.get m a
    let rest ← r.bytes m (a + 1) k
    some (b :: rest)

end Region

abbrev Compar := List Byte → List Byte → Int

section Program

variable (r : Region) (size : Nat) (compar : Compar)

def swapBytes (m : Buf) (a b : Nat) : Nat → Option Buf
  | 0 => some m
  | k + 1 => do
    let t ← r.get m a
    let u ← r.get m b
    let m ← r.put m a u
    let m ← r.put m b t
    swapBytes m (a + 1) (b + 1) k

def call (m : Buf) (p q : Nat) : Option Int := do
  let x ← r.bytes m p size
  let y ← r.bytes m q size
  some (compar x y)

def swapIfLess (m : Buf) (p q : Nat) : Option Buf := do
  if (← call r size compar m p q) < 0 then swapBytes r m p q size else some m

def advance (m : Buf) (pivot j : Nat) : Nat → Nat → Option Nat
  | fuel, i => do
    if i ≤ j then
      if (← call r size compar m i pivot) ≤ 0 then
        match fuel with
        | 0 => none
        | fuel + 1 => advance m pivot j fuel (i + size)
      else some i
    else some i

def retreat (m : Buf) (pivot : Nat) : Nat → Nat → Option Nat
  | fuel, j => do
    if (← call r size compar m j pivot) > 0 then
      match fuel with
      | 0 => none
      | fuel + 1 => retreat m pivot fuel (j - size)
    else some j

def partition (steps : Nat) (m : Buf) (pivot : Nat) : Nat → Nat → Nat → Option (Buf × Nat)
  | fuel, i, j => do
    if i ≤ j then
      match fuel with
      | 0 => none
      | fuel + 1 => do
        let i ← advance r size compar m pivot j steps i
        let j ← retreat r size compar m pivot steps j
        let m ← if i < j then swapBytes r m i j size else some m
        partition steps m pivot fuel i j
    else some (m, j)

def qsortRec (m : Buf) (base nmemb : Nat) : Nat → Option Buf
  | 0 => if nmemb ≤ 1 then some m else none
  | fuel + 1 =>
    if nmemb ≤ 1 then some m
    else do
      let lo := base
      let hi := base + (nmemb - 1) * size
      let mid := base + nmemb / 2 * size
      let m ← swapIfLess r size compar m mid lo
      let m ← swapIfLess r size compar m hi mid
      let m ← swapIfLess r size compar m mid lo
      let m ← swapBytes r m mid lo size
      let (m, j) ← partition r size compar (fuel + 1) m lo (fuel + 1) (base + size) hi
      let m ← swapBytes r m lo j size
      let left := (j - base) / size
      let m ← qsortRec m base left fuel
      qsortRec m (j + size) (nmemb - left - 1) fuel

def qsort (fuel : Nat) (m : Buf) (base nmemb : Nat) (compar : Option Compar) : Option Buf :=
  match compar with
  | none => some m
  | some compar => if base = 0 ∨ size = 0 then some m else qsortRec r size compar m base nmemb fuel

end Program

section Slots

variable {r : Region} {size n : Nat} {compar : Compar} {m : Buf}

def address (r : Region) (size k : Nat) : Nat := r.lo + k * size

def slot (r : Region) (size : Nat) (m : Buf) (k : Nat) : List Byte :=
  (List.range size).map fun o => m (address r size k + o)

theorem bytesRange {a k : Nat} (low : r.lo ≤ a) (high : a + k ≤ r.hi) :
    r.bytes m a k = some ((List.range k).map fun o => m (a + o)) := by
  induction k generalizing a with
  | zero => rfl
  | succ k ih =>
    have byte : r.get m a = some (m a) := if_pos ⟨low, by omega⟩
    have rest := ih (a := a + 1) (by omega) (by omega)
    rw [Region.bytes, byte, rest, List.range_succ_eq_map, List.map_cons, List.map_map]
    simp [Function.comp_def, Nat.add_assoc, Nat.add_comm 1]

theorem swapBytesAt {a b k : Nat} (first : r.lo ≤ a ∧ a + k ≤ r.hi) (second : r.lo ≤ b ∧ b + k ≤ r.hi)
    (apart : a = b ∨ a + k ≤ b ∨ b + k ≤ a) :
    ∃ m', swapBytes r m a b k = some m' ∧ ∀ x, m' x =
      if a ≤ x ∧ x < a + k then m (b + (x - a))
      else if b ≤ x ∧ x < b + k then m (a + (x - b)) else m x := by
  induction k generalizing m a b with
  | zero =>
    refine ⟨m, rfl, fun x => ?_⟩
    rw [if_neg (by omega), if_neg (by omega)]
  | succ k ih =>
    obtain ⟨m', ran, bytes⟩ := ih (m := Function.update (Function.update m a (m b)) b (m a))
      (a := a + 1) (b := b + 1) (by omega) (by omega) (by omega)
    refine ⟨m', ?_, ?_⟩
    · have one : r.lo ≤ a ∧ a < r.hi := by omega
      have two : r.lo ≤ b ∧ b < r.hi := by omega
      simp only [swapBytes, Region.get, Region.put, if_pos one, if_pos two]
      exact ran
    · intro x
      rw [bytes x]
      simp only [Function.update_apply]
      repeat' split
      all_goals exact congrArg m (by omega)

theorem addressNext (r : Region) (size k : Nat) : address r size (k + 1) = address r size k + size := by
  rw [address, address, Nat.succ_mul, Nat.add_assoc]

theorem addressApart {k l : Nat} (before : k < l) : address r size k + size ≤ address r size l := by
  rw [← addressNext]
  exact Nat.add_le_add_left (Nat.mul_le_mul_right size before) r.lo

theorem addressLe {k l : Nat} (positive : 0 < size) :
    address r size k ≤ address r size l ↔ k ≤ l := by
  unfold address
  rw [Nat.add_le_add_iff_left, Nat.mul_le_mul_right_iff positive]

def Whole (r : Region) (size n : Nat) : Prop := r.hi = address r size n

theorem insideWhole {k : Nat} (whole : Whole r size n) (inside : k < n) :
    r.lo ≤ address r size k ∧ address r size k + size ≤ r.hi := by
  rw [whole]
  exact ⟨Nat.le_add_right _ _, addressApart inside⟩

structure Rearranged (r : Region) (size lo hi : Nat) (m m' : Buf) : Prop where
  slots : Moved lo hi (slot r size m) (slot r size m')
  frame : ∀ a, ¬(r.lo ≤ a ∧ a < r.hi) → m' a = m a

theorem Rearranged.refl (lo hi : Nat) (m : Buf) : Rearranged r size lo hi m m :=
  ⟨Moved.refl lo hi _, fun _ _ => rfl⟩

theorem Rearranged.trans {lo hi : Nat} {m' m'' : Buf} (first : Rearranged r size lo hi m m')
    (second : Rearranged r size lo hi m' m'') : Rearranged r size lo hi m m'' :=
  ⟨first.slots.trans second.slots, fun a outside => (second.frame a outside).trans (first.frame a outside)⟩

theorem Rearranged.widen {lo hi lo' hi' : Nat} {m' : Buf} (moved : Rearranged r size lo hi m m')
    (low : lo' ≤ lo) (high : hi ≤ hi') : Rearranged r size lo' hi' m m' :=
  ⟨moved.slots.widen low high, moved.frame⟩

theorem swapSlots {k l : Nat} (whole : Whole r size n) (first : k < n) (second : l < n) :
    ∃ m', swapBytes r m (address r size k) (address r size l) size = some m' ∧
      (∀ x, slot r size m' x = slot r size m (Equiv.swap k l x)) ∧
      ∀ a, ¬(r.lo ≤ a ∧ a < r.hi) → m' a = m a := by
  have inFirst := insideWhole whole first
  have inSecond := insideWhole whole second
  obtain ⟨m', ran, bytes⟩ := swapBytesAt (m := m) inFirst inSecond (by
    rcases Nat.lt_trichotomy k l with before | same | after
    · exact Or.inr (Or.inl (addressApart before))
    · exact Or.inl (by rw [same])
    · exact Or.inr (Or.inr (addressApart after)))
  refine ⟨m', ran, ?_, ?_⟩
  · intro x
    refine List.map_congr_left fun o inside => ?_
    have small : o < size := List.mem_range.mp inside
    rw [bytes, Equiv.swap_apply_def]
    by_cases isFirst : x = k
    · rw [isFirst, if_pos rfl, if_pos (by omega)]
      exact congrArg m (by omega)
    · have apart : address r size x + size ≤ address r size k ∨ address r size k + size ≤ address r size x :=
        (Nat.lt_or_gt_of_ne isFirst).imp addressApart addressApart
      rw [if_neg (by omega), if_neg isFirst]
      by_cases isSecond : x = l
      · rw [isSecond, if_pos rfl, if_pos (by omega)]
        exact congrArg m (by omega)
      · have apart' : address r size x + size ≤ address r size l ∨ address r size l + size ≤ address r size x :=
          (Nat.lt_or_gt_of_ne isSecond).imp addressApart addressApart
        rw [if_neg (by omega), if_neg isSecond]
  · intro a outside
    rw [bytes, if_neg (by omega), if_neg (by omega)]

theorem swapMoves {lo hi k l : Nat} (whole : Whole r size n) (most : hi ≤ n) (first : lo ≤ k ∧ k < hi)
    (second : lo ≤ l ∧ l < hi) :
    ∃ m', swapBytes r m (address r size k) (address r size l) size = some m' ∧
      Rearranged r size lo hi m m' ∧ slot r size m' k = slot r size m l ∧
      slot r size m' l = slot r size m k := by
  obtain ⟨m', ran, swapped, frame⟩ := swapSlots (m := m) whole (show k < n by omega) (show l < n by omega)
  refine ⟨m', ran, ⟨Moved.swap first second swapped, frame⟩, ?_, ?_⟩
  · rw [swapped, Equiv.swap_apply_left]
  · rw [swapped, Equiv.swap_apply_right]

theorem callSlots (compar : Compar) (m : Buf) {k l : Nat} (whole : Whole r size n) (first : k < n) (second : l < n) :
    call r size compar m (address r size k) (address r size l) =
      some (compar (slot r size m k) (slot r size m l)) := by
  have one := insideWhole whole first
  have two := insideWhole whole second
  rw [call, bytesRange one.1 one.2, bytesRange two.1 two.2]
  rfl

theorem swapIfLessMoves (compar : Compar) (m : Buf) {lo hi k l : Nat} (whole : Whole r size n) (most : hi ≤ n)
    (first : lo ≤ k ∧ k < hi) (second : lo ≤ l ∧ l < hi) :
    ∃ m', swapIfLess r size compar m (address r size k) (address r size l) = some m' ∧
      Rearranged r size lo hi m m' := by
  rw [swapIfLess, callSlots compar m whole (by omega) (by omega), Option.bind_eq_bind, Option.bind_some]
  by_cases less : compar (slot r size m k) (slot r size m l) < 0
  · obtain ⟨m', ran, moved, _⟩ := swapMoves (m := m) whole most first second
    exact ⟨m', (if_pos less).trans ran, moved⟩
  · exact ⟨m, if_neg less, Rearranged.refl lo hi m⟩

theorem advanceStops (compar : Compar) (m : Buf) (fuel : Nat) {pivot a b : Nat} (positive : 0 < size) (whole : Whole r size n)
    (inside : b < n) (at' : pivot < n) (order : a ≤ b + 1) (enough : b + 1 ≤ a + fuel) :
    ∃ a', advance r size compar m (address r size pivot) (address r size b) fuel (address r size a) =
        some (address r size a') ∧ a ≤ a' ∧ a' ≤ b + 1 ∧
      (∀ k, a ≤ k → k < a' → compar (slot r size m k) (slot r size m pivot) ≤ 0) ∧
      (a' ≤ b → 0 < compar (slot r size m a') (slot r size m pivot)) := by
  induction fuel generalizing a with
  | zero =>
    refine ⟨a, ?_, Nat.le_refl a, order, fun k low high => by omega, fun more => by omega⟩
    rw [advance, if_neg]
    rw [addressLe positive]
    omega
  | succ fuel ih =>
    by_cases more : a ≤ b
    · have called := callSlots compar m whole (show a < n by omega) at'
      by_cases low : compar (slot r size m a) (slot r size m pivot) ≤ 0
      · obtain ⟨a', ran, first, last, below, above⟩ := ih (a := a + 1) (by omega) (by omega)
        refine ⟨a', ?_, by omega, last, ?_, above⟩
        · rw [advance, if_pos ((addressLe positive).mpr more), called, Option.bind_eq_bind,
            Option.bind_some, if_pos low]
          rw [addressNext] at ran
          exact ran
        · intro k least most
          rcases Nat.lt_or_eq_of_le least with later | rfl
          · exact below k later most
          · exact low
      · refine ⟨a, ?_, Nat.le_refl a, order, fun k low high => by omega, fun _ => by omega⟩
        rw [advance, if_pos ((addressLe positive).mpr more), called, Option.bind_eq_bind,
          Option.bind_some, if_neg low]
    · refine ⟨a, ?_, Nat.le_refl a, order, fun k low high => by omega, fun less => by omega⟩
      rw [advance, if_neg]
      rw [addressLe positive]
      exact more

theorem retreatStops (fuel : Nat) {pivot b : Nat} (whole : Whole r size n) (inside : b < n)
    (at' : pivot ≤ b) (same : compar (slot r size m pivot) (slot r size m pivot) ≤ 0)
    (enough : b ≤ pivot + fuel) :
    ∃ b', retreat r size compar m (address r size pivot) fuel (address r size b) =
        some (address r size b') ∧ pivot ≤ b' ∧ b' ≤ b ∧
      (∀ k, b' < k → k ≤ b → 0 < compar (slot r size m k) (slot r size m pivot)) ∧
      compar (slot r size m b') (slot r size m pivot) ≤ 0 := by
  induction fuel generalizing b with
  | zero =>
    obtain rfl : b = pivot := by omega
    refine ⟨b, ?_, Nat.le_refl b, Nat.le_refl b, fun k low high => by omega, same⟩
    rw [retreat, callSlots compar m whole inside inside, Option.bind_eq_bind, Option.bind_some,
      if_neg (by omega)]
  | succ fuel ih =>
    have called := callSlots compar m whole inside (show pivot < n by omega)
    by_cases high : compar (slot r size m b) (slot r size m pivot) > 0
    · have above : pivot ≠ b := by
        rintro rfl
        omega
      obtain ⟨c, rfl⟩ : ∃ c, b = c + 1 := ⟨b - 1, by omega⟩
      obtain ⟨b', ran, first, last, below, stop⟩ := ih (b := c) (by omega) (by omega) (by omega)
      refine ⟨b', ?_, first, by omega, ?_, stop⟩
      · rw [retreat, called, Option.bind_eq_bind, Option.bind_some, if_pos high]
        rw [addressNext, Nat.add_sub_cancel]
        exact ran
      · intro k least most
        rcases Nat.lt_or_eq_of_le most with later | rfl
        · exact below k least (by omega)
        · exact high
    · refine ⟨b, ?_, at', Nat.le_refl b, fun k low high => by omega, by omega⟩
      rw [retreat, called, Option.bind_eq_bind, Option.bind_some, if_neg high]

structure Split (r : Region) (size : Nat) (compar : Compar) (m : Buf) (s a b e : Nat) : Prop where
  low : s < a
  order : a ≤ b + 1
  high : b < e
  below : ∀ k, s < k → k < a → compar (slot r size m k) (slot r size m s) ≤ 0
  above : ∀ k, b < k → k < e → 0 < compar (slot r size m k) (slot r size m s)

structure Orders (size : Nat) (compar : Compar) : Prop where
  total : ∀ x y, x.length = size → y.length = size → compar x y ≤ 0 ∨ compar y x ≤ 0
  trans : ∀ x y z, x.length = size → y.length = size → z.length = size →
    compar x y ≤ 0 → compar y z ≤ 0 → compar x z ≤ 0

theorem slotLength (r : Region) (size : Nat) (m : Buf) (k : Nat) : (slot r size m k).length = size := by
  rw [slot, List.length_map, List.length_range]

theorem Orders.same (order : Orders size compar) (m : Buf) (k : Nat) :
    compar (slot r size m k) (slot r size m k) ≤ 0 :=
  (order.total _ _ (slotLength r size m k) (slotLength r size m k)).elim id id

theorem partitionDone {s a b e steps : Nat} (positive : 0 < size) (split : Split r size compar m s a b e)
    (crossed : b < a) (fuel : Nat) :
    ∃ m' b', partition r size compar steps m (address r size s) fuel (address r size a)
        (address r size b) = some (m', address r size b') ∧ Rearranged r size (s + 1) e m m' ∧
      s ≤ b' ∧ Split r size compar m' s (b' + 1) b' e := by
  obtain ⟨low, order, high, below, above⟩ := split
  obtain rfl : a = b + 1 := by omega
  refine ⟨m, b, ?_, Rearranged.refl _ _ m, by omega, ⟨by omega, by omega, high, below, above⟩⟩
  have stop : ¬address r size (b + 1) ≤ address r size b := by
    rw [addressLe positive]
    omega
  cases fuel with
  | zero => rw [partition, if_neg stop]
  | succ fuel => rw [partition, if_neg stop]

theorem partitionSplits (steps fuel : Nat) {s a b e : Nat} (positive : 0 < size) (whole : Whole r size n)
    (orders : Orders size compar) (most : e ≤ n) (far : e ≤ s + steps)
    (split : Split r size compar m s a b e)
    (enough : b + 1 ≤ a + fuel ∨ b ≤ a + fuel ∧ a < b ∧
      compar (slot r size m a) (slot r size m s) ≤ 0 ∧
      0 < compar (slot r size m b) (slot r size m s)) :
    ∃ m' b', partition r size compar steps m (address r size s) fuel (address r size a)
        (address r size b) = some (m', address r size b') ∧ Rearranged r size (s + 1) e m m' ∧
      s ≤ b' ∧ Split r size compar m' s (b' + 1) b' e := by
  induction fuel generalizing m a b with
  | zero => exact partitionDone positive split (by omega) 0
  | succ fuel ih =>
    by_cases more : b < a
    · exact partitionDone positive split more _
    obtain ⟨low, order, high, below, above⟩ := split
    obtain ⟨a', ran, first, last, belowA, aboveA⟩ :=
      advanceStops compar m steps positive whole (show b < n by omega)
        (show s < n by omega) order (by omega)
    obtain ⟨b', ran', first', last', aboveB, stop⟩ :=
      retreatStops steps whole (show b < n by omega) (show s ≤ b by omega)
        (orders.same m s) (by omega)
    have lowA : ∀ k, s < k → k < a' → compar (slot r size m k) (slot r size m s) ≤ 0 := by
      intro k least most
      by_cases old : k < a
      · exact below k least old
      · exact belowA k (by omega) most
    have highB : ∀ k, b' < k → k < e → 0 < compar (slot r size m k) (slot r size m s) := by
      intro k least most
      by_cases old : b < k
      · exact above k old most
      · exact aboveB k least (by omega)
    have start : partition r size compar steps m (address r size s) (fuel + 1) (address r size a)
        (address r size b) =
        if address r size a' < address r size b' then
          (swapBytes r m (address r size a') (address r size b') size).bind fun m =>
            partition r size compar steps m (address r size s) fuel (address r size a') (address r size b')
        else partition r size compar steps m (address r size s) fuel (address r size a') (address r size b') := by
      rw [partition, if_pos ((addressLe positive).mpr (by omega)), ran, Option.bind_eq_bind,
        Option.bind_some, ran', Option.bind_eq_bind, Option.bind_some]
      rfl
    by_cases cross : a' < b'
    · obtain ⟨m₁, swap, swapped, frame⟩ :=
        swapSlots (m := m) whole (show a' < n by omega) (show b' < n by omega)
      have others : ∀ k, k ≠ a' → k ≠ b' → slot r size m₁ k = slot r size m k := fun k notA notB => by
        rw [swapped, Equiv.swap_apply_of_ne_of_ne notA notB]
      have pivot := others s (by omega) (by omega)
      have atA : slot r size m₁ a' = slot r size m b' := by rw [swapped, Equiv.swap_apply_left]
      have atB : slot r size m₁ b' = slot r size m a' := by rw [swapped, Equiv.swap_apply_right]
      have split : Split r size compar m₁ s a' b' e := by
        refine ⟨by omega, by omega, by omega, ?_, ?_⟩
        · intro k least most
          rw [pivot, others k (by omega) (by omega)]
          exact lowA k least most
        · intro k least most
          rw [pivot, others k (by omega) (by omega)]
          exact highB k least most
      have fewer : b' ≤ a' + fuel := by
        rcases enough with cold | ⟨hot, _, atFirst, atSecond⟩
        · omega
        · have onward : a' ≠ a := by
            rintro rfl
            have high := aboveA (by omega)
            omega
          have back : b' ≠ b := by
            rintro rfl
            omega
          omega
      have kinds : compar (slot r size m₁ a') (slot r size m₁ s) ≤ 0 ∧
          0 < compar (slot r size m₁ b') (slot r size m₁ s) := by
        rw [atA, atB, pivot]
        exact ⟨stop, aboveA (by omega)⟩
      obtain ⟨m', c, rest, moved, ge, done⟩ := ih split (Or.inr ⟨fewer, cross, kinds⟩)
      refine ⟨m', c, ?_, ?_, ge, done⟩
      · rw [start, if_pos, swap, Option.bind_some, rest]
        have apart : address r size a' + size ≤ address r size b' := addressApart cross
        omega
      · exact Rearranged.trans ⟨Moved.swap (by omega) (by omega) swapped, frame⟩ moved
    · have meet : a' = b' + 1 := by
        have notSame : a' ≠ b' := by
          rintro rfl
          have above := aboveA last'
          omega
        by_contra far
        have less := lowA (a' - 1) (by omega) (by omega)
        have more := highB (a' - 1) (by omega) (by omega)
        omega
      have split : Split r size compar m s a' b' e := ⟨by omega, by omega, by omega, lowA, highB⟩
      obtain ⟨m', c, rest, moved, ge, done⟩ := ih split (Or.inl (by omega))
      refine ⟨m', c, ?_, moved, ge, done⟩
      rw [start, if_neg, rest]
      rw [meet, addressNext]
      omega

theorem qsortRecSorts (m : Buf) (s count : Nat) {fuel : Nat} (positive : 0 < size) (whole : Whole r size n)
    (orders : Orders size compar) (inside : s + count ≤ n) (enough : count ≤ fuel) :
    ∃ m', qsortRec r size compar m (address r size s) count fuel = some m' ∧
      Rearranged r size s (s + count) m m' ∧
      Ascending (fun x y => compar x y ≤ 0) s (s + count) (slot r size m') := by
  induction fuel generalizing m s count with
  | zero =>
    refine ⟨m, ?_, Rearranged.refl _ _ m, fun k l low order high => by omega⟩
    rw [qsortRec, if_pos (by omega)]
  | succ fuel ih =>
    by_cases few : count ≤ 1
    · refine ⟨m, ?_, Rearranged.refl _ _ m, fun k l low order high => by omega⟩
      rw [qsortRec, if_pos few]
    have high : address r size s + (count - 1) * size = address r size (s + (count - 1)) := by
      rw [address, address, Nat.add_mul, Nat.add_assoc]
    have middle : address r size s + count / 2 * size = address r size (s + count / 2) := by
      rw [address, address, Nat.add_mul, Nat.add_assoc]
    have lo : s ≤ s ∧ s < s + count := by omega
    have hi : s ≤ s + (count - 1) ∧ s + (count - 1) < s + count := by omega
    have mid : s ≤ s + count / 2 ∧ s + count / 2 < s + count := by omega
    obtain ⟨m₁, ran₁, moved₁⟩ := swapIfLessMoves compar m whole inside mid lo
    obtain ⟨m₂, ran₂, moved₂⟩ := swapIfLessMoves compar m₁ whole inside hi mid
    obtain ⟨m₃, ran₃, moved₃⟩ := swapIfLessMoves compar m₂ whole inside mid lo
    obtain ⟨m₄, ran₄, moved₄, _⟩ := swapMoves (m := m₃) whole inside mid lo
    have start : Split r size compar m₄ s (s + 1) (s + (count - 1)) (s + count) :=
      ⟨by omega, by omega, by omega, fun k low high => by omega, fun k low high => by omega⟩
    obtain ⟨m₅, j, ran₅, moved₅, least, split⟩ :=
      partitionSplits (fuel + 1) (fuel + 1) positive whole orders inside (by omega) start (Or.inl (by omega))
    have most := split.high
    obtain ⟨m₆, ran₆, swapped, frame⟩ :=
      swapSlots (m := m₅) whole (show s < n by omega) (show j < n by omega)
    have atPivot : slot r size m₆ j = slot r size m₅ s := by rw [swapped, Equiv.swap_apply_right]
    have below : ∀ k, s ≤ k → k < j → compar (slot r size m₆ k) (slot r size m₆ j) ≤ 0 := by
      intro k low less
      rw [atPivot]
      by_cases first : k = s
      · rw [swapped, first, Equiv.swap_apply_left]
        exact split.below j (by omega) (by omega)
      · rw [swapped, Equiv.swap_apply_of_ne_of_ne first (by omega)]
        exact split.below k (by omega) (by omega)
    have above : ∀ k, j + 1 ≤ k → k < s + count → compar (slot r size m₆ j) (slot r size m₆ k) ≤ 0 := by
      intro k low less
      have more := split.above k (by omega) less
      rw [atPivot, swapped k, Equiv.swap_apply_of_ne_of_ne (by omega) (by omega)]
      rcases orders.total _ _ (slotLength r size m₅ s) (slotLength r size m₅ k) with under | other
      · exact under
      · omega
    obtain ⟨m₇, ran₇, moved₇, left⟩ := ih m₆ s (j - s) (by omega) (by omega)
    obtain ⟨m₈, ran₈, moved₈, right⟩ :=
      ih m₇ (j + 1) (count - (j - s) - 1) (by omega) (by omega)
    rw [show s + (j - s) = j by omega] at moved₇ left
    rw [show j + 1 + (count - (j - s) - 1) = s + count by omega] at moved₈ right
    refine ⟨m₈, ?_, ?_, ?_⟩
    · have next := (addressNext r size s).symm
      have behind := (addressNext r size j).symm
      have before : (address r size j - address r size s) / size = j - s := by
        rw [address, address, Nat.add_sub_add_left, ← Nat.sub_mul, Nat.mul_div_cancel _ positive]
      rw [qsortRec, if_neg few]
      simp only [high, middle, next, ran₁, ran₂, ran₃, ran₄, ran₅, ran₆, before, behind, ran₇, ran₈,
        Option.bind_eq_bind, Option.bind_some]
    · have swap : Rearranged r size s (s + count) m₅ m₆ :=
        ⟨Moved.swap lo ⟨least, most⟩ swapped, frame⟩
      have median := ((moved₁.trans moved₂).trans moved₃).trans moved₄
      have parted := (median.trans (moved₅.widen (by omega) (by omega))).trans swap
      exact (parted.trans (moved₇.widen (by omega) (by omega))).trans (moved₈.widen (by omega) (by omega))
    · have kept : ∀ k, k < j + 1 → slot r size m₈ k = slot r size m₇ k :=
        fun k less => moved₈.slots.outside (by omega)
      have pivot : slot r size m₈ j = slot r size m₆ j := by
        rw [kept j (by omega), moved₇.slots.outside (by omega)]
      refine Ascending.join j ?_ right ?_ ?_ ?_
      · exact left.congr fun k low less => kept k (by omega)
      · intro k low less
        rw [pivot, kept k (by omega)]
        exact moved₇.slots.all (p := fun x => compar x (slot r size m₆ j) ≤ 0) below k low less
      · intro k low less
        rw [pivot]
        refine moved₈.slots.all (p := fun x => compar (slot r size m₆ j) x ≤ 0) ?_ k low less
        intro l low less
        rw [moved₇.slots.outside (by omega)]
        exact above l low less
      · intro k l _ _
        exact orders.trans _ _ _ (slotLength r size m₈ k) (slotLength r size m₈ j)
          (slotLength r size m₈ l)

end Slots

def elements (m : Buf) (base size nmemb : Nat) : List (List Byte) :=
  (List.range nmemb).map fun k => (List.range size).map fun o => m (base + k * size + o)

/-- qsort ends with the elements of the array in order, keeps inside the array and changes nothing
around it. -/
theorem qsortSorts {compar : Compar} {base nmemb size fuel : Nat} (m : Buf)
    (orders : Orders size compar) (array : base ≠ 0) (enough : nmemb ≤ fuel) :
    ∃ m', qsort ⟨base, base + nmemb * size⟩ size fuel m base nmemb (some compar) = some m' ∧
      (elements m' base size nmemb).Perm (elements m base size nmemb) ∧
      (elements m' base size nmemb).Pairwise (fun x y => compar x y ≤ 0) ∧
      ∀ a, ¬(base ≤ a ∧ a < base + nmemb * size) → m' a = m a := by
  by_cases empty : size = 0
  · subst empty
    refine ⟨m, if_pos (Or.inr rfl), List.Perm.refl _, ?_, fun _ _ => rfl⟩
    refine List.pairwise_map.mpr (List.pairwise_of_forall fun _ _ => ?_)
    exact (orders.total [] [] rfl rfl).elim id id
  · have first : address ⟨base, base + nmemb * size⟩ size 0 = base := by
      rw [address, Nat.zero_mul, Nat.add_zero]
    obtain ⟨m', ran, moved, sorted⟩ :=
      qsortRecSorts (r := ⟨base, base + nmemb * size⟩) (n := nmemb) m 0 nmemb (Nat.pos_of_ne_zero empty)
        rfl orders (by omega) enough
    rw [first] at ran
    rw [Nat.zero_add] at moved sorted
    refine ⟨m', (if_neg ?_).trans ran, moved.slots.perm, sorted.pairwise, moved.frame⟩
    rintro (null | none)
    · exact array null
    · exact empty none

def firstByte : Compar := fun x y => (x.headD 0).toNat - (y.headD 0).toNat

theorem firstByteOrders : Orders 2 firstByte := by
  constructor
  · intro x y _ _
    unfold firstByte
    omega
  · intro x y z _ _ _ less less'
    unfold firstByte at *
    omega

def fourPairs : Buf := fun a => [7, 1, 3, 2, 7, 3, 0, 4].getD (a - 0x8000) 0

theorem qsortSortsPairs :
    ∃ m', qsort ⟨0x8000, 0x8000 + 4 * 2⟩ 2 4 fourPairs 0x8000 4 (some firstByte) = some m' ∧
      (elements m' 0x8000 2 4).Perm (elements fourPairs 0x8000 2 4) ∧
      (elements m' 0x8000 2 4).Pairwise (fun x y => firstByte x y ≤ 0) ∧
      ∀ a, ¬(0x8000 ≤ a ∧ a < 0x8000 + 4 * 2) → m' a = fourPairs a :=
  qsortSorts fourPairs firstByteOrders (by decide) (by decide)

end Scepter.Qsort
