import Scepter.Lib.Bytes
import Mathlib.Data.List.Basic

/-! A block device behind bread and bwrite (block.c). Both move one sector
after the other: when the first one fails the call fails, when a later one
fails the call returns the short byte count. How each coming transfer goes is
part of the device; the sector cache, which is write-through, is not modelled.
The log of written sectors is kept for the statements only. -/
namespace Scepter.Block

inductive Transfer
  | whole
  | refused
  -- some sectors, but not all, were moved when the driver reported an error
  | short (sectors : Nat)
deriving DecidableEq

structure Device where
  sector : Nat → Nat → Byte
  coming : List Transfer
  written : List Nat

namespace Transfer

def moved : Transfer → Nat → Nat
  | whole, count => count
  | refused, _ => 0
  | short sectors, count => min (sectors + 1) (count - 1)

end Transfer

namespace Device

def next (d : Device) : Transfer := d.coming.headD .whole

def advance (d : Device) : Device := { d with coming := d.coming.tail }

def Unbroken (d : Device) : Prop := ∀ t ∈ d.coming, t = .whole ∨ t = .refused

def Reliable (d : Device) : Prop := ∀ t ∈ d.coming, t = .whole

end Device

-- the result is the buffer; `none` is a negative return value
def bread (offset count : Nat) (buf : Buf) (d : Device) : Option Buf × Device :=
  let moved := d.next.moved count
  if moved = 0 then (none, d.advance)
  else (some (Buf.overlay (moved * 512) (fun o => d.sector (offset + o / 512) (o % 512)) buf),
    d.advance)

def bwrite (offset count : Nat) (buf : Buf) (d : Device) : Option Unit × Device :=
  let moved := d.next.moved count
  let d' : Device := { d.advance with
    sector := fun s o =>
      if offset ≤ s ∧ s < offset + moved then buf ((s - offset) * 512 + o) else d.sector s o
    written := (List.range' offset moved) ++ d.written }
  if moved = 0 then (none, d') else (some (), d')

/- Only sectors satisfying `A` were written, the others kept their contents, and
the transfers still to come are a suffix of those that were. -/
def WritesOnly (A : Nat → Prop) (d d' : Device) : Prop :=
  d'.coming <:+ d.coming ∧ ∃ sectors, d'.written = sectors ++ d.written ∧
    (∀ s ∈ sectors, A s) ∧ ∀ s, s ∉ sectors → d'.sector s = d.sector s

variable {A B : Nat → Prop} {d d' d'' : Device}

theorem writesNothing (A : Nat → Prop) (d : Device) : WritesOnly A d d :=
  ⟨List.suffix_refl _, [], rfl, by simp, fun _ _ => rfl⟩

theorem advanceWrites (A : Nat → Prop) (d : Device) : WritesOnly A d d.advance :=
  ⟨List.tail_suffix _, [], rfl, by simp, fun _ _ => rfl⟩

theorem WritesOnly.trans (one : WritesOnly A d d') (two : WritesOnly A d' d'') :
    WritesOnly A d d'' := by
  obtain ⟨suffix, first, log, inside, kept⟩ := one
  obtain ⟨suffix', second, log', inside', kept'⟩ := two
  refine ⟨suffix'.trans suffix, second ++ first, by rw [log', log, List.append_assoc], ?_, ?_⟩
  · intro s member
    rcases List.mem_append.mp member with h | h
    · exact inside' s h
    · exact inside s h
  · intro s outside
    rw [List.mem_append, not_or] at outside
    rw [kept' s outside.1, kept s outside.2]

theorem WritesOnly.mono (h : WritesOnly A d d') (sub : ∀ s, A s → B s) :
    WritesOnly B d d' := by
  obtain ⟨suffix, sectors, log, inside, kept⟩ := h
  exact ⟨suffix, sectors, log, fun s hs => sub s (inside s hs), kept⟩

theorem WritesOnly.keeps (h : WritesOnly A d d') {s : Nat} (outside : ¬ A s) :
    d'.sector s = d.sector s := by
  obtain ⟨_, sectors, _, inside, kept⟩ := h
  exact kept s fun member => outside (inside s member)

theorem WritesOnly.unbroken (h : WritesOnly A d d') (whole : d.Unbroken) : d'.Unbroken :=
  fun t ht => whole t (h.1.subset ht)

theorem WritesOnly.reliable (h : WritesOnly A d d') (whole : d.Reliable) : d'.Reliable :=
  fun t ht => whole t (h.1.subset ht)

theorem Device.Reliable.unbroken (h : d.Reliable) : d.Unbroken := fun t ht => .inl (h t ht)

theorem Device.Reliable.next (h : d.Reliable) : d.next = .whole := by
  unfold Device.next
  cases coming : d.coming with
  | nil => rfl
  | cons t rest => exact h t (by simp [coming])

theorem Device.Unbroken.next (h : d.Unbroken) : d.next = .whole ∨ d.next = .refused := by
  unfold Device.next
  cases coming : d.coming with
  | nil => exact .inl rfl
  | cons t rest => exact h t (by simp [coming])

theorem breadCases (offset count : Nat) (buf : Buf) (whole : d.Unbroken)
    (some_ : 0 < count) :
    bread offset count buf d = (none, d.advance) ∧ d.next = .refused ∨
      bread offset count buf d = (some (Buf.overlay (count * 512)
        (fun o => d.sector (offset + o / 512) (o % 512)) buf), d.advance) := by
  unfold bread
  rcases whole.next with next | next
  · have positive : count ≠ 0 := by omega
    simp [next, Transfer.moved, positive]
  · simp [next, Transfer.moved]

theorem bwriteCases (offset count : Nat) (buf : Buf) (whole : d.Unbroken)
    (some_ : 0 < count) :
    (∃ d', bwrite offset count buf d = (none, d') ∧ d.next = .refused ∧
      WritesOnly (fun _ => False) d d') ∨
    ∃ d', bwrite offset count buf d = (some (), d') ∧
      WritesOnly (fun s => offset ≤ s ∧ s < offset + count) d d' ∧
      ∀ s, offset ≤ s → s < offset + count → ∀ o,
        d'.sector s o = buf ((s - offset) * 512 + o) := by
  unfold bwrite
  rcases whole.next with next | next
  · have positive : count ≠ 0 := by omega
    refine .inr ⟨_, by simp only [next, Transfer.moved, positive, if_false]; rfl, ?_, ?_⟩
    · refine ⟨List.tail_suffix _, List.range' offset count, rfl, ?_, ?_⟩
      · intro s member
        rw [List.mem_range'_1] at member
        exact member
      · intro s outside
        rw [List.mem_range'_1] at outside
        funext o
        simp only [if_neg outside]
    · intro s low high o
      simp only [if_pos (And.intro low high)]
  · refine .inl ⟨_, by simp only [next, Transfer.moved, if_true]; rfl, next, ?_⟩
    refine ⟨List.tail_suffix _, [], rfl, by simp, fun s _ => ?_⟩
    funext o
    simp only [if_neg (show ¬ (offset ≤ s ∧ s < offset + 0) by omega)]

end Scepter.Block
