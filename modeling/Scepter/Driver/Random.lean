import Mathlib.Logic.Function.Iterate

/-! The random pool (driver/char/random.c): four words, of which each output replaces one, and
into which interrupts fold their timing. -/
namespace Scepter.Random

abbrev Word := BitVec 32
abbrev Byte := BitVec 8

structure Pool where
  rs0 : Word
  rs1 : Word
  rs2 : Word
  rs3 : Word
  entropy_bits : Nat
  deriving DecidableEq, Repr

def rotl (x : Word) (k : Nat) : Word := x <<< k ||| x >>> (32 - k)

def scramble (t : Word) : Word :=
  let t := t ^^^ t <<< 11
  t ^^^ t >>> 8

def next_u32 (p : Pool) : Word × Pool :=
  let t := scramble p.rs3
  let p := {p with rs3 := p.rs2, rs2 := p.rs1, rs1 := p.rs0, rs0 := t}
  (t ^^^ (p.rs3 + 0x9E3779B9), p)

def bytesOf (v : Word) (n : Nat) : List Byte :=
  (List.range n).map fun i => (v >>> (i * 8)).setWidth 8

def random_get_bytes : Nat → Pool → List Byte × Pool
  | n + 4, p =>
    let (v, p) := next_u32 p
    let (rest, p) := random_get_bytes n p
    (bytesOf v 4 ++ rest, p)
  | 0, p => ([], p)
  | n, p =>
    let (v, p) := next_u32 p
    (bytesOf v n, p)

def random_add_entropy (p : Pool) (bits : Word) : Pool :=
  let bits := bits * 0x2545F491
  let bits := bits ^^^ bits >>> 16
  { rs0 := p.rs0 ^^^ bits
    rs1 := p.rs1 ^^^ rotl bits 7
    rs2 := p.rs2 ^^^ rotl bits 17
    rs3 := p.rs3 ^^^ rotl bits 23
    entropy_bits := if p.entropy_bits < 4096 then p.entropy_bits + 16 else p.entropy_bits }

inductive Op where
  | random_get_u32
  | random_get_bytes (n : Nat)
  | random_add_entropy (bits : Word)
  deriving DecidableEq, Repr

def perform (p : Pool) : Op → Pool
  | .random_get_u32 => (next_u32 p).2
  | .random_get_bytes n => (random_get_bytes n p).2
  | .random_add_entropy bits => random_add_entropy p bits

def words (p : Pool) : Word × Word × Word × Word := (p.rs0, p.rs1, p.rs2, p.rs3)

theorem xorShiftInjective {w n : Nat} {f : BitVec w → BitVec w}
    (linear : ∀ x y, f (x ^^^ y) = f x ^^^ f y) (gone : ∀ x, f^[n] x = 0) {x y : BitVec w}
    (same : x ^^^ f x = y ^^^ f y) : x = y := by
  have fixed : f (x ^^^ y) = x ^^^ y := by
    calc f (x ^^^ y) = (x ^^^ f x) ^^^ (x ^^^ f y) := by
          rw [linear, BitVec.xor_comm x, BitVec.xor_assoc, ← BitVec.xor_assoc x x,
            BitVec.xor_self, BitVec.zero_xor]
      _ = (y ^^^ f y) ^^^ (f y ^^^ x) := by rw [same, BitVec.xor_comm x]
      _ = x ^^^ y := by
          rw [BitVec.xor_assoc, ← BitVec.xor_assoc (f y), BitVec.xor_self, BitVec.zero_xor,
            BitVec.xor_comm]
  exact BitVec.xor_eq_zero_iff.mp ((Function.iterate_fixed fixed n).symm.trans (gone _))

theorem scrambleInjective {a b : Word} (same : scramble a = scramble b) : a = b := by
  have left : ∀ x : Word, (fun x : Word => x <<< 11)^[3] x = 0 := by
    intro x
    show x <<< 11 <<< 11 <<< 11 = 0
    rw [← BitVec.shiftLeft_add, ← BitVec.shiftLeft_add]
    exact BitVec.shiftLeft_eq_zero (by decide)
  have right : ∀ x : Word, (fun x : Word => x >>> 8)^[4] x = 0 := by
    intro x
    show x >>> 8 >>> 8 >>> 8 >>> 8 = 0
    rw [← BitVec.shiftRight_add, ← BitVec.shiftRight_add, ← BitVec.shiftRight_add]
    exact BitVec.ushiftRight_eq_zero (by decide)
  have first : a ^^^ a <<< 11 = b ^^^ b <<< 11 :=
    xorShiftInjective (f := (· >>> 8)) (fun x y => BitVec.ushiftRight_xor_distrib x y 8) right same
  exact xorShiftInjective (f := (· <<< 11)) (fun x y => BitVec.shiftLeft_xor_distrib x y 11) left
    first

/-! ## Whole runs -/

theorem nextInjective {p q : Pool} (same : words (next_u32 p).2 = words (next_u32 q).2) :
    words p = words q := by
  simp only [words, next_u32, Prod.mk.injEq] at same ⊢
  obtain ⟨made, h0, h1, h2⟩ := same
  exact ⟨h0, h1, h2, scrambleInjective made⟩

theorem bytesInjective {n : Nat} {p q : Pool}
    (same : words (random_get_bytes n p).2 = words (random_get_bytes n q).2) :
    words p = words q := by
  induction n using Nat.strongRecOn generalizing p q with
  | ind n ih =>
    match n with
    | 0 => exact same
    | 1 | 2 | 3 => exact nextInjective same
    | n + 4 => exact nextInjective (ih n (by omega) same)

theorem performInjective {p q : Pool} {op : Op}
    (same : words (perform p op) = words (perform q op)) : words p = words q := by
  cases op with
  | random_get_u32 => exact nextInjective same
  | random_get_bytes n => exact bytesInjective same
  | random_add_entropy bits =>
    simpa [words, perform, random_add_entropy] using same

/-- Pools that differ still differ after the same operations, whichever these are: nothing that
the pool holds is ever lost. -/
theorem poolsStayApart {p q : Pool} {ops : List Op} (differ : words p ≠ words q) :
    words (ops.foldl perform p) ≠ words (ops.foldl perform q) := by
  induction ops generalizing p q with
  | nil => exact differ
  | cons op ops ih => exact ih fun same => differ (performInjective same)

theorem poolsStayApartOne :
    words ([Op.random_get_bytes 5, .random_add_entropy 7].foldl perform ⟨1, 2, 3, 4, 128⟩) ≠
      words ([Op.random_get_bytes 5, .random_add_entropy 7].foldl perform ⟨1, 2, 3, 5, 128⟩) :=
  poolsStayApart (by decide)

/-- Outputs alone never mix the words: four of them take each word to one that depends on
nothing else. -/
theorem wordsNeverMix (p : Pool) (n : Nat) : words ((fun p => (next_u32 p).2)^[4 * n] p) =
    (scramble^[n] p.rs0, scramble^[n] p.rs1, scramble^[n] p.rs2, scramble^[n] p.rs3) := by
  induction n generalizing p with
  | zero => rfl
  | succ n ih =>
    rw [Nat.mul_succ, Function.iterate_add_apply, ih]
    rfl

end Scepter.Random
