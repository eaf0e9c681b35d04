import Mathlib.Data.Nat.Notation

/-! A shift register with feedback: each turn shifts its word to the right and adds the
polynomial where a one falls out. Bytes go in at the low end. Turning is linear, and where
the polynomial has the top bit it can be turned back. -/
namespace Scepter.Crc

variable {w : Nat} (p : BitVec w)

def turn (c : BitVec w) : BitVec w := if c.getLsbD 0 then p ^^^ c >>> 1 else c >>> 1

def turns : Nat → BitVec w → BitVec w
  | 0, c => c
  | n + 1, c => turns n (turn p c)

def feed (c : BitVec w) (bytes : List (BitVec 8)) : BitVec w :=
  bytes.foldl (fun c b => turns p 8 (c ^^^ b.setWidth w)) c

/-- The bytes as one word, the first one lowest. -/
def word (w : Nat) : List (BitVec 8) → BitVec w
  | [] => 0
  | b :: rest => b.setWidth w ^^^ word w rest <<< 8

variable {p} {a b c : BitVec w} {n : Nat}

theorem swap (a b c : BitVec w) : b ^^^ (a ^^^ c) = a ^^^ (b ^^^ c) := by
  rw [← BitVec.xor_assoc, BitVec.xor_comm b, BitVec.xor_assoc]

theorem turnXor : turn p (a ^^^ b) = turn p a ^^^ turn p b := by
  unfold turn
  rw [BitVec.getLsbD_xor, BitVec.ushiftRight_xor_distrib]
  cases a.getLsbD 0 <;> cases b.getLsbD 0
  · rfl
  · exact (swap p (a >>> 1) (b >>> 1)).symm
  · exact (BitVec.xor_assoc p _ _).symm
  · have both := swap p (a >>> 1) (p ^^^ b >>> 1)
    rw [← BitVec.xor_assoc p, BitVec.xor_self, BitVec.zero_xor] at both
    exact (BitVec.xor_assoc p _ _ |>.trans (both ▸ rfl)).symm

theorem turnsXor : turns p n (a ^^^ b) = turns p n a ^^^ turns p n b := by
  induction n generalizing a b with
  | zero => rfl
  | succ n ih =>
    rw [turns, turnXor, ih]
    rfl

theorem turnsAdd (m n : Nat) (c : BitVec w) : turns p (m + n) c = turns p n (turns p m c) := by
  induction m generalizing c with
  | zero => rw [Nat.zero_add]; rfl
  | succ m ih =>
    rw [Nat.succ_add, turns, ih]
    rfl

theorem turnZero (top : p.msb = true) (gone : turn p c = 0) : c = 0 := by
  unfold turn at gone
  split at gone
  next low =>
    have bit := congrArg BitVec.msb gone
    simp [top] at bit
  next low =>
    apply BitVec.eq_of_getLsbD_eq
    intro i inside
    cases i with
    | zero => simpa using low
    | succ i =>
      have bit := congrArg (fun x => BitVec.getLsbD x i) gone
      simpa [Nat.add_comm] using bit

theorem turnsInjective (top : p.msb = true) (same : turns p n a = turns p n b) : a = b := by
  induction n generalizing a b with
  | zero => exact same
  | succ n ih =>
    have once : turn p (a ^^^ b) = 0 := by rw [turnXor, ih same, BitVec.xor_self]; rfl
    exact BitVec.xor_eq_zero_iff.mp (turnZero top once)

theorem feedInjective (top : p.msb = true) {bytes : List (BitVec 8)}
    (same : feed p a bytes = feed p b bytes) : a = b := by
  induction bytes generalizing a b with
  | nil => exact same
  | cons x rest ih =>
    have once := turnsInjective top (ih same)
    exact (BitVec.xor_left_inj _).mp once

theorem turnsShift (low : ∀ i < n, c.getLsbD i = false) : turns p n c = c >>> n := by
  induction n generalizing c with
  | zero => rfl
  | succ n ih =>
    have even : turn p c = c >>> 1 := by
      unfold turn
      rw [low 0 (Nat.succ_pos n)]
      rfl
    rw [turns, even, ih, ← BitVec.shiftRight_add, Nat.add_comm]
    intro i below
    rw [BitVec.getLsbD_ushiftRight]
    exact low (1 + i) (by omega)

/-- Eight turns by table: the low byte is looked up, the others are shifted. -/
theorem turnsTable (c : BitVec w) :
    turns p 8 c = turns p 8 (c &&& 0xFF#w) ^^^ c >>> 8 := by
  have parts : (c &&& 0xFF#w) ^^^ (c >>> 8) <<< 8 = c := by
    apply BitVec.eq_of_getLsbD_eq
    intro i inside
    have mask : (0xFF#w).getLsbD i = decide (i < 8) := by
      have bit : Nat.testBit 255 i = decide (i < 8) := Nat.testBit_two_pow_sub_one 8 i
      rw [BitVec.getLsbD_ofNat, bit, decide_eq_true inside, Bool.true_and]
    rw [BitVec.getLsbD_xor, BitVec.getLsbD_and, mask, BitVec.getLsbD_shiftLeft,
      BitVec.getLsbD_ushiftRight]
    by_cases low : i < 8
    · simp [low]
    · simp [low, inside, show 8 + (i - 8) = i by omega]
  have high : turns p 8 ((c >>> 8) <<< 8) = c >>> 8 := by
    rw [turnsShift fun i below => by simp [below]]
    apply BitVec.eq_of_getLsbD_eq
    intro i inside
    by_cases kept : 8 + i < w
    · simp [kept]
    · simp [kept, BitVec.getLsbD_of_ge c (8 + i) (by omega)]
  calc turns p 8 c = turns p 8 ((c &&& 0xFF#w) ^^^ (c >>> 8) <<< 8) := by rw [parts]
    _ = turns p 8 (c &&& 0xFF#w) ^^^ c >>> 8 := by rw [turnsXor, high]

theorem wordSmall {bytes : List (BitVec 8)} {i : Nat} (above : 8 * bytes.length ≤ i) :
    (word w bytes).getLsbD i = false := by
  induction bytes generalizing i with
  | nil => simp [word]
  | cons x rest ih =>
    rw [List.length_cons] at above
    have later := @ih (i - 8) (by omega)
    simp [word, later, show 8 ≤ i by omega]

theorem feedWord {bytes : List (BitVec 8)} (fits : 8 * bytes.length ≤ w) :
    feed p c bytes = turns p (8 * bytes.length) (c ^^^ word w bytes) := by
  induction bytes generalizing c with
  | nil => simp [feed, word, turns]
  | cons x rest ih =>
    rw [List.length_cons] at fits
    have back : turns p 8 (word w rest <<< 8) = word w rest := by
      rw [turnsShift fun i below => by simp [below]]
      apply BitVec.eq_of_getLsbD_eq
      intro i inside
      by_cases kept : 8 + i < w
      · simp [kept, inside, show ¬8 + i < 8 by omega]
      · simp [kept, @wordSmall w rest i (by omega)]
    have first : feed p c (x :: rest) = feed p (turns p 8 (c ^^^ x.setWidth w)) rest := rfl
    rw [first, ih (by omega), List.length_cons, Nat.mul_succ, Nat.add_comm, turnsAdd, word]
    rw [← BitVec.xor_assoc c, turnsXor (a := c ^^^ x.setWidth w), back]

theorem wordInjective {xs ys : List (BitVec 8)} (long : xs.length = ys.length)
    (fits : 8 * xs.length ≤ w) (same : word w xs = word w ys) : xs = ys := by
  induction xs generalizing ys with
  | nil => exact (List.length_eq_zero_iff.mp long.symm).symm
  | cons x xs ih =>
    cases ys with
    | nil => cases long
    | cons y ys =>
      rw [List.length_cons] at fits
      have bits := fun i => congrArg (fun v => BitVec.getLsbD v i) same
      have first : x = y := by
        apply BitVec.eq_of_getLsbD_eq
        intro i below
        have bit := bits i
        simpa [word, below, show i < w by omega] using bit
      have later : word w xs = word w ys := by
        rw [word, word, first] at same
        have shifted := (BitVec.xor_right_inj _).mp same
        apply BitVec.eq_of_getLsbD_eq
        intro i inside
        by_cases kept : 8 + i < w
        · have bit := congrArg (fun v => BitVec.getLsbD v (8 + i)) shifted
          simpa [kept, inside, show ¬8 + i < 8 by omega] using bit
        · have long := Nat.succ.inj long
          rw [wordSmall (by omega), wordSmall (by omega)]
      rw [first, ih (Nat.succ.inj long) (by omega) later]

/-- Bytes that fit into the register leave different words where they differ. -/
theorem burstSeen (top : p.msb = true) {xs ys : List (BitVec 8)} (long : xs.length = ys.length)
    (fits : 8 * xs.length ≤ w) (same : feed p c xs = feed p c ys) : xs = ys := by
  rw [feedWord fits, feedWord (long ▸ fits), ← long] at same
  exact wordInjective long fits ((BitVec.xor_right_inj _).mp (turnsInjective top same))

end Scepter.Crc
