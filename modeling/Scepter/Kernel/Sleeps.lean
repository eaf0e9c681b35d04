import Scepter.Lib.CInt
import Scepter.Lib.Wakeups
import Scepter.Kernel.Errno

/-! The calls that sleep for a time: sys_nanosleep (kernel/process.c), sys_clock_nanosleep
(kernel/syscall_new.c) and do_poll (kernel/syscall.c), with no signal and nothing ready. Time is
in nanoseconds since the counter of ticks was 0. -/
namespace Scepter.Sleeps
open Wakeups (sleepUntil Wakes TimesOut need)
open CInt (int)

def TICK : Nat := 10000000
def INT_MAX : Int := 2 ^ 31 - 1
def CLOCK_REALTIME : Int := 0
def CLOCK_MONOTONIC : Int := 1

def counter (k : Nat) : Nat := k % 2 ^ 32

structure Timespec where
  sec : Int
  nsec : Int

def Timespec.Valid (req : Timespec) : Prop :=
  0 ≤ req.sec ∧ req.sec < 2 ^ 31 ∧ 0 ≤ req.nsec ∧ req.nsec < 1000000000
instance (req : Timespec) : Decidable req.Valid := by unfold Timespec.Valid; infer_instance

def Timespec.ns (req : Timespec) : Nat := (req.sec * 1000000000 + req.nsec).toNat

/-! ## The calls -/

/-- A call as the times at which it looks and the looks that it may take make it: its result and
the time of it, `none` while it sleeps. -/
abbrev Call := (Nat → Nat) → Nat → Option (Int × Nat)

def totalTicks (req : Timespec) : Nat :=
  (req.sec.toNat % 2 ^ 32 * 100 + (req.nsec.toNat + 9999999) / 10000000) % 2 ^ 32

def sleepTicks (total : Nat) : Call := fun times fuel =>
  let target := (counter (times 0 / TICK) + total) % 2 ^ 32
  (sleepUntil TICK (fun k => ¬ counter k < target) times fuel 0).map fun t => (0, t)

def sysNanosleep (req : Timespec) : Call := fun times fuel =>
  if req.sec < 0 ∨ req.nsec < 0 ∨ req.nsec ≥ 1000000000 then some (-EINVAL, times 0)
  else sleepTicks (totalTicks req) times fuel

/-- The milliseconds that TIMER_ABSTIME finds left, as a uint32_t. -/
def leftMs (req : Timespec) (now : Nat) : Nat :=
  ((req.sec * 1000 + req.nsec % 2 ^ 32 / 1000000 - counter (now / TICK) * 10) % 2 ^ 32).toNat

def sysClockNanosleep (clockid : Int) (flags : Nat) (req : Timespec) : Call := fun times fuel =>
  if clockid ≠ CLOCK_REALTIME ∧ clockid ≠ CLOCK_MONOTONIC then some (-EINVAL, times 0)
  else if flags % 2 = 1 then
    let left := leftMs req (times 0)
    if 0 ≤ int (-left) then some (0, times 0)
    else sysNanosleep ⟨int (left / 1000 : Nat), int (left % 1000 * 1000000 : Nat)⟩ times fuel
  else sysNanosleep req times fuel

def doPoll (timeout : Int) : Call := fun times fuel =>
  let deadline : Nat := if timeout ≥ 0 then
    (counter (times 0 / TICK) + ((int (timeout + 9)).tdiv 10 % 2 ^ 32).toNat) % 2 ^ 32 else 0
  (sleepUntil TICK (fun k => timeout = 0 ∨
    (deadline ≠ 0 ∧ 0 ≤ int ((counter k : Int) - deadline))) times fuel 0).map fun t => (0, t)

/-! ## What should hold -/

/-- Called at `t₀`, and with looks that may be `g` ticks late, the call returns 0 at no time
before the deadline, and at every look from the deadline on it has returned. -/
structure Keeps (g t₀ deadline : Nat) (call : Call) : Prop where
  early : ∀ times, Wakes TICK g t₀ times → ∀ fuel t, call times fuel = some (0, t) → deadline ≤ t
  ends : ∀ times, Wakes TICK g t₀ times → ∀ i, deadline ≤ times i →
    ∃ t ≤ times i, call times (i + 1) = some (0, t)

def ticksOf (ns : Nat) : Nat := (ns + 9999999) / 10000000

/-- The duration is 0, or what is left of it in its last tick makes up for the part of a tick that
has passed at the call, and the counter does not wrap around before the last look. -/
def InTicks (g t₀ ns : Nat) : Prop :=
  ns = 0 ∨ (t₀ % TICK + ns ≤ ticksOf ns * TICK ∧ counter (t₀ / TICK) + ticksOf ns + g < 2 ^ 32)

/-- The milliseconds left lead to the first tick at or behind the deadline, and the counter does
not wrap around before the last look. Where it does the call returns at once. -/
def LeftRight (g t₀ deadline left : Nat) : Prop :=
  if left = 0 ∨ 2 ^ 31 < left ∨ 2 ^ 32 ≤ counter (t₀ / TICK) + (left + 9) / 10 then deadline ≤ t₀
  else t₀ < deadline ∧ (left + 9) / 10 = need TICK t₀ deadline ∧
    counter (t₀ / TICK) + (left + 9) / 10 + g < 2 ^ 32
instance (g t₀ deadline left) : Decidable (LeftRight g t₀ deadline left) := by
  unfold LeftRight; infer_instance

def PollRight (g t₀ : Nat) (timeout : Int) : Prop :=
  timeout = 0 ∨ (timeout + 9 ≤ INT_MAX ∧ g < 2 ^ 31 ∧
    (counter (t₀ / TICK) + ticksOf (timeout.toNat * 1000000)) % 2 ^ 32 ≠ 0 ∧
    t₀ % TICK + timeout.toNat * 1000000 ≤ ticksOf (timeout.toNat * 1000000) * TICK)

def clockBase (clockid : Int) (boot : Nat) : Nat :=
  if clockid = CLOCK_REALTIME then boot * 1000000000 else 0

section
variable {g t₀ deadline : Nat} {call : Call} {done : Nat → Bool} {req : Timespec}

theorem tickPos : 0 < TICK := by decide

theorem keepsLoop (loop : ∀ times, Wakes TICK g t₀ times → ∀ fuel,
      call times fuel = (sleepUntil TICK done times fuel 0).map fun t => (0, t)) :
    Keeps g t₀ deadline call ↔ TimesOut TICK g t₀ deadline done := by
  have same {times} (wakes : Wakes TICK g t₀ times) (fuel t : Nat) :
      call times fuel = some (0, t) ↔ sleepUntil TICK done times fuel 0 = some t := by
    rw [loop times wakes fuel, Option.map_eq_some_iff]
    constructor
    · rintro ⟨_, ended, ⟨⟩⟩
      exact ended
    · exact fun ended => ⟨t, ended, rfl⟩
  constructor
  · refine fun keeps => ⟨fun times wakes fuel t ended => ?_, fun times wakes i passed => ?_⟩
    · exact keeps.early times wakes fuel t ((same wakes fuel t).mpr ended)
    · obtain ⟨t, low, ended⟩ := keeps.ends times wakes i passed
      exact ⟨t, low, (same wakes _ t).mp ended⟩
  · refine fun out => ⟨fun times wakes fuel t ended => ?_, fun times wakes i passed => ?_⟩
    · exact out.early times wakes fuel t ((same wakes fuel t).mp ended)
    · obtain ⟨t, low, ended⟩ := out.ends times wakes i passed
      exact ⟨t, low, (same wakes _ t).mpr ended⟩

theorem keepsSame {other : Call} (same : ∀ times, Wakes TICK g t₀ times → ∀ fuel,
      call times fuel = other times fuel) : Keeps g t₀ deadline call ↔ Keeps g t₀ deadline other := by
  constructor <;> refine fun keeps => ⟨fun times wakes fuel t ended => ?_,
    fun times wakes i passed => ?_⟩
  · exact keeps.early times wakes fuel t ((same times wakes fuel).trans ended)
  · rw [← same times wakes]
    exact keeps.ends times wakes i passed
  · exact keeps.early times wakes fuel t ((same times wakes fuel).symm.trans ended)
  · rw [same times wakes]
    exact keeps.ends times wakes i passed

theorem keepsAtOnce (returns : ∀ times, Wakes TICK g t₀ times → ∀ fuel,
      call times fuel = some (0, times 0)) : Keeps g t₀ deadline call ↔ deadline ≤ t₀ := by
  constructor
  · intro keeps
    have wakes := Wakeups.skippingWakes (g := g) tickPos t₀ Nat.one_pos (Nat.zero_le g)
    exact keeps.early _ wakes 0 _ (returns _ wakes 0)
  · refine fun passed => ⟨fun times wakes fuel t ended => ?_, fun times wakes i _ => ?_⟩
    · rw [returns times wakes fuel] at ended
      cases ended
      rwa [wakes.first]
    · exact ⟨times 0, wakes.mono (Nat.zero_le i), returns times wakes _⟩

/-! ## The loops -/

theorem sleepTicksIff (total : Nat) : Keeps g t₀ deadline (sleepTicks total) ↔
    (deadline ≤ t₀ ∧ (counter (t₀ / TICK) + total) % 2 ^ 32 ≤ counter (t₀ / TICK)) ∨
      (t₀ < deadline ∧
        (counter (t₀ / TICK) + total) % 2 ^ 32 = counter (t₀ / TICK) + need TICK t₀ deadline ∧
        counter (t₀ / TICK) + need TICK t₀ deadline + g < 2 ^ 32) := by
  have target : (counter (t₀ / TICK) + total) % 2 ^ 32 < 2 ^ 32 := Nat.mod_lt _ (by decide)
  have loop (times) (wakes : Wakes TICK g t₀ times) (fuel : Nat) :
      sleepTicks total times fuel = (sleepUntil TICK
        (fun k => ¬ counter k < (counter (t₀ / TICK) + total) % 2 ^ 32) times fuel 0).map
          fun t => (0, t) := by
    unfold sleepTicks
    rw [wakes.first]
  rw [keepsLoop loop]
  clear loop
  generalize (counter (t₀ / TICK) + total) % 2 ^ 32 = aim at target ⊢
  rcases Nat.lt_or_ge t₀ deadline with later | passed
  · have some' := Wakeups.needPos tickPos later
    rw [Wakeups.timesOutLater tickPos later]
    simp only [decide_eq_false_iff_not, decide_eq_true_eq, Nat.not_lt]
    generalize need TICK t₀ deadline = n at some' ⊢
    unfold counter
    constructor
    · rintro ⟨waits, ends⟩
      refine .inr ⟨later, ?_⟩
      have last := waits (n - 1) (by omega)
      have first := ends 0 (Nat.zero_le g)
      have unwrapped : t₀ / TICK % 2 ^ 32 + n + g < 2 ^ 32 := by
        by_contra wraps
        by_cases soon : 2 ^ 32 - 1 - t₀ / TICK % 2 ^ 32 < n
        · have top := waits _ soon
          omega
        · have zero := ends (2 ^ 32 - t₀ / TICK % 2 ^ 32 - n) (by omega)
          have start := waits 0 some'
          omega
      omega
    · rintro (⟨passed, _⟩ | ⟨_, same, unwrapped⟩)
      · omega
      · refine ⟨fun m before => ?_, fun late few => ?_⟩ <;> omega
  · rw [Wakeups.timesOutPassed tickPos passed]
    simp only [decide_eq_true_eq, Nat.not_lt, passed, true_and]
    omega

theorem needLess {ns : Nat} (some' : 0 < ns) : need TICK t₀ (t₀ + ns) ≤ ticksOf ns ↔
    t₀ % TICK + ns ≤ ticksOf ns * TICK := by
  unfold need ticksOf TICK
  rw [if_neg (by omega)]
  omega

theorem needMore {ns : Nat} : ticksOf ns ≤ need TICK t₀ (t₀ + ns) := by
  unfold need ticksOf TICK
  split <;> omega

theorem totalTicksOf (valid : req.Valid) : totalTicks req = ticksOf req.ns % 2 ^ 32 := by
  obtain ⟨low, high, nanos, few⟩ := valid
  unfold totalTicks ticksOf Timespec.ns
  omega

theorem nanosleepTaken (low : 0 ≤ req.sec) (nanos : 0 ≤ req.nsec) (few : req.nsec < 1000000000) :
    sysNanosleep req = sleepTicks (totalTicks req) := by
  funext times fuel
  unfold sysNanosleep
  rw [if_neg (by omega)]

theorem nanosleepIff (valid : req.Valid) (g t₀ : Nat) :
    Keeps g t₀ (t₀ + req.ns) (sysNanosleep req) ↔ InTicks g t₀ req.ns := by
  rw [nanosleepTaken valid.1 valid.2.2.1 valid.2.2.2, sleepTicksIff, totalTicksOf valid]
  have more := @needMore t₀ req.ns
  have small : counter (t₀ / TICK) < 2 ^ 32 := Nat.mod_lt _ (by decide)
  unfold InTicks
  by_cases none : req.ns = 0
  · rw [none]
    simp only [Nat.add_zero, Nat.le_refl, true_and, true_or, iff_true]
    left
    unfold ticksOf
    omega
  · rw [← needLess (Nat.pos_of_ne_zero none)]
    generalize ticksOf req.ns = n at more ⊢
    generalize need TICK t₀ (t₀ + req.ns) = k at more ⊢
    generalize counter (t₀ / TICK) = c at small ⊢
    omega

theorem absoluteIff {clockid : Int} {flags : Nat} (req : Timespec) (g t₀ deadline : Nat)
    (known : clockid = CLOCK_REALTIME ∨ clockid = CLOCK_MONOTONIC) (absolute : flags % 2 = 1) :
    Keeps g t₀ deadline (sysClockNanosleep clockid flags req) ↔
      LeftRight g t₀ deadline (leftMs req t₀) := by
  have word : leftMs req t₀ < 2 ^ 32 := by
    unfold leftMs
    omega
  have sign : 0 ≤ int (-(leftMs req t₀)) ↔ leftMs req t₀ = 0 ∨ 2 ^ 31 < leftMs req t₀ := by
    unfold int
    omega
  have calls {times} (wakes : Wakes TICK g t₀ times) (fuel : Nat) :
      sysClockNanosleep clockid flags req times fuel =
        if leftMs req t₀ = 0 ∨ 2 ^ 31 < leftMs req t₀ then some (0, times 0)
        else sysNanosleep ⟨int (leftMs req t₀ / 1000 : Nat),
          int (leftMs req t₀ % 1000 * 1000000 : Nat)⟩ times fuel := by
    unfold sysClockNanosleep
    rw [if_neg fun neither => known.elim neither.1 neither.2, if_pos absolute, wakes.first]
    dsimp only
    simp only [sign]
  generalize leftMs req t₀ = left at word calls ⊢
  unfold LeftRight
  by_cases atOnce : left = 0 ∨ 2 ^ 31 < left
  · rw [if_pos (atOnce.imp_right .inl)]
    exact keepsAtOnce fun times wakes fuel => by rw [calls wakes fuel, if_pos atOnce]
  · have total : totalTicks ⟨(left / 1000 : Nat), (left % 1000 * 1000000 : Nat)⟩ =
        (left + 9) / 10 := by
      unfold totalTicks
      dsimp only
      omega
    have taken {times} (wakes : Wakes TICK g t₀ times) (fuel : Nat) :
        sysClockNanosleep clockid flags req times fuel = sleepTicks ((left + 9) / 10) times fuel := by
      rw [calls wakes fuel, if_neg atOnce, CInt.intFits (by omega) (by omega),
        CInt.intFits (by omega) (by omega), nanosleepTaken (Int.natCast_nonneg _)
          (Int.natCast_nonneg _) (by dsimp only; omega), total]
    rw [keepsSame fun times wakes fuel => taken wakes fuel, sleepTicksIff]
    have small : counter (t₀ / TICK) < 2 ^ 32 := Nat.mod_lt _ (by decide)
    generalize need TICK t₀ deadline = n
    generalize counter (t₀ / TICK) = c at small ⊢
    split <;> omega

theorem pollTicks {timeout : Int} (some' : 0 ≤ timeout) (fits : timeout ≤ 2 ^ 31 - 1) :
    ((int (timeout + 9)).tdiv 10 % 2 ^ 32).toNat =
      if timeout + 9 < 2 ^ 31 then ((timeout + 9) / 10).toNat else 2 ^ 32 - 214748364 := by
  split <;> rename_i narrow
  · rw [CInt.intFits (by omega) narrow, CInt.tdivSplit, if_pos (by omega)]
    omega
  · unfold int
    rw [CInt.tdivSplit, if_neg (by omega)]
    omega

theorem pollIff (g t₀ : Nat) {timeout : Int} (some' : 0 ≤ timeout) (fits : timeout ≤ INT_MAX) :
    Keeps g t₀ (t₀ + timeout.toNat * 1000000) (doPoll timeout) ↔ PollRight g t₀ timeout := by
  unfold INT_MAX at fits
  have loop (times) (wakes : Wakes TICK g t₀ times) (fuel : Nat) :
      doPoll timeout times fuel = (sleepUntil TICK (fun k => timeout = 0 ∨
        ((counter (t₀ / TICK) + ((int (timeout + 9)).tdiv 10 % 2 ^ 32).toNat) % 2 ^ 32 ≠ 0 ∧
          0 ≤ int ((counter k : Int) - ((counter (t₀ / TICK) +
            ((int (timeout + 9)).tdiv 10 % 2 ^ 32).toNat) % 2 ^ 32 : Nat))))
        times fuel 0).map fun t => (0, t) := by
    unfold doPoll
    rw [wakes.first, if_pos some']
  rw [keepsLoop loop]
  unfold PollRight INT_MAX
  by_cases none : timeout = 0
  · rw [none, Int.toNat_zero, Nat.zero_mul, Nat.add_zero,
      Wakeups.timesOutPassed tickPos (Nat.le_refl _)]
    simp
  · have later : t₀ < t₀ + timeout.toNat * 1000000 := by omega
    have start := Wakeups.needPos tickPos later
    have more := @needMore t₀ (timeout.toNat * 1000000)
    have less := @needLess t₀ (timeout.toNat * 1000000) (by omega)
    have ticks : ticksOf (timeout.toNat * 1000000) = ((timeout + 9) / 10).toNat := by
      unfold ticksOf
      omega
    rw [Wakeups.timesOutLater tickPos later, ← less]
    simp only [none, false_or, decide_eq_false_iff_not, decide_eq_true_eq]
    rw [ticks] at more ⊢
    generalize need TICK t₀ (t₀ + timeout.toNat * 1000000) = n at start more ⊢
    clear loop less ticks later
    by_cases narrow : timeout + 9 < 2 ^ 31
    · rw [pollTicks some' fits, if_pos narrow]
      have half : ((timeout + 9) / 10).toNat < 2 ^ 31 := by omega
      generalize ((timeout + 9) / 10).toNat = k at more half ⊢
      unfold int counter
      constructor
      · rintro ⟨waits, ends⟩
        obtain ⟨nonzero, _⟩ := ends 0 (Nat.zero_le g)
        have same : n ≤ k := by
          by_contra beyond
          refine waits k (by omega) ⟨nonzero, ?_⟩
          omega
        refine ⟨by omega, ?_, nonzero, same⟩
        by_contra late
        obtain ⟨_, sign⟩ := ends (2 ^ 31) (by omega)
        omega
      · rintro ⟨_, late, nonzero, same⟩
        refine ⟨fun m before both => ?_, fun l few => ⟨nonzero, ?_⟩⟩
        · obtain ⟨_, sign⟩ := both
          omega
        · omega
    · rw [pollTicks some' fits, if_neg narrow]
      constructor
      · rintro ⟨waits, ends⟩
        obtain ⟨nonzero, _⟩ := ends 0 (Nat.zero_le g)
        refine absurd ⟨nonzero, ?_⟩ (waits 0 start)
        unfold int counter
        omega
      · rintro ⟨fine, _⟩
        omega

/-- When each of the calls keeps its duration, or the absolute time that it is given, whatever the
counter shows, and however the looks come. -/
theorem sleepsKeepIff (g t₀ boot : Nat) (req : Timespec) (valid : req.Valid) (timeout : Int)
    (some' : 0 ≤ timeout) (fits : timeout ≤ INT_MAX) :
    (Keeps g t₀ (t₀ + req.ns) (sysNanosleep req) ↔ InTicks g t₀ req.ns) ∧
    (∀ clockid flags, clockid = CLOCK_REALTIME ∨ clockid = CLOCK_MONOTONIC →
      (flags % 2 = 0 → (Keeps g t₀ (t₀ + req.ns) (sysClockNanosleep clockid flags req) ↔
        InTicks g t₀ req.ns)) ∧
      (flags % 2 = 1 →
        (Keeps g t₀ (req.ns - clockBase clockid boot) (sysClockNanosleep clockid flags req) ↔
          LeftRight g t₀ (req.ns - clockBase clockid boot) (leftMs req t₀)))) ∧
    (Keeps g t₀ (t₀ + timeout.toNat * 1000000) (doPoll timeout) ↔ PollRight g t₀ timeout) := by
  refine ⟨nanosleepIff valid g t₀, fun clockid flags known => ⟨fun relative => ?_,
    fun absolute => absoluteIff req g t₀ _ known absolute⟩, pollIff g t₀ some' fits⟩
  have same : sysClockNanosleep clockid flags req = sysNanosleep req := by
    funext times fuel
    unfold sysClockNanosleep
    rw [if_neg fun neither => known.elim neither.1 neither.2, if_neg (by omega)]
  rw [same]
  exact nanosleepIff valid g t₀

/-- Called 3 ms into a tick: 25 ms are rounded up by 5 ms, 30 ms by nothing. -/
theorem quarterKept :
    Keeps 100 3000000 28000000 (sysNanosleep ⟨0, 25000000⟩) ∧
      Keeps 0 3000000 28000000 (sysClockNanosleep CLOCK_MONOTONIC 1 ⟨0, 28000000⟩) ∧
      ¬ Keeps 0 3000000 33000000 (doPoll 30) := by
  obtain ⟨sleep, clock, poll⟩ := sleepsKeepIff 0 3000000 0 ⟨0, 28000000⟩ (by decide) 30 (by decide)
    (by decide)
  obtain ⟨late, -, -⟩ := sleepsKeepIff 100 3000000 0 ⟨0, 25000000⟩ (by decide) 0 (by decide)
    (by decide)
  refine ⟨late.mpr (.inr (by decide)), ?_, fun keeps => ?_⟩
  · exact ((clock CLOCK_MONOTONIC 1 (.inr rfl)).2 rfl).mpr (by decide)
  · obtain none | ⟨_, _, _, short⟩ := poll.mp keeps
    · cases none
    · exact absurd short (by decide)

end

/-- One tick before the counter wraps around, poll(fds, n, 10) computes the deadline 0, which it
takes for none. -/
theorem pollSleepsOn : ¬ ∀ (t₀ : Nat) (timeout : Int), 0 ≤ timeout → timeout ≤ INT_MAX →
    Keeps 0 t₀ (t₀ + timeout.toNat * 1000000) (doPoll timeout) := by
  intro every
  have right := (pollIff 0 _ (by decide) (by decide)).mp (every (4294967295 * TICK) 10 (by decide)
    (by decide))
  obtain none | ⟨_, _, nonzero, _⟩ := right
  · cases none
  · exact nonzero (by decide)

end Scepter.Sleeps
