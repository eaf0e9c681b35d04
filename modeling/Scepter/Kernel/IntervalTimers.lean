import Mathlib.Algebra.Group.Nat.Defs
import Scepter.Kernel.Errno

/-! The interval timers and alarm (kernel/syscall.c) and what a tick does to them (timer_tick in
kernel/sched.c). A tick is 10000 microseconds. -/
namespace Scepter.IntervalTimers

def ITIMER_REAL : Int := 0
def ITIMER_VIRTUAL : Int := 1
def ITIMER_PROF : Int := 2

structure TimeVal where
  sec : BitVec 32
  usec : BitVec 32

structure ItimerVal where
  interval : TimeVal
  value : TimeVal

structure Timer where
  remaining : Nat
  interval : Nat
  deriving DecidableEq

structure Task where
  itimer : Timer
  vtimer : Timer
  ptimer : Timer

def timerOf (task : Task) (which : Int) : Option Timer :=
  if which = ITIMER_REAL then some task.itimer
  else if which = ITIMER_VIRTUAL then some task.vtimer
  else if which = ITIMER_PROF then some task.ptimer
  else none

def setTimer (task : Task) (which : Int) (timer : Timer) : Task :=
  if which = ITIMER_REAL then {task with itimer := timer}
  else if which = ITIMER_VIRTUAL then {task with vtimer := timer}
  else {task with ptimer := timer}

/-! ## The calls -/

def timespecToTicks (sec nsec : BitVec 32) : Nat :=
  let t := (sec.toNat * 100 + nsec.toNat / 10000000) % 2 ^ 32
  if (0 < sec.toInt ∨ 0 < nsec.toInt) ∧ nsec.toInt.tmod 10000000 ≠ 0 then (t + 1) % 2 ^ 32 else t

def ticksOf (v : TimeVal) : Nat := if v.sec = 0 ∧ v.usec = 0 then 0 else timespecToTicks v.sec v.usec

def timeOf (ticks : Nat) : TimeVal :=
  ⟨BitVec.ofNat 32 (ticks / 100), BitVec.ofNat 32 (ticks % 100 * 10000)⟩

def getTimer (timer : Timer) : ItimerVal := ⟨timeOf timer.interval, timeOf timer.remaining⟩

def sysGetitimer (task : Task) (which : Int) : Except Int ItimerVal :=
  match timerOf task which with
  | none => .error EINVAL
  | some timer => .ok (getTimer timer)

def sysSetitimer (task : Task) (which : Int) (new : ItimerVal) : Except Int (ItimerVal × Task) :=
  match timerOf task which with
  | none => .error EINVAL
  | some timer => .ok (getTimer timer,
      setTimer task which ⟨ticksOf new.value, ticksOf new.interval⟩)

def sysAlarm (task : Task) (seconds : BitVec 32) : Nat × Task :=
  ((task.itimer.remaining + 99) % 2 ^ 32 / 100,
    {task with itimer := ⟨seconds.toNat * 100 % 2 ^ 32, 0⟩})

def tick (timer : Timer) : Timer × Bool :=
  if 0 < timer.remaining then
    if timer.remaining - 1 = 0 then ({timer with remaining := timer.interval}, true)
    else ({timer with remaining := timer.remaining - 1}, false)
  else (timer, false)

def expiresAt : Nat → Timer → Bool
  | 0, _ => false
  | 1, timer => (tick timer).2
  | k + 2, timer => !(tick timer).2 && expiresAt (k + 1) (tick timer).1

/-! ## What should hold -/

def TimeVal.micros (v : TimeVal) : Int := v.sec.toInt * 1000000 + v.usec.toInt

structure Near (v back : TimeVal) : Prop where
  low : v.micros - 10000 ≤ back.micros
  high : back.micros ≤ v.micros + 10000
  exact : v.sec.toNat * 100 + v.usec.toNat / 10000000 + 1 < 2 ^ 32

def GetsBack (task : Task) (which : Int) (v : ItimerVal) : Prop :=
  ∃ old task' back, sysSetitimer task which v = .ok (old, task') ∧
    sysGetitimer task' which = .ok back ∧ Near v.value back.value ∧ Near v.interval back.interval

def tickTime (now k : Nat) : Nat := (now / 10000 + k) * 10000

def AlarmRight (task : Task) (now : Nat) (n : BitVec 32) : Prop :=
  if n = 0 then ∀ k, expiresAt k (sysAlarm task n).2.itimer = false
  else n.toNat * 100 < 2 ^ 32 ∧ ∃ k, expiresAt k (sysAlarm task n).2.itimer = true ∧
    now + n.toNat * 1000000 ≤ tickTime now k

def Fine (v : TimeVal) : Prop := v.sec.toNat ≤ 42949672 ∧ v.usec.toNat ≤ 20000
instance (v : TimeVal) : Decidable (Fine v) := by unfold Fine; infer_instance

section
variable {task : Task} {which : Int} {v : ItimerVal}

theorem timeOfMicros {ticks : Nat} (fits : ticks < 2 ^ 32) :
    (timeOf ticks).micros = ticks * 10000 := by
  have seconds : (BitVec.ofNat 32 (ticks / 100)).toInt = (ticks / 100 : Nat) :=
    cIntSmall (by omega)
  have rest : (BitVec.ofNat 32 (ticks % 100 * 10000)).toInt = (ticks % 100 * 10000 : Nat) :=
    cIntSmall (by omega)
  unfold TimeVal.micros timeOf
  dsimp only
  rw [seconds, rest]
  omega

theorem ticksSmall (v : TimeVal) : ticksOf v < 2 ^ 32 := by
  unfold ticksOf timespecToTicks
  dsimp only
  split
  · decide
  · split <;> exact Nat.mod_lt _ (by decide)

theorem zeroWord (x : BitVec 32) : x = 0 ↔ x.toNat = 0 := by
  rw [← BitVec.toNat_inj]
  rfl

theorem fineTicks {v : TimeVal} (fine : Fine v) :
    ticksOf v = v.sec.toNat * 100 + if v.usec.toNat = 0 then 0 else 1 := by
  obtain ⟨seconds, micros⟩ := fine
  have sec : v.sec.toInt = v.sec.toNat := BitVec.toInt_eq_toNat_of_lt (by omega)
  have usec : v.usec.toInt = v.usec.toNat := BitVec.toInt_eq_toNat_of_lt (by omega)
  unfold ticksOf timespecToTicks
  simp only [zeroWord]
  rw [sec, usec, Int.tmod_eq_emod_of_nonneg (Int.natCast_nonneg _)]
  generalize v.sec.toNat = s at seconds ⊢
  generalize v.usec.toNat = u at micros ⊢
  by_cases none : u = 0
  · rw [none]
    by_cases still : s = 0
    · rw [still]
      rfl
    · rw [if_neg (by omega), if_neg (by omega), if_pos rfl]
      omega
  · rw [if_neg (by omega), if_pos (by omega), if_neg none]
    omega

theorem nearIff (v : TimeVal) : Near v (timeOf (ticksOf v)) ↔ Fine v := by
  have sec := BitVec.toInt_eq_toNat_cond v.sec
  have usec := BitVec.toInt_eq_toNat_cond v.usec
  have words := And.intro v.sec.isLt v.usec.isLt
  have back := timeOfMicros (ticksSmall v)
  constructor
  · rintro ⟨low, high, exact_⟩
    rw [back] at low high
    have ticks : v.sec.toNat * 100 + v.usec.toNat / 10000000 ≤ ticksOf v ∧
        ticksOf v ≤ v.sec.toNat * 100 + v.usec.toNat / 10000000 + 1 := by
      unfold ticksOf timespecToTicks
      split <;> rename_i none
      · rw [none.1, none.2]
        decide
      · dsimp only
        split <;> omega
    unfold TimeVal.micros at low high
    unfold Fine
    split at sec <;> split at usec <;> omega
  · intro fine
    have ticks := fineTicks fine
    obtain ⟨seconds, micros⟩ := id fine
    rw [if_pos (by omega)] at sec usec
    refine ⟨?_, ?_, by omega⟩ <;> rw [back] <;> unfold TimeVal.micros <;> split at ticks <;> omega

theorem setGet (known : (timerOf task which).isSome) :
    sysGetitimer (setTimer task which ⟨ticksOf v.value, ticksOf v.interval⟩) which =
      .ok ⟨timeOf (ticksOf v.interval), timeOf (ticksOf v.value)⟩ := by
  unfold sysGetitimer timerOf setTimer
  unfold timerOf at known
  by_cases real : which = ITIMER_REAL
  · rw [if_pos real, if_pos real]
    rfl
  · rw [if_neg real] at known
    rw [if_neg real, if_neg real]
    by_cases virtual : which = ITIMER_VIRTUAL
    · rw [if_pos virtual, if_pos virtual]
      rfl
    · rw [if_neg virtual] at known
      rw [if_neg virtual, if_neg virtual]
      by_cases prof : which = ITIMER_PROF
      · rw [if_pos prof]
        rfl
      · rw [if_neg prof] at known
        cases known

theorem getsBackIff (known : (timerOf task which).isSome) :
    GetsBack task which v ↔ Fine v.value ∧ Fine v.interval := by
  obtain ⟨timer, is⟩ := Option.isSome_iff_exists.mp known
  have got := setGet (v := v) known
  rw [← nearIff, ← nearIff]
  unfold GetsBack sysSetitimer
  rw [is]
  constructor
  · rintro ⟨_, _, back, ⟨⟩, gives, value, interval⟩
    rw [got] at gives
    cases gives
    exact ⟨value, interval⟩
  · rintro ⟨value, interval⟩
    exact ⟨_, _, _, rfl, got, value, interval⟩

/-! ## alarm -/

theorem expiresIff (k : Nat) (timer : Timer) :
    expiresAt k timer = true ↔ 0 < k ∧ k = timer.remaining := by
  induction k using Nat.strong_induction_on generalizing timer with
  | _ k ih => match k with
    | 0 => simp [expiresAt]
    | 1 =>
      unfold expiresAt tick
      by_cases none : 0 < timer.remaining
      · rw [if_pos none]
        split <;> simp <;> omega
      · rw [if_neg none]
        simp
        omega
    | k + 2 =>
      rw [expiresAt, Bool.and_eq_true, ih (k + 1) (by omega)]
      unfold tick
      by_cases none : 0 < timer.remaining
      · rw [if_pos none]
        split <;> simp <;> omega
      · rw [if_neg none]
        simp
        omega

theorem alarmIff (task : Task) (now : Nat) (n : BitVec 32) :
    AlarmRight task now n ↔ n = 0 ∨ (n.toNat ≤ 42949672 ∧ now % 10000 = 0) := by
  unfold AlarmRight
  by_cases none : n = 0
  · rw [if_pos none, none]
    simp only [true_or, iff_true]
    refine fun k => Bool.eq_false_iff.mpr fun ends => ?_
    obtain ⟨some', same⟩ := (expiresIff k _).mp ends
    have zero : (sysAlarm task 0).2.itimer.remaining = 0 := rfl
    omega
  · have some' : n.toNat ≠ 0 := fun same => none (BitVec.eq_of_toNat_eq same)
    have ticks : (sysAlarm task n).2.itimer.remaining = n.toNat * 100 % 2 ^ 32 := rfl
    rw [if_neg none]
    simp only [none, false_or]
    constructor
    · rintro ⟨exact_, k, ends, passed⟩
      obtain ⟨-, same⟩ := (expiresIff k _).mp ends
      unfold tickTime at passed
      omega
    · rintro ⟨few, whole⟩
      refine ⟨by omega, n.toNat * 100, (expiresIff _ _).mpr ⟨by omega, ?_⟩, ?_⟩
      · rw [ticks]
        omega
      · unfold tickTime
        omega

end

/-- When the timers give back what they were set to, and when alarm is not early. -/
theorem timersRightIff (task : Task) (which : Int) (v : ItimerVal) (now : Nat) (n : BitVec 32) :
    ((timerOf task which).isSome → (GetsBack task which v ↔ Fine v.value ∧ Fine v.interval)) ∧
    (AlarmRight task now n ↔ n = 0 ∨ (n.toNat ≤ 42949672 ∧ now % 10000 = 0)) :=
  ⟨getsBackIff, alarmIff task now n⟩

def idle : Task := ⟨⟨0, 0⟩, ⟨0, 0⟩, ⟨0, 0⟩⟩

theorem secondsRight : GetsBack idle ITIMER_REAL ⟨⟨0, 0⟩, ⟨5, 20000⟩⟩ ∧ AlarmRight idle 70000 60 := by
  obtain ⟨timers, alarm⟩ := timersRightIff idle ITIMER_REAL ⟨⟨0, 0⟩, ⟨5, 20000⟩⟩ 70000 60
  exact ⟨(timers rfl).mpr (by decide), alarm.mpr (.inr (by decide))⟩

/-- Half a second is set as one tick. -/
theorem halfSecondLost : ¬ ∀ (task : Task) (which : Int) (v : ItimerVal),
    (timerOf task which).isSome → GetsBack task which v := by
  intro every
  have back := (getsBackIff rfl).mp (every idle ITIMER_REAL ⟨⟨0, 0⟩, ⟨0, 500000⟩⟩ rfl)
  exact absurd back (by decide)

end Scepter.IntervalTimers
