import Mathlib.Algebra.Group.Nat.Defs
import Mathlib.Order.Basic

/-! A sleeper that a clock of period `T` wakes. It looks once when it starts and then once
after ticks that wake it, and may miss up to `g` ticks between two looks. Whether a deadline is
kept in every such run is a question of the ticks alone. -/
namespace Scepter.Wakeups

variable {T g t₀ deadline : Nat} {done : Nat → Bool} {times : Nat → Nat}

def sleepUntil (T : Nat) (done : Nat → Bool) (times : Nat → Nat) : Nat → Nat → Option Nat
  | 0, _ => none
  | fuel + 1, i =>
    if done (times i / T) then some (times i) else sleepUntil T done times fuel (i + 1)

/-- When the sleeper looks. What passes of a tick until then makes it later only. -/
structure Wakes (T g t₀ : Nat) (times : Nat → Nat) : Prop where
  first : times 0 = t₀
  ticks : ∀ i, times (i + 1) = times (i + 1) / T * T
  later : ∀ i, times i / T < times (i + 1) / T
  soon : ∀ i, times (i + 1) / T ≤ times i / T + 1 + g

/-- The sleep does not end before the deadline, and no look from the deadline on goes back to
sleep. -/
structure TimesOut (T g t₀ deadline : Nat) (done : Nat → Bool) : Prop where
  early : ∀ times, Wakes T g t₀ times → ∀ fuel t, sleepUntil T done times fuel 0 = some t →
    deadline ≤ t
  ends : ∀ times, Wakes T g t₀ times → ∀ i, deadline ≤ times i →
    ∃ t ≤ times i, sleepUntil T done times (i + 1) 0 = some t

def need (T t₀ deadline : Nat) : Nat :=
  if deadline ≤ t₀ then 0 else (deadline + T - 1) / T - t₀ / T

/-! ## The loop -/

theorem sleepSome {fuel i t : Nat} (ended : sleepUntil T done times fuel i = some t) :
    ∃ j, i ≤ j ∧ j < i + fuel ∧ t = times j ∧ done (times j / T) = true := by
  induction fuel generalizing i with
  | zero => cases ended
  | succ fuel ih =>
    rw [sleepUntil] at ended
    split at ended <;> rename_i here
    · cases ended
      exact ⟨i, Nat.le_refl i, by omega, rfl, here⟩
    · obtain ⟨j, low, high, same, ends⟩ := ih ended
      exact ⟨j, by omega, by omega, same, ends⟩

theorem sleepLonger {fuel i t : Nat} (more : Nat)
    (ended : sleepUntil T done times fuel i = some t) :
    sleepUntil T done times (fuel + more) i = some t := by
  induction fuel generalizing i with
  | zero => cases ended
  | succ fuel ih =>
    rw [Nat.succ_add, sleepUntil]
    rw [sleepUntil] at ended
    split at ended <;> rename_i here
    · rw [if_pos here]
      exact ended
    · rw [if_neg here]
      exact ih ended

theorem sleepEnds {i j : Nat} (ends : done (times (i + j) / T) = true) :
    ∃ l ≤ j, sleepUntil T done times (j + 1) i = some (times (i + l)) := by
  induction j generalizing i with
  | zero =>
    rw [Nat.add_zero] at ends
    refine ⟨0, Nat.le_refl 0, ?_⟩
    rw [sleepUntil, if_pos ends, Nat.add_zero]
  | succ j ih =>
    rw [sleepUntil]
    split <;> rename_i here
    · exact ⟨0, Nat.zero_le _, rfl⟩
    · rw [Nat.add_comm j 1, ← Nat.add_assoc] at ends
      obtain ⟨l, low, same⟩ := ih ends
      refine ⟨l + 1, Nat.succ_le_succ low, ?_⟩
      rw [same, Nat.add_assoc, Nat.add_comm 1 l]

theorem Wakes.tickMono (wakes : Wakes T g t₀ times) (i : Nat) : t₀ / T + i ≤ times i / T := by
  induction i with
  | zero =>
    rw [wakes.first]
    exact Nat.le_refl _
  | succ i ih =>
    have next := wakes.later i
    omega

theorem Wakes.mono (wakes : Wakes T g t₀ times) {i j : Nat} (order : i ≤ j) :
    times i ≤ times j := by
  obtain ⟨k, rfl⟩ := Nat.exists_eq_add_of_le order
  clear order
  induction k with
  | zero => exact Nat.le_refl _
  | succ k ih =>
    refine Nat.le_trans ih ?_
    have next := wakes.later (i + k)
    rw [← Nat.add_assoc, wakes.ticks (i + k)]
    rcases Nat.eq_zero_or_pos T with rfl | pos
    · rw [Nat.div_zero, Nat.div_zero] at next
      cases next
    · have rest : times (i + k) < (times (i + k) / T + 1) * T :=
        (Nat.div_lt_iff_lt_mul pos).mp (Nat.lt_succ_self _)
      exact Nat.le_of_lt (Nat.lt_of_lt_of_le rest (Nat.mul_le_mul_right T next))

/-! ## When every run keeps the deadline -/

section
variable (pos : 0 < T)
include pos

theorem needPassed {m : Nat} (later : t₀ < deadline) :
    deadline ≤ (t₀ / T + m) * T ↔ need T t₀ deadline ≤ m := by
  have ceil : deadline ≤ (t₀ / T + m) * T ↔ (deadline + T - 1) / T ≤ t₀ / T + m := by
    rw [← Nat.lt_succ_iff (m := (deadline + T - 1) / T), Nat.div_lt_iff_lt_mul pos, Nat.succ_mul]
    omega
  rw [ceil, need, if_neg (Nat.not_le.mpr later)]
  omega

theorem needPos (later : t₀ < deadline) : 0 < need T t₀ deadline := by
  refine Nat.pos_of_ne_zero fun none => ?_
  have passed := (needPassed (m := 0) pos later).mpr (Nat.le_of_eq none)
  rw [Nat.add_zero] at passed
  exact absurd (Nat.lt_of_lt_of_le later passed) (Nat.not_lt.mpr (Nat.div_mul_le_self _ _))

theorem Wakes.passed (wakes : Wakes T g t₀ times) (later : t₀ < deadline) (i : Nat) :
    deadline ≤ times i ↔ t₀ / T + need T t₀ deadline ≤ times i / T := by
  have some' := needPos pos later
  have order := wakes.tickMono i
  cases i with
  | zero =>
    rw [wakes.first]
    omega
  | succ i =>
    have tick : times (i + 1) = (t₀ / T + (times (i + 1) / T - t₀ / T)) * T := by
      rw [Nat.add_sub_cancel' (by omega)]
      exact wakes.ticks i
    rw [tick, needPassed pos later, Nat.mul_div_cancel _ pos]
    omega

def skipping (T t₀ m late : Nat) (i : Nat) : Nat :=
  if i = 0 then t₀ else if i < m then (t₀ / T + i) * T else (t₀ / T + i + late) * T

theorem skippingTick (t₀ : Nat) {m late : Nat} (some' : 0 < m) (i : Nat) :
    skipping T t₀ m late i / T = t₀ / T + i + if i < m then 0 else late := by
  unfold skipping
  by_cases first : i = 0
  · rw [if_pos first, first, if_pos some']
    rfl
  · rw [if_neg first]
    split
    · rw [Nat.mul_div_cancel _ pos]
      rfl
    · rw [Nat.mul_div_cancel _ pos]

theorem skippingWakes (t₀ : Nat) {m late : Nat} (some' : 0 < m) (few : late ≤ g) :
    Wakes T g t₀ (skipping T t₀ m late) where
  first := rfl
  ticks i := by
    unfold skipping
    rw [if_neg (Nat.succ_ne_zero i)]
    split <;> rw [Nat.mul_div_cancel _ pos]
  later i := by
    rw [skippingTick pos t₀ some', skippingTick pos t₀ some']
    split <;> split <;> omega
  soon i := by
    rw [skippingTick pos t₀ some', skippingTick pos t₀ some']
    split <;> split <;> omega

theorem TimesOut.doneAt (out : TimesOut T g t₀ deadline done) (later : t₀ < deadline) {late : Nat}
    (few : late ≤ g) : done (t₀ / T + (need T t₀ deadline + late)) = true := by
  have some' := needPos pos later
  have wakes := skippingWakes (g := g) pos t₀ some' few
  have tick := @skippingTick T pos t₀ (need T t₀ deadline) late some'
  have behind : deadline ≤ skipping T t₀ (need T t₀ deadline) late (need T t₀ deadline) := by
    rw [wakes.passed pos later, tick, if_neg (Nat.lt_irrefl _)]
    exact Nat.le_add_right _ _
  obtain ⟨t, _, ended⟩ := out.ends _ wakes _ behind
  have notEarly := out.early _ wakes _ _ ended
  obtain ⟨j, _, high, rfl, ends⟩ := sleepSome ended
  rw [wakes.passed pos later, tick] at notEarly
  have same : j = need T t₀ deadline := by
    split at notEarly <;> omega
  rw [same, tick, if_neg (Nat.lt_irrefl _), Nat.add_assoc] at ends
  exact ends

theorem TimesOut.waits (out : TimesOut T g t₀ deadline done) (later : t₀ < deadline) {m : Nat}
    (before : m < need T t₀ deadline) : done (t₀ / T + m) = false := by
  refine Bool.eq_false_iff.mpr fun ends => ?_
  have some' := needPos pos later
  have wakes := skippingWakes (g := g) pos t₀ some' (Nat.zero_le g)
  have tick : skipping T t₀ (need T t₀ deadline) 0 m / T = t₀ / T + m := by
    rw [skippingTick pos t₀ some', if_pos before, Nat.add_zero]
  rw [← tick, ← Nat.zero_add m] at ends
  obtain ⟨l, low, ended⟩ := sleepEnds ends
  have notEarly := Nat.le_trans (out.early _ wakes _ _ ended) (wakes.mono (by omega : 0 + l ≤ m))
  rw [wakes.passed pos later, tick] at notEarly
  omega

theorem timesOutPassed (passed : deadline ≤ t₀) :
    TimesOut T g t₀ deadline done ↔ done (t₀ / T) = true := by
  constructor
  · intro out
    have wakes := skippingWakes (g := g) pos t₀ Nat.one_pos (Nat.zero_le g)
    obtain ⟨t, _, ended⟩ := out.ends _ wakes 0 passed
    obtain ⟨j, _, high, _, ends⟩ := sleepSome ended
    rwa [show j = 0 by omega] at ends
  · refine fun ends => ⟨fun times wakes fuel t ended => ?_, fun times wakes i _ => ?_⟩
    · obtain ⟨j, low, _, rfl, _⟩ := sleepSome ended
      rw [← wakes.first] at passed
      exact Nat.le_trans passed (wakes.mono low)
    · rw [← wakes.first] at ends
      refine ⟨times 0, wakes.mono (Nat.zero_le i), ?_⟩
      rw [sleepUntil, if_pos ends]

theorem Wakes.reaches (wakes : Wakes T g t₀ times) (later : t₀ < deadline) {i : Nat}
    (behind : deadline ≤ times i) : ∃ l ≤ i, ∃ late ≤ g,
      times l / T = t₀ / T + (need T t₀ deadline + late) := by
  induction i with
  | zero =>
    rw [wakes.first] at behind
    omega
  | succ i ih =>
    by_cases already : deadline ≤ times i
    · obtain ⟨l, low, there⟩ := ih already
      exact ⟨l, by omega, there⟩
    · rw [wakes.passed pos later] at already behind
      have soon := wakes.soon i
      exact ⟨i + 1, Nat.le_refl _, times (i + 1) / T - (t₀ / T + need T t₀ deadline), by omega,
        by omega⟩

theorem timesOutLater (later : t₀ < deadline) : TimesOut T g t₀ deadline done ↔
    (∀ m < need T t₀ deadline, done (t₀ / T + m) = false) ∧
      ∀ late ≤ g, done (t₀ / T + (need T t₀ deadline + late)) = true := by
  constructor
  · exact fun out => ⟨fun _ before => out.waits pos later before,
      fun _ few => out.doneAt pos later few⟩
  · rintro ⟨waits, ends⟩
    refine ⟨fun times wakes fuel t ended => ?_, fun times wakes i behind => ?_⟩
    · obtain ⟨j, _, _, rfl, done'⟩ := sleepSome ended
      have order := wakes.tickMono j
      rw [wakes.passed pos later]
      by_contra short
      have not := waits (times j / T - t₀ / T) (by omega)
      rw [Nat.add_sub_cancel' (by omega), done'] at not
      cases not
    · obtain ⟨l, low, late, few, tick⟩ := wakes.reaches pos later behind
      have there : done (times l / T) = true := by
        rw [tick]
        exact ends late few
      obtain ⟨k, small, ended⟩ := sleepEnds (i := 0) (j := l) (by rwa [Nat.zero_add])
      have all := sleepLonger (i - l) ended
      rw [show l + 1 + (i - l) = i + 1 by omega] at all
      exact ⟨times (0 + k), wakes.mono (by omega), all⟩

end

end Scepter.Wakeups
