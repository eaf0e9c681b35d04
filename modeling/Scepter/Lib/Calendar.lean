import Mathlib.Data.Int.Init
import Mathlib.Algebra.Group.Int.Defs
import Mathlib.Tactic.IntervalCases

/-! The proleptic Gregorian calendar: its dates, the number of each date counted from
1970-01-01, and the same count in years that begin in March. -/
namespace Scepter.Calendar

def Leap (y : Int) : Prop := y % 4 = 0 ∧ (y % 100 ≠ 0 ∨ y % 400 = 0)
instance (y) : Decidable (Leap y) := by unfold Leap; infer_instance

def monthDays (y m : Int) : Int :=
  if m = 2 then if Leap y then 29 else 28
  else if m = 4 ∨ m = 6 ∨ m = 9 ∨ m = 11 then 30
  else 31

structure Date where
  year : Int
  month : Int
  day : Int
  months : 1 ≤ month ∧ month ≤ 12
  days : 1 ≤ day ∧ day ≤ monthDays year month

theorem Date.ext' {d e : Date} (year : d.year = e.year) (month : d.month = e.month)
    (day : d.day = e.day) : d = e := by
  cases d
  cases e
  cases year
  cases month
  cases day
  rfl

def yearStart (y : Int) : Int :=
  365 * (y - 1970) + (y - 1) / 4 - (y - 1) / 100 + (y - 1) / 400 - 477

def daysBefore (y : Int) : Nat → Int
  | 0 => 0
  | n + 1 => daysBefore y n + monthDays y (n + 1)

def Date.number (d : Date) : Int :=
  yearStart d.year + daysBefore d.year (d.month - 1).toNat + (d.day - 1)

theorem monthDaysPos (y m : Int) : 28 ≤ monthDays y m ∧ monthDays y m ≤ 31 := by
  unfold monthDays
  repeat' split
  all_goals omega

theorem daysBeforeRange (y : Int) (n : Nat) : 0 ≤ daysBefore y n ∧ daysBefore y n ≤ 31 * n := by
  induction n with
  | zero => exact ⟨Int.le_refl _, Int.le_refl _⟩
  | succ n ih =>
    have month := monthDaysPos y (n + 1)
    rw [daysBefore]
    omega

theorem yearStartNext (y : Int) : yearStart (y + 1) = yearStart y + if Leap y then 366 else 365 := by
  by_cases leap : Leap y
  · rw [if_pos leap]
    unfold Leap at leap
    unfold yearStart
    omega
  · rw [if_neg leap]
    unfold Leap at leap
    unfold yearStart
    omega

theorem daysBeforeYear (y : Int) : daysBefore y 12 = if Leap y then 366 else 365 := by
  by_cases leap : Leap y <;> simp [daysBefore, monthDays, leap]

def Date.next (d : Date) : Date :=
  if more : d.day < monthDays d.year d.month then
    ⟨d.year, d.month, d.day + 1, d.months, by have days := d.days; omega, by omega⟩
  else if other : d.month < 12 then
    ⟨d.year, d.month + 1, 1, by have months := d.months; omega, by omega,
      by have days := monthDaysPos d.year (d.month + 1); omega⟩
  else ⟨d.year + 1, 1, 1, by omega, by omega, by have days := monthDaysPos (d.year + 1) 1; omega⟩

def Date.prev (d : Date) : Date :=
  if more : 1 < d.day then
    ⟨d.year, d.month, d.day - 1, d.months, by omega, by have days := d.days; omega⟩
  else if other : 1 < d.month then
    ⟨d.year, d.month - 1, monthDays d.year (d.month - 1), by have months := d.months; omega,
      by have days := monthDaysPos d.year (d.month - 1); omega, Int.le_refl _⟩
  else ⟨d.year - 1, 12, 31, by omega, by omega, by unfold monthDays; simp⟩

theorem daysBeforeNext {y m : Int} (first : 1 ≤ m) :
    daysBefore y (m + 1 - 1).toNat = daysBefore y (m - 1).toNat + monthDays y m := by
  obtain ⟨n, rfl⟩ : ∃ n : Nat, m = n + 1 := ⟨(m - 1).toNat, by omega⟩
  have one : ((n : Int) + 1 + 1 - 1).toNat = n + 1 := by omega
  have two : ((n : Int) + 1 - 1).toNat = n := by omega
  rw [one, two, daysBefore]

theorem yearEnd (y : Int) : yearStart (y + 1) = yearStart y + daysBefore y 11 + 31 := by
  have whole : daysBefore y 12 = daysBefore y 11 + monthDays y 12 := rfl
  have last : monthDays y 12 = 31 := by simp [monthDays]
  rw [yearStartNext, ← daysBeforeYear, whole, last]
  omega

theorem numberNext (d : Date) : d.next.number = d.number + 1 := by
  have months := d.months
  have days := d.days
  unfold Date.next Date.number
  by_cases more : d.day < monthDays d.year d.month
  · rw [dif_pos more]
    dsimp only
    omega
  · rw [dif_neg more]
    by_cases other : d.month < 12
    · rw [dif_pos other]
      dsimp only
      rw [daysBeforeNext months.1]
      omega
    · have twelve : d.month = 12 := by omega
      have last : monthDays d.year 12 = 31 := by simp [monthDays]
      rw [twelve, last] at days more
      rw [dif_neg other, twelve]
      show yearStart (d.year + 1) + 0 + (1 - 1) = yearStart d.year + daysBefore d.year 11 + _ + 1
      rw [yearEnd]
      omega

theorem numberPrev (d : Date) : d.prev.number = d.number - 1 := by
  have months := d.months
  have days := d.days
  unfold Date.prev Date.number
  by_cases more : 1 < d.day
  · rw [dif_pos more]
    dsimp only
    omega
  · rw [dif_neg more]
    by_cases other : 1 < d.month
    · have next := daysBeforeNext (y := d.year) (m := d.month - 1) (by omega)
      rw [dif_pos other]
      dsimp only
      rw [show d.month - 1 + 1 - 1 = d.month - 1 by omega] at next
      omega
    · have one : d.month = 1 := by omega
      have year := yearEnd (d.year - 1)
      rw [Int.sub_add_cancel] at year
      rw [dif_neg other, one]
      show yearStart (d.year - 1) + daysBefore (d.year - 1) 11 + (31 - 1) =
        yearStart d.year + 0 + (d.day - 1) - 1
      omega

def epoch : Date := ⟨1970, 1, 1, by decide, by decide⟩

theorem numberEpoch : epoch.number = 0 := by decide

theorem numbered (n : Int) : ∃ d : Date, d.number = n := by
  induction n with
  | zero => exact ⟨epoch, numberEpoch⟩
  | succ n ih =>
    obtain ⟨d, same⟩ := ih
    exact ⟨d.next, by rw [numberNext, same]⟩
  | pred n ih =>
    obtain ⟨d, same⟩ := ih
    exact ⟨d.prev, by rw [numberPrev, same]⟩

/-! ## Years from March

A leap day is the last day of its year there, so that the months begin at the same day of each
year, and a cycle of 400 years has 146097 days. -/

def marchDays (mp : Int) : Int := (153 * mp + 2) / 5

def marchStart (y : Int) : Int := 365 * y + y / 4 - y / 100 + y / 400 - 719468

def Date.marchYear (d : Date) : Int := if d.month ≤ 2 then d.year - 1 else d.year

def Date.marchMonth (d : Date) : Int := if d.month ≤ 2 then d.month + 9 else d.month - 3

def Date.marchDay (d : Date) : Int := marchDays d.marchMonth + (d.day - 1)

theorem marchStartYear (y : Int) : marchStart y = yearStart y + if Leap y then 60 else 59 := by
  by_cases leap : Leap y
  · rw [if_pos leap]
    unfold Leap at leap
    unfold marchStart yearStart
    omega
  · rw [if_neg leap]
    unfold Leap at leap
    unfold marchStart yearStart
    omega

theorem yearStartMarch (y : Int) : yearStart y = marchStart (y - 1) + 306 := by
  unfold yearStart marchStart
  omega

theorem daysBeforeLate (y : Int) {n : Nat} (months : n < 10) :
    daysBefore y (n + 2) = (if Leap y then 60 else 59) + marchDays n := by
  by_cases leap : Leap y <;> interval_cases n <;> simp [daysBefore, monthDays, leap, marchDays]

theorem daysBeforeMarch (y : Int) {m : Int} (months : 1 ≤ m ∧ m ≤ 12) :
    yearStart y + daysBefore y (m - 1).toNat =
      if m ≤ 2 then marchStart (y - 1) + marchDays (m + 9) else marchStart y + marchDays (m - 3) := by
  split <;> rename_i early
  · have either : m = 1 ∨ m = 2 := by omega
    rw [yearStartMarch]
    rcases either with rfl | rfl
    · simp [daysBefore, marchDays]
    · simp [daysBefore, monthDays, marchDays]
      omega
  · obtain ⟨n, ten, rfl⟩ : ∃ n : Nat, n < 10 ∧ m = n + 3 := ⟨(m - 3).toNat, by omega, by omega⟩
    have late : ((n : Int) + 3 - 1).toNat = n + 2 := by omega
    rw [late, daysBeforeLate y ten, marchStartYear, Int.add_sub_cancel, Int.add_assoc]

theorem numberMarch (d : Date) : d.number = marchStart d.marchYear + d.marchDay := by
  have months := daysBeforeMarch d.year d.months
  unfold Date.number Date.marchDay Date.marchMonth Date.marchYear
  split at months <;> rename_i early
  · rw [if_pos early, if_pos early]
    omega
  · rw [if_neg early, if_neg early]
    omega

/-- The number of the first day of a month, where the months of a year go on before its first
and behind its last. -/
def monthStart (y m : Int) : Int :=
  yearStart (y + (m - 1) / 12) + daysBefore (y + (m - 1) / 12) ((m - 1) % 12).toNat

theorem monthStartMarch (y m : Int) :
    monthStart y m = marchStart (y + (m - 3) / 12) + marchDays ((m - 3) % 12) := by
  have months := daysBeforeMarch (y + (m - 1) / 12) (m := (m - 1) % 12 + 1) (by omega)
  rw [Int.add_sub_cancel] at months
  rw [monthStart, months]
  split
  · rw [show y + (m - 1) / 12 - 1 = y + (m - 3) / 12 by omega,
      show (m - 1) % 12 + 1 + 9 = (m - 3) % 12 by omega]
  · rw [show (m - 1) / 12 = (m - 3) / 12 by omega,
      show (m - 1) % 12 + 1 - 3 = (m - 3) % 12 by omega]

theorem numberMonth (d : Date) : d.number = monthStart d.year d.month + (d.day - 1) := by
  have months := d.months
  have year : d.year + (d.month - 1) / 12 = d.year := by omega
  have month : (d.month - 1) % 12 = d.month - 1 := by omega
  rw [monthStart, year, month]
  rfl

theorem marchMonths (d : Date) : 0 ≤ d.marchMonth ∧ d.marchMonth ≤ 11 := by
  have months := d.months
  unfold Date.marchMonth
  split <;> omega

theorem marchDayRange (d : Date) :
    0 ≤ d.marchDay ∧ d.marchDay ≤ 365 ∧ (d.marchDay = 365 → Leap (d.marchYear + 1)) ∧
      (5 * d.marchDay + 2) / 153 = d.marchMonth := by
  obtain ⟨y, m, n, ⟨low, high⟩, first, last⟩ := d
  unfold Date.marchDay Date.marchMonth Date.marchYear
  dsimp only at *
  by_cases leap : Leap y <;> interval_cases m <;>
    simp [monthDays, leap, marchDays] at last ⊢ <;> omega

theorem marchStartNext (y : Int) :
    marchStart (y + 1) = marchStart y + if Leap (y + 1) then 366 else 365 := by
  by_cases leap : Leap (y + 1)
  · rw [if_pos leap]
    unfold Leap at leap
    unfold marchStart
    omega
  · rw [if_neg leap]
    unfold Leap at leap
    unfold marchStart
    omega

theorem marchStartMono {y z : Int} (before : y ≤ z) : marchStart y ≤ marchStart z := by
  unfold marchStart
  omega

theorem numberYear (d : Date) :
    marchStart d.marchYear ≤ d.number ∧ d.number < marchStart (d.marchYear + 1) := by
  obtain ⟨low, high, last, _⟩ := marchDayRange d
  rw [numberMarch, marchStartNext]
  split
  · omega
  · rename_i common
    have other : d.marchDay ≠ 365 := fun same => common (last same)
    omega

theorem marchFields (d : Date) :
    d.year = (if d.marchMonth < 10 then d.marchYear else d.marchYear + 1) ∧
      d.month = (if d.marchMonth < 10 then d.marchMonth + 3 else d.marchMonth - 9) := by
  have months := d.months
  unfold Date.marchMonth Date.marchYear
  by_cases early : d.month ≤ 2
  · rw [if_pos early, if_pos early, if_neg (by omega), if_neg (by omega)]
    omega
  · rw [if_neg early, if_neg early, if_pos (by omega), if_pos (by omega)]
    omega

theorem numberInjective {d e : Date} (same : d.number = e.number) : d = e := by
  have first := numberYear d
  have second := numberYear e
  have year : d.marchYear = e.marchYear := by
    rcases Int.lt_trichotomy d.marchYear e.marchYear with before | equal | after
    · have order := marchStartMono (show d.marchYear + 1 ≤ e.marchYear by omega)
      omega
    · exact equal
    · have order := marchStartMono (show e.marchYear + 1 ≤ d.marchYear by omega)
      omega
  have day : d.marchDay = e.marchDay := by
    have left := numberMarch d
    have right := numberMarch e
    rw [year] at left
    omega
  have month : d.marchMonth = e.marchMonth := by
    rw [← (marchDayRange d).2.2.2, ← (marchDayRange e).2.2.2, day]
  obtain ⟨y, m⟩ := marchFields d
  obtain ⟨y', m'⟩ := marchFields e
  refine Date.ext' (by rw [y, y', year, month]) (by rw [m, m', month]) ?_
  unfold Date.marchDay at day
  rw [month] at day
  omega

end Scepter.Calendar
