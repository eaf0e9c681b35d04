import Scepter.Lib.CInt
import Scepter.Lib.Calendar

/-! The conversions between timestamps and calendar dates (crt/libc/time/time.c), on i386: long
has 32 bits, and signed arithmetic wraps. -/
namespace Scepter.Time
open CInt
open Calendar

structure Tm where
  sec : Int
  min : Int
  hour : Int
  mday : Int
  mon : Int
  year : Int
  wday : Int
  yday : Int
  isdst : Int

def daysFromCivil (y m d : Int) : Int :=
  let y := int (y - if m ≤ 2 then 1 else 0)
  let era := (if y ≥ 0 then y else int (y - 399)).tdiv 400
  let yoe := unsigned (y - era * 400)
  let doy := unsigned (int ((int (153 * (m + if m > 2 then -3 else 9) + 2)).tdiv 5 + d - 1))
  let doe := unsigned (yoe * 365 + yoe / 4 - yoe / 100 + doy)
  int (era * 146097 + int doe - 719468)

def civilFromDays (z : Int) : Int × Int × Int :=
  let z := int (z + 719468)
  let era := (if z ≥ 0 then z else int (z - 146096)).tdiv 146097
  let doe := unsigned (z - era * 146097)
  let yoe := (doe - doe / 1460 + doe / 36524 - doe / 146096) / 365
  let yy := yoe + era * 400
  let doy := unsigned (doe - (365 * yoe + yoe / 4 - yoe / 100))
  let mp := unsigned (5 * doy + 2) / 153
  let dd := unsigned (doy - (153 * mp + 2) / 5 + 1)
  let mm := unsigned (mp + if mp < 10 then 3 else -9)
  (int (yy + if mm ≤ 2 then 1 else 0), int mm, int dd)

def timeToTm (t : Int) : Tm :=
  let days := t.tdiv 86400
  let rem := t.tmod 86400
  let (days, rem) := if rem < 0 then (days - 1, rem + 86400) else (days, rem)
  let (y, m, d) := civilFromDays days
  let wday := (days + 4).tmod 7
  { sec := rem.tmod 60
    min := (rem.tdiv 60).tmod 60
    hour := rem.tdiv 3600
    mday := d
    mon := int (m - 1)
    year := int (y - 1900)
    wday := if wday < 0 then wday + 7 else wday
    yday := int (days - daysFromCivil y 1 1)
    isdst := 0 }

def gmtime (t : Int) : Tm := timeToTm t

def mktime (tm : Tm) : Int × Tm :=
  let y := int (tm.year + 1900)
  let m := int (tm.mon + 1)
  let days := daysFromCivil y m tm.mday
  let secs := int (days * 86400 + tm.hour * 3600 + tm.min * 60 + tm.sec)
  (secs, {timeToTm secs with isdst := 0})

/-! ## What they stand for -/

structure Tm.Ints (tm : Tm) : Prop where
  sec : IsInt tm.sec
  min : IsInt tm.min
  hour : IsInt tm.hour
  mday : IsInt tm.mday
  mon : IsInt tm.mon
  year : IsInt tm.year

structure Utc (t : Int) (tm : Tm) (d : Date) : Prop where
  number : d.number = t / 86400
  year : tm.year = d.year - 1900
  mon : tm.mon = d.month - 1
  mday : tm.mday = d.day
  hour : tm.hour = t % 86400 / 3600
  min : tm.min = t % 3600 / 60
  sec : tm.sec = t % 60
  wday : tm.wday = (d.number + 4) % 7
  yday : tm.yday = d.number - yearStart d.year
  isdst : tm.isdst = 0

def Tm.seconds (tm : Tm) : Int :=
  (monthStart (tm.year + 1900) (tm.mon + 1) + (tm.mday - 1)) * 86400 + tm.hour * 3600 +
    tm.min * 60 + tm.sec

/-- Years and months from March, as days_from_civil has them; a month outside the year is
left there. -/
def marchOf (y m : Int) : Int × Int := if m ≤ 2 then (y - 1, m + 9) else (y, m - 3)

/-! ## Days of a date -/

theorem monthStartOf (y m : Int) :
    monthStart y m =
      marchStart ((marchOf y m).1 + (marchOf y m).2 / 12) + marchDays ((marchOf y m).2 % 12) := by
  rw [monthStartMarch]
  unfold marchOf
  split
  · dsimp only
    rw [show y - 1 + (m + 9) / 12 = y + (m - 3) / 12 by omega,
      show (m + 9) % 12 = (m - 3) % 12 by omega]
  · rfl

theorem eraSplit {y : Int} (low : -2 ^ 31 + 399 ≤ y) :
    (if y ≥ 0 then y else int (y - 399)).tdiv 400 = y / 400 := by
  split
  · rw [tdivSplit, if_pos ‹_›]
  · rw [intFits (by omega) (by omega), tdivSplit, if_neg (by omega)]
    omega

theorem daysFromCivilMarch {y m d : Int} (low : -2 ^ 31 + 400 ≤ y) (high : y < 2 ^ 31) :
    daysFromCivil y m d =
      int (marchStart (marchOf y m).1 + (int (153 * (marchOf y m).2 + 2)).tdiv 5 + (d - 1)) := by
  have y' : int (y - if m ≤ 2 then 1 else 0) = (marchOf y m).1 := by
    unfold marchOf
    split
    · exact intFits (by omega) (by omega)
    · rw [Int.sub_zero]
      exact intFits (by omega) (by omega)
  have k : m + (if m > 2 then -3 else 9) = (marchOf y m).2 := by
    unfold marchOf
    by_cases early : m ≤ 2
    · rw [if_neg (by omega), if_pos early]
    · rw [if_pos (by omega), if_neg early]
      rfl
  have range : -2 ^ 31 + 399 ≤ (marchOf y m).1 ∧ (marchOf y m).1 < 2 ^ 31 := by
    unfold marchOf
    split <;> dsimp only <;> omega
  have small : unsigned ((marchOf y m).1 - (marchOf y m).1 / 400 * 400) = (marchOf y m).1 % 400 := by
    rw [unsignedFits (by omega) (by omega)]
    omega
  unfold daysFromCivil marchStart
  dsimp only
  rw [y', k, eraSplit range.1, small]
  generalize (marchOf y m).1 = year at *
  generalize (int (153 * (marchOf y m).2 + 2)).tdiv 5 = months at *
  rw [unsignedInt, unsignedAdd, intUnsigned, Int.sub_eq_add_neg, Int.add_right_comm, intAdd]
  congr 1
  omega

theorem marchOfDate (d : Date) : marchOf d.year d.month = (d.marchYear, d.marchMonth) := by
  unfold marchOf Date.marchYear Date.marchMonth
  split <;> rfl

theorem daysFromCivilDate (d : Date) (low : -2 ^ 31 + 400 ≤ d.year) (high : d.year < 2 ^ 31) :
    daysFromCivil d.year d.month d.day = int d.number := by
  have months := marchMonths d
  have fits : int (153 * d.marchMonth + 2) = 153 * d.marchMonth + 2 :=
    intFits (by omega) (by omega)
  rw [daysFromCivilMarch low high, numberMarch, marchOfDate, Date.marchDay, marchDays]
  dsimp only
  rw [fits, tdivSplit, if_pos (by omega), Int.add_assoc]

/-! ## Dates of a day -/

def civilOf (era doe : Int) : Int × Int × Int :=
  let yoe := (doe - doe / 1460 + doe / 36524 - doe / 146096) / 365
  let yy := yoe + era * 400
  let doy := unsigned (doe - (365 * yoe + yoe / 4 - yoe / 100))
  let mp := unsigned (5 * doy + 2) / 153
  let dd := unsigned (doy - (153 * mp + 2) / 5 + 1)
  let mm := unsigned (mp + if mp < 10 then 3 else -9)
  (int (yy + if mm ≤ 2 then 1 else 0), int mm, int dd)

theorem civilFromDaysOf {z w era : Int} (shift : int (z + 719468) = w)
    (same : (if w ≥ 0 then w else int (w - 146096)).tdiv 146097 = era) :
    civilFromDays z = civilOf era (unsigned (w - era * 146097)) := by
  rw [← same, ← shift]
  rfl

theorem civilOfMarch {era doe yoe doy : Int} (eras : -20000 ≤ era ∧ era ≤ 20000)
    (years : 0 ≤ yoe ∧ yoe ≤ 1000) (days : 0 ≤ doy ∧ doy ≤ 366)
    (sum : doe = 365 * yoe + yoe / 4 - yoe / 100 + doy)
    (year : (doe - doe / 1460 + doe / 36524 - doe / 146096) / 365 = yoe) :
    civilOf era doe =
      (yoe + era * 400 + (if (5 * doy + 2) / 153 < 10 then 0 else 1),
        (5 * doy + 2) / 153 + (if (5 * doy + 2) / 153 < 10 then 3 else -9),
        doy - marchDays ((5 * doy + 2) / 153) + 1) := by
  have day : unsigned (doe - (365 * yoe + yoe / 4 - yoe / 100)) = doy := by
    rw [unsignedFits (by omega) (by omega)]
    omega
  have five : unsigned (5 * doy + 2) = 5 * doy + 2 := unsignedFits (by omega) (by omega)
  have month : 0 ≤ (5 * doy + 2) / 153 ∧ (5 * doy + 2) / 153 ≤ 11 := by omega
  have inMonth : marchDays ((5 * doy + 2) / 153) ≤ doy ∧ 0 ≤ marchDays ((5 * doy + 2) / 153) := by
    unfold marchDays
    omega
  unfold civilOf
  dsimp only
  rw [year, day, five]
  generalize (5 * doy + 2) / 153 = mp at *
  rw [show (153 * mp + 2) / 5 = marchDays mp from rfl,
    unsignedFits (x := doy - marchDays mp + 1) (by omega) (by omega),
    intFits (x := doy - marchDays mp + 1) (by omega) (by omega)]
  split
  · rw [unsignedFits (by omega) (by omega), if_neg (by omega), intFits (by omega) (by omega),
      intFits (by omega) (by omega)]
  · rw [unsignedFits (by omega) (by omega), if_pos (by omega), intFits (by omega) (by omega),
      intFits (by omega) (by omega)]

theorem centuries {y : Int} (years : 0 ≤ y ∧ y ≤ 399) :
    ∃ c q r, (0 ≤ c ∧ c ≤ 3) ∧ (0 ≤ q ∧ q ≤ 24) ∧ (0 ≤ r ∧ r ≤ 3) ∧ y = 100 * c + 4 * q + r ∧
      y / 100 = c ∧ y / 4 = 25 * c + q :=
  ⟨y / 100, y % 100 / 4, y % 4, by omega, by omega, by omega, by omega, rfl, by omega⟩

theorem leapNext {c q r : Int} (hundred : 0 ≤ c ∧ c ≤ 3)
    (one : 0 ≤ r ∧ r ≤ 3) (leap : Leap (100 * c + 4 * q + r + 1)) : r = 3 ∧ (q = 24 → c = 3) := by
  unfold Leap at leap
  constructor <;> omega

theorem yearOfEra {yoe doy doe : Int} (years : 0 ≤ yoe ∧ yoe ≤ 399) (days : 0 ≤ doy ∧ doy ≤ 365)
    (last : doy = 365 → Leap (yoe + 1))
    (sum : doe = 365 * yoe + yoe / 4 - yoe / 100 + doy) :
    (doe - doe / 1460 + doe / 36524 - doe / 146096) / 365 = yoe := by
  obtain ⟨c, q, r, hundred, four, one, rfl, century, leaps⟩ := centuries years
  have flat : doe = 36524 * c + 1461 * q + 365 * r + doy := by
    rw [century, leaps] at sum
    omega
  clear sum century leaps years
  have fours : doe / 1460 = 25 * c + q + (24 * c + q + 365 * r + doy) / 1460 := by omega
  have hundreds : doe / 36524 = c + (1461 * q + 365 * r + doy) / 36524 := by omega
  by_cases ends : doy = 365
  · obtain ⟨rfl, century⟩ := leapNext hundred one (last ends)
    have fourth : (24 * c + q + 365 * 3 + doy) / 1460 = 1 := by omega
    by_cases whole : q = 24
    · obtain rfl := century whole
      omega
    · have inside : (1461 * q + 365 * 3 + doy) / 36524 = 0 := by omega
      have short : doe / 146096 = 0 := by omega
      omega
  · have inside : (1461 * q + 365 * r + doy) / 36524 = 0 := by omega
    have short : doe / 146096 = 0 := by omega
    omega

theorem dayOfEra (d : Date) :
    d.number + 719468 - d.marchYear / 400 * 146097 =
        365 * (d.marchYear % 400) + d.marchYear % 400 / 4 - d.marchYear % 400 / 100 + d.marchDay ∧
      0 ≤ d.number + 719468 - d.marchYear / 400 * 146097 ∧
      d.number + 719468 - d.marchYear / 400 * 146097 ≤ 146096 := by
  obtain ⟨low, high, last, _⟩ := marchDayRange d
  have sum := numberMarch d
  unfold marchStart at sum
  unfold Leap at last
  have flat : d.number + 719468 - d.marchYear / 400 * 146097 =
      365 * (d.marchYear % 400) + d.marchYear % 400 / 4 - d.marchYear % 400 / 100 + d.marchDay := by
    omega
  refine ⟨flat, ?_, ?_⟩
  · omega
  · by_cases ends : d.marchDay = 365
    · omega
    · omega

theorem cycleSplit {w : Int} (low : -2 ^ 31 + 146096 ≤ w) (high : w < 2 ^ 31) :
    (if w ≥ 0 then w else int (w - 146096)).tdiv 146097 = w / 146097 := by
  split
  · rw [tdivSplit, if_pos ‹_›]
  · rw [intFits (by omega) (by omega), tdivSplit, if_neg (by omega)]
    omega

theorem civilFromDaysDate {z : Int} {d : Date} (shift : int (z + 719468) = d.number + 719468)
    (low : -2 ^ 31 + 146096 ≤ d.number + 719468) :
    civilFromDays z = (d.year, d.month, d.day) := by
  have high : d.number + 719468 < 2 ^ 31 := shift ▸ (intIsInt _).2
  obtain ⟨flat, first, last⟩ := dayOfEra d
  obtain ⟨zero, days, leap, month⟩ := marchDayRange d
  obtain ⟨year, months⟩ := marchFields d
  have range := marchMonths d
  have era : (d.number + 719468) / 146097 = d.marchYear / 400 := by omega
  have within : 0 ≤ d.marchYear % 400 ∧ d.marchYear % 400 ≤ 399 := by omega
  have ends : d.marchDay = 365 → Leap (d.marchYear % 400 + 1) := by
    intro ends
    have long := leap ends
    unfold Leap at long ⊢
    omega
  have of := yearOfEra within ⟨zero, days⟩ ends flat
  rw [civilFromDaysOf shift ((cycleSplit low high).trans era), unsignedFits first (by omega),
    civilOfMarch (by omega) (by omega) ⟨zero, by omega⟩ flat of, month]
  rw [year, months, Date.marchDay]
  split
  · congr 2 <;> omega
  · congr 2 <;> omega

/-! ## Timestamps -/

theorem yearSmall {d : Date} (low : -2 ^ 33 ≤ d.number) (high : d.number ≤ 2 ^ 33) :
    -2 ^ 25 ≤ d.year ∧ d.year ≤ 2 ^ 25 := by
  obtain ⟨first, last⟩ := numberYear d
  obtain ⟨year, _⟩ := marchFields d
  unfold marchStart at first last
  split at year <;> omega

theorem yearDay (d : Date) (low : -2 ^ 31 + 400 ≤ d.year) (high : d.year < 2 ^ 31) :
    daysFromCivil d.year 1 1 = int (yearStart d.year) := by
  have first := daysFromCivilDate ⟨d.year, 1, 1, by omega, by simp [monthDays]⟩ low high
  rw [first]
  simp [Date.number, daysBefore]

theorem timeToTmUtc {t : Int} (fits : IsInt t) : ∃ d, Utc t (timeToTm t) d := by
  obtain ⟨d, number⟩ := numbered (t / 86400)
  obtain ⟨low, high⟩ := fits
  refine ⟨d, ?_⟩
  have split : (if t.tmod 86400 < 0 then (t.tdiv 86400 - 1, t.tmod 86400 + 86400)
      else (t.tdiv 86400, t.tmod 86400)) = (t / 86400, t % 86400) := by
    rw [tdivSplit, tmodSplit]
    split <;> split <;> congr 1 <;> omega
  have civil : civilFromDays (t / 86400) = (d.year, d.month, d.day) :=
    civilFromDaysDate (by rw [number]; exact intFits (by omega) (by omega)) (by omega)
  have months := d.months
  obtain ⟨lowYear, highYear⟩ := yearSmall (d := d) (by omega) (by omega)
  have inYear : 0 ≤ d.number - yearStart d.year ∧ d.number - yearStart d.year ≤ 400 := by
    have before := daysBeforeRange d.year (d.month - 1).toNat
    have days := d.days
    have most := monthDaysPos d.year d.month
    unfold Date.number
    omega
  have yday : int (t / 86400 - daysFromCivil d.year 1 1) = d.number - yearStart d.year := by
    rw [yearDay d (by omega) (by omega), intSubRight, ← number]
    exact intFits (by omega) (by omega)
  unfold timeToTm
  dsimp only
  rw [split]
  dsimp only
  rw [civil]
  dsimp only
  rw [yday]
  constructor
  · exact number
  · exact intFits (by omega) (by omega)
  · exact intFits (by omega) (by omega)
  · rfl
  · dsimp only
    rw [tdivSplit, if_pos (by omega)]
  · dsimp only
    rw [tdivSplit, if_pos (by omega), tmodSplit, if_pos (by omega)]
    omega
  · dsimp only
    rw [tmodSplit, if_pos (by omega)]
    omega
  · dsimp only
    rw [tmodSplit, number]
    split <;> split <;> omega
  · rfl
  · rfl

def Tm.late (tm : Tm) : Int :=
  let march := marchOf (int (tm.year + 1900)) (int (tm.mon + 1))
  marchStart march.1 + (int (153 * march.2 + 2)).tdiv 5 -
    monthStart (tm.year + 1900) (tm.mon + 1)

theorem Tm.Ints.years {tm : Tm} (ints : tm.Ints) (fits : IsInt tm.seconds) :
    -2 ^ 30 ≤ tm.year + 1900 ∧ tm.year + 1900 ≤ 2 ^ 30 := by
  obtain ⟨⟨sec, sec'⟩, ⟨min, min'⟩, ⟨hour, hour'⟩, ⟨mday, mday'⟩, ⟨mon, mon'⟩, _⟩ := ints
  obtain ⟨low, high⟩ := fits
  have days := daysBeforeRange (tm.year + 1900 + (tm.mon + 1 - 1) / 12) ((tm.mon + 1 - 1) % 12).toNat
  unfold Tm.seconds monthStart yearStart at low high
  omega

theorem mktimeSeconds {tm : Tm} (low : -2 ^ 31 + 400 ≤ tm.year + 1900) (high : tm.year + 1900 < 2 ^ 31) :
    (mktime tm).1 = int (tm.seconds + 86400 * tm.late) := by
  have year : int (tm.year + 1900) = tm.year + 1900 := intFits (by omega) high
  unfold mktime Tm.seconds Tm.late
  dsimp only
  rw [year, daysFromCivilMarch low high]
  generalize marchStart _ + (int _).tdiv 5 = code
  generalize monthStart _ _ = start
  unfold int
  omega

/-- How many days too late the month `r` of the March year `y + n` begins, where it is counted as
a month of the year `y`. -/
def lateIn (y n r : Int) : Int :=
  marchStart y + (153 * (12 * n + r) + 2).tdiv 5 - (marchStart (y + n) + marchDays r)

theorem lateInYear {y r : Int} (month : 0 ≤ r) : lateIn y 0 r = 0 := by
  unfold lateIn marchDays
  rw [tdivSplit, if_pos (by omega), Int.add_zero, Int.mul_zero, Int.zero_add]
  omega

theorem lateInAfter {y n r : Int} (month : 0 ≤ r) (after : 1 ≤ n) :
    0 < lateIn y n r ∧ lateIn y n r ≤ 3 * n + 1 := by
  unfold lateIn marchDays marchStart
  rw [tdivSplit, if_pos (by omega)]
  omega

theorem lateInYearBefore {y r : Int} (month : 0 ≤ r ∧ r ≤ 11) :
    -2 ≤ lateIn y (-1) r ∧ lateIn y (-1) r ≤ 0 ∧
      (lateIn y (-1) r = 0 ↔ Leap y ∧ 2 ≤ (153 * r + 2) % 5) := by
  have year := marchStartNext (y - 1)
  rw [Int.sub_add_cancel] at year
  unfold lateIn marchDays
  rw [tdivSplit, if_neg (by omega), Int.add_neg_one]
  by_cases leap : Leap y
  · rw [if_pos leap] at year
    simp only [leap, true_and]
    omega
  · rw [if_neg leap] at year
    simp only [leap, false_and, iff_false]
    omega

theorem lateInBefore {y n r : Int} (month : 0 ≤ r ∧ r ≤ 11) (before : n ≤ -2) :
    3 * n - 1 ≤ lateIn y n r ∧ lateIn y n r < 0 := by
  unfold lateIn marchDays marchStart
  rw [tdivSplit, if_neg (by omega)]
  omega

theorem yearCut {n y x : Int} (sum : n = 365 * y + x) (low : 0 ≤ x) (high : x ≤ 364) : n / 365 = y := by
  omega

theorem yearOfNextEra {c q r doy doe : Int} (hundred : 0 ≤ c ∧ c ≤ 3) (four : 0 ≤ q ∧ q ≤ 24)
    (one : 0 ≤ r ∧ r ≤ 3) (days : 0 ≤ doy ∧ doy ≤ 365)
    (sum : doe = 146097 + 36524 * c + 1461 * q + 365 * r + doy) (high : doe ≤ 292192)
    (last : doy = 365 → r = 3 ∧ q ≠ 24) :
    (doe - doe / 1460 + doe / 36524 - doe / 146096) / 365 = 400 + (100 * c + 4 * q + r) := by
  obtain ⟨more, fours, early, late⟩ : ∃ more, doe / 1460 = 100 + 25 * c + q + more ∧
      (0 ≤ more ∧ more ≤ 1 ∧ (doy = 0 → more = 0)) ∧ (364 ≤ doy → r = 3 → more = 1) :=
    ⟨(24 * c + q + 365 * r + doy + 97) / 1460, by omega, by omega, by omega⟩
  rw [fours]
  by_cases ends : q = 24 ∧ r = 3 ∧ doy = 364
  · obtain ⟨rfl, rfl, rfl⟩ := ends
    have hundreds : doe / 36524 = 5 + c := by omega
    have eras : doe / 146096 = 1 ∨ doe / 146096 = 2 := by omega
    rw [hundreds]
    rcases eras with eras | eras
    · rw [eras]
      exact yearCut (x := 364) (by omega) (by decide) (by decide)
    · rw [eras]
      exact yearCut (x := 363) (by omega) (by decide) (by decide)
  · have inside : 1461 * q + 365 * r + doy < 36523 := by
      by_cases century : q = 24
      · by_cases year : r = 3 <;> omega
      · omega
    have hundreds : doe / 36524 = 4 + c := by omega
    have eras : doe / 146096 = 1 := by omega
    have low : 0 ≤ doy - more := by omega
    have inYear : doy - more ≤ 364 := by omega
    rw [hundreds, eras]
    refine yearCut ?_ low inYear
    omega

theorem yearBeyondEra {doe : Int} (low : 146097 ≤ doe) (high : doe ≤ 292192) :
    ∃ yoe doy, (400 ≤ yoe ∧ yoe ≤ 1000) ∧ (0 ≤ doy ∧ doy ≤ 366) ∧
      doe = 365 * yoe + yoe / 4 - yoe / 100 + doy ∧
      (doe - doe / 1460 + doe / 36524 - doe / 146096) / 365 = yoe := by
  obtain ⟨d, number⟩ := numbered (doe - 146097 - 719468)
  obtain ⟨flat, first, last⟩ := dayOfEra d
  obtain ⟨zero, days, leap, _⟩ := marchDayRange d
  have era : d.marchYear / 400 = 0 := by omega
  have inEra : d.marchYear % 400 = d.marchYear := by omega
  rw [era, inEra, number] at flat
  clear first last number inEra
  generalize d.marchDay = doy at *
  generalize d.marchYear = y at *
  obtain ⟨c, q, r, hundred, four, one, year, century, leaps⟩ := centuries (y := y) (by omega)
  have sum : doe = 146097 + 36524 * c + 1461 * q + 365 * r + doy := by
    rw [century, leaps, year] at flat
    clear century leaps
    omega
  have last : doy = 365 → r = 3 ∧ q ≠ 24 := by
    intro ends
    obtain ⟨three, whole⟩ := leapNext hundred one (year ▸ leap ends)
    clear flat century leaps
    exact ⟨three, by omega⟩
  have formula := yearOfNextEra hundred four one ⟨zero, days⟩ sum high last
  have hundreds : (400 + y) / 100 = 4 + c := by
    rw [← century]
    exact Int.add_ediv_of_dvd_left (by decide)
  have fours : (400 + y) / 4 = 100 + (25 * c + q) := by
    rw [← leaps]
    exact Int.add_ediv_of_dvd_left (by decide)
  rw [← year] at formula
  refine ⟨400 + y, doy + 1, ?_, ⟨by omega, by omega⟩, ?_, formula⟩
  · clear formula sum flat century leaps hundreds fours
    omega
  · rw [hundreds, fours, year, sum]
    clear formula flat century leaps hundreds fours
    omega

theorem civilOfDate {era doe yoe doy : Int} {d : Date} (eras : -20000 ≤ era ∧ era ≤ 20000)
    (years : 0 ≤ yoe ∧ yoe ≤ 1000) (days : 0 ≤ doy ∧ doy ≤ 366)
    (sum : doe = 365 * yoe + yoe / 4 - yoe / 100 + doy)
    (year : (doe - doe / 1460 + doe / 36524 - doe / 146096) / 365 = yoe)
    (same : civilOf era doe = (d.year, d.month, d.day)) :
    d.number = era * 146097 + doe + yoe / 400 - 719468 := by
  rw [civilOfMarch eras years days sum year, Prod.mk.injEq, Prod.mk.injEq] at same
  obtain ⟨sameYear, sameMonth, sameDay⟩ := same
  obtain ⟨y, m⟩ := marchFields d
  have range := marchMonths d
  have month : d.marchMonth = (5 * doy + 2) / 153 := by
    split at m <;> split at sameMonth <;> omega
  have marchYear : d.marchYear = yoe + era * 400 := by
    split at y <;> split at sameYear <;> omega
  have day : d.marchDay = doy := by
    rw [Date.marchDay, month, ← sameDay]
    omega
  clear year
  have leaps : (yoe + era * 400) / 4 = yoe / 4 + era * 100 := by omega
  have hundreds : (yoe + era * 400) / 100 = yoe / 100 + era * 4 := by omega
  have eras : (yoe + era * 400) / 400 = yoe / 400 + era := by omega
  rw [numberMarch, marchYear, day, marchStart, leaps, hundreds, eras, sum]
  omega

def lastReached : Date := ⟨5880000, 2, 29, by decide, by decide⟩

theorem lastReachedNumber : lastReached.number = 2 ^ 31 + 142251 - 719468 := by decide

theorem civilLastReached :
    civilFromDays (daysFromCivil 5880000 2 29) = (5880000, 2, 29) := by decide

theorem civilWrapped {z : Int} {d : Date} (low : int (z + 719468) < -2 ^ 31 + 146096)
    (same : civilFromDays z = (d.year, d.month, d.day)) :
    ∃ more, d.number + 719468 = int (z + 719468) + 2 ^ 32 + more ∧ (0 ≤ more ∧ more ≤ 2) ∧
      (more = 0 → d.number = lastReached.number) := by
  have lowest := (intIsInt (z + 719468)).1
  generalize shift : int (z + 719468) = w at *
  have wrap : int (w - 146096) = w - 146096 + 2 ^ 32 := by
    unfold int
    omega
  have era : (if w ≥ 0 then w else int (w - 146096)).tdiv 146097 = (w - 146096 + 2 ^ 32) / 146097 := by
    rw [if_neg (by omega), wrap, tdivSplit, if_pos (by omega)]
  have doe : unsigned (w - (w - 146096 + 2 ^ 32) / 146097 * 146097) =
      146096 + (w - 146096 + 2 ^ 32) % 146097 := by
    unfold unsigned
    omega
  rw [civilFromDaysOf shift era, doe] at same
  by_cases last : (w - 146096 + 2 ^ 32) % 146097 = 0
  · rw [last] at same
    have years : (0 : Int) ≤ 399 ∧ (399 : Int) ≤ 1000 := by decide
    have days : (0 : Int) ≤ 365 ∧ (365 : Int) ≤ 366 := by decide
    have number := civilOfDate (by omega) years days (by decide) (by decide) same
    refine ⟨0, by omega, by decide, ?_⟩
    intro _
    rw [number, lastReachedNumber]
    omega
  · have beyond : 146097 ≤ 146096 + (w - 146096 + 2 ^ 32) % 146097 := by omega
    obtain ⟨yoe, doy, years, days, sum, formula⟩ := yearBeyondEra beyond (by omega)
    have number := civilOfDate (by omega) (by omega) days sum formula same
    clear formula sum same wrap era doe
    exact ⟨yoe / 400, by omega, by omega, by omega⟩

theorem civilReached {z : Int} {d : Date} (reached : -2 ^ 31 + 146096 ≤ int (z + 719468))
    (same : civilFromDays z = (d.year, d.month, d.day)) : d.number + 719468 = int (z + 719468) := by
  obtain ⟨e, number⟩ := numbered (int (z + 719468) - 719468)
  have fields := civilFromDaysDate (z := z) (d := e) (by omega) (by omega)
  rw [fields, Prod.mk.injEq, Prod.mk.injEq] at same
  have equal : e = d := Date.ext' same.1 same.2.1 same.2.2
  rw [← equal]
  omega

def Reached (d : Date) : Prop :=
  (-2 ^ 31 + 146096 ≤ d.number + 719468 ∧ d.number + 719468 < 2 ^ 31) ∨ d.number = lastReached.number

theorem daysBack (d : Date) :
    civilFromDays (daysFromCivil d.year d.month d.day) = (d.year, d.month, d.day) ↔ Reached d := by
  constructor
  · intro same
    by_cases low : int (daysFromCivil d.year d.month d.day + 719468) < -2 ^ 31 + 146096
    · obtain ⟨more, number, range, last⟩ := civilWrapped low same
      have lowest := intIsInt (daysFromCivil d.year d.month d.day + 719468)
      unfold IsInt at lowest
      have year := yearSmall (d := d) (by omega) (by omega)
      rw [daysFromCivilDate d (by omega) (by omega)] at number
      refine Or.inr (last ?_)
      unfold int at number
      omega
    · have number := civilReached (by omega) same
      have range := intIsInt (daysFromCivil d.year d.month d.day + 719468)
      unfold IsInt at range
      exact Or.inl (by omega)
  · intro reached
    have year : -2 ^ 25 ≤ d.year ∧ d.year ≤ 2 ^ 25 := by
      have last := lastReachedNumber
      apply yearSmall <;> rcases reached with inside | equal <;> omega
    rcases reached with inside | equal
    · rw [daysFromCivilDate d (by omega) (by omega)]
      refine civilFromDaysDate ?_ inside.1
      unfold int
      omega
    · rw [numberInjective equal]
      exact civilLastReached

/-! ## mktime -/

def Normalised (tm : Tm) (r : Int × Tm) : Prop :=
  r.1 = tm.seconds ∧ ∃ d, Utc tm.seconds r.2 d

/-- The months that mktime takes to their day: those from March before the year to February
behind it, and months of 31 days of the March year before where that year ends with a leap day.
Far away the count of days overflows. -/
def MonthRight (tm : Tm) : Prop :=
  (-10 ≤ tm.mon ∧ tm.mon ≤ 13) ∨
    (-22 ≤ tm.mon ∧ tm.mon ≤ -11 ∧ Leap (tm.year + 1899) ∧
      monthDays (tm.year + 1899) (tm.mon % 12 + 1) = 31) ∨
    ((tm.mon < -14035850 ∨ 14035842 < tm.mon) ∧ 2 ^ 25 ∣ tm.late)

theorem longMonth {y mon : Int} (low : -22 ≤ mon) (high : mon ≤ -11) :
    2 ≤ (153 * (mon + 22) + 2) % 5 ↔ monthDays y (mon % 12 + 1) = 31 := by
  interval_cases mon <;> simp [monthDays]
  split <;> decide

theorem lateIs {tm : Tm} (low : -14035850 ≤ tm.mon) (high : tm.mon ≤ 14035842)
    (year : int (tm.year + 1900) = tm.year + 1900) {y k : Int}
    (march : marchOf (tm.year + 1900) (tm.mon + 1) = (y, k)) : tm.late = lateIn y (k / 12) (k % 12) := by
  have mon : int (tm.mon + 1) = tm.mon + 1 := intFits (by omega) (by omega)
  have start := monthStartOf (tm.year + 1900) (tm.mon + 1)
  have range : -14035840 ≤ k ∧ k ≤ 14035840 := by
    have snd := congrArg Prod.snd march
    unfold marchOf at snd
    split at snd <;> dsimp only at snd <;> omega
  have fits : int (153 * k + 2) = 153 * k + 2 := intFits (by omega) (by omega)
  have parts : 12 * (k / 12) + k % 12 = k := by omega
  unfold Tm.late lateIn
  dsimp only
  rw [year, mon, start, march, parts]
  dsimp only
  rw [fits]

theorem monthRightIff {tm : Tm} (year : int (tm.year + 1900) = tm.year + 1900) :
    2 ^ 25 ∣ tm.late ↔ MonthRight tm := by
  unfold MonthRight
  by_cases near : -14035850 ≤ tm.mon ∧ tm.mon ≤ 14035842
  · obtain ⟨low, high⟩ := near
    rcases march : marchOf (tm.year + 1900) (tm.mon + 1) with ⟨y, k⟩
    rw [lateIs low high year march]
    have month : 0 ≤ k % 12 ∧ k % 12 ≤ 11 := by omega
    have place : k = tm.mon + 10 ∧ tm.mon ≤ 1 ∧ y = tm.year + 1899 ∨ k = tm.mon - 2 ∧ 1 < tm.mon := by
      unfold marchOf at march
      split at march <;> obtain ⟨rfl, rfl⟩ := march <;> omega
    rcases Int.lt_trichotomy (k / 12) 0 with before | inside | after
    · by_cases one : k / 12 = -1
      · obtain ⟨least, most, zero⟩ := lateInYearBefore (y := y) month
        have year : y = tm.year + 1899 := by omega
        have index : k % 12 = tm.mon + 22 := by omega
        rw [index, longMonth (y := tm.year + 1899) (by omega) (by omega), year] at zero
        rw [one, index, year]
        rw [index, year] at least most
        constructor
        · intro whole
          exact Or.inr (Or.inl ⟨by omega, by omega, zero.mp (by omega)⟩)
        · rintro (inside | ⟨_, _, right⟩ | far)
          · omega
          · rw [zero.mpr right]
            exact Int.dvd_zero _
          · omega
      · have range := lateInBefore (y := y) month (show k / 12 ≤ -2 by omega)
        omega
    · rw [inside, lateInYear month.1]
      omega
    · have range := lateInAfter (y := y) month.1 (show 1 ≤ k / 12 by omega)
      omega
  · constructor
    · exact fun whole => Or.inr (Or.inr ⟨by omega, whole⟩)
    · rintro (inside | before | far)
      · omega
      · omega
      · exact far.2

theorem timeToTmIsdst (t : Int) : {timeToTm t with isdst := 0} = timeToTm t := by
  unfold timeToTm
  dsimp only

theorem mktimeTo (tm : Tm) : (mktime tm).2 = timeToTm (mktime tm).1 := timeToTmIsdst _

theorem mktimeNormalises {tm : Tm} (ints : tm.Ints) :
    Normalised tm (mktime tm) ↔ IsInt tm.seconds ∧ MonthRight tm := by
  have word : IsInt (mktime tm).1 := intIsInt _
  constructor
  · rintro ⟨same, _⟩
    have fits : IsInt tm.seconds := same ▸ word
    obtain ⟨low, high⟩ := ints.years fits
    rw [mktimeSeconds (by omega) (by omega)] at same
    refine ⟨fits, (monthRightIff (intFits (by omega) (by omega))).mp ?_⟩
    obtain ⟨first, last⟩ := fits
    unfold int at same
    omega
  · rintro ⟨fits, right⟩
    obtain ⟨low, high⟩ := ints.years fits
    have whole := (monthRightIff (intFits (by omega) (by omega))).mpr right
    have same : (mktime tm).1 = tm.seconds := by
      rw [mktimeSeconds (by omega) (by omega)]
      obtain ⟨first, last⟩ := fits
      unfold int
      omega
    refine ⟨same, ?_⟩
    rw [mktimeTo, same]
    exact timeToTmUtc fits

theorem mktimeGmtime {t : Int} (fits : IsInt t) : mktime (gmtime t) = (t, gmtime t) := by
  obtain ⟨d, utc⟩ := timeToTmUtc fits
  have seconds : (timeToTm t).seconds = t := by
    have month := numberMonth d
    have number := utc.number
    unfold Tm.seconds
    rw [utc.year, utc.mon, utc.mday, utc.hour, utc.min, utc.sec, Int.sub_add_cancel,
      Int.sub_add_cancel, ← month]
    omega
  have ints : (timeToTm t).Ints := by
    obtain ⟨low, high⟩ := fits
    have number := utc.number
    obtain ⟨lowYear, highYear⟩ := yearSmall (d := d) (by omega) (by omega)
    have months := d.months
    have days := d.days
    have most := monthDaysPos d.year d.month
    constructor <;> unfold IsInt
    · rw [utc.sec]
      omega
    · rw [utc.min]
      omega
    · rw [utc.hour]
      omega
    · rw [utc.mday]
      omega
    · rw [utc.mon]
      omega
    · rw [utc.year]
      omega
  have right : MonthRight (timeToTm t) := by
    have months := d.months
    refine Or.inl ?_
    rw [utc.mon]
    omega
  have same := ((mktimeNormalises ints).mpr ⟨seconds.symm ▸ fits, right⟩).1
  rw [seconds] at same
  exact Prod.ext same (by rw [gmtime, mktimeTo, same])

/-- Timestamps become their date and time of day and come back, dates come back from their day
where the day is in reach, and mktime normalises where the month is one of those it is right
for. -/
theorem timeIff (t : Int) (d : Date) (tm : Tm) :
    (IsInt t → (∃ d, Utc t (gmtime t) d) ∧ mktime (gmtime t) = (t, gmtime t)) ∧
      (civilFromDays (daysFromCivil d.year d.month d.day) = (d.year, d.month, d.day) ↔ Reached d) ∧
      (tm.Ints → (Normalised tm (mktime tm) ↔ IsInt tm.seconds ∧ MonthRight tm)) :=
  ⟨fun fits => ⟨timeToTmUtc fits, mktimeGmtime fits⟩, daysBack d, mktimeNormalises⟩

theorem marchTwoLate :
    let tm : Tm := ⟨0, 0, 0, 1, 14, 100, 0, 0, 0⟩
    tm.Ints ∧ IsInt tm.seconds ∧ tm.seconds = 983404800 ∧ (mktime tm).1 = 983577600 ∧
      ((mktime tm).2.mday, (mktime tm).2.mon, (mktime tm).2.year) = (3, 2, 101) := by
  refine ⟨⟨?_, ?_, ?_, ?_, ?_, ?_⟩, ?_, ?_, ?_, ?_⟩ <;> decide

theorem marchTwoLateNot : ¬∀ tm : Tm, tm.Ints → IsInt tm.seconds → Normalised tm (mktime tm) := by
  intro right
  obtain ⟨ints, fits, seconds, returned, _⟩ := marchTwoLate
  have same := (right _ ints fits).1
  rw [seconds, returned] at same
  exact absurd same (by decide)

/-- The last second of 1969, and fields each out of its range. -/
theorem timeIffJanuary :
    (∃ d, Utc (-1) (gmtime (-1)) d) ∧ mktime (gmtime (-1)) = (-1, gmtime (-1)) ∧
      Normalised ⟨-5, 70, 30, 40, 13, 99, 0, 0, 0⟩ (mktime ⟨-5, 70, 30, 40, 13, 99, 0, 0, 0⟩) := by
  obtain ⟨stamps, _, fields⟩ := timeIff (-1) ⟨1969, 12, 31, by decide, by decide⟩
    ⟨-5, 70, 30, 40, 13, 99, 0, 0, 0⟩
  obtain ⟨utc, back⟩ := stamps (by decide)
  refine ⟨utc, back, (fields ⟨?_, ?_, ?_, ?_, ?_, ?_⟩).mpr ⟨?_, Or.inl ?_⟩⟩ <;> decide

end Scepter.Time
