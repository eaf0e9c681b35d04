import Scepter.Crt.Time

/-! The real-time clock (driver/char/rtc.c): the registers of the chip, the timestamp the kernel
makes of them, and what the C library reads back from it. -/
namespace Scepter.Rtc
open CInt
open Calendar
open Time (Tm gmtime Utc timeToTmUtc)

abbrev Chip := Nat → Nat → Nat

def rtcReadRegister (chip : Chip) (read reg : Nat) : Nat := chip read ((1 <<< 7 ||| reg) % 128)

structure RtcTime where
  second : Nat
  minute : Nat
  hour : Nat
  day : Nat
  month : Nat
  year : Nat

def bcdToBinary (bcd : Nat) : Nat := ((bcd >>> 4) * 10 + (bcd &&& 0x0F)) % 256

def rtcWait (chip : Chip) : Nat → Nat → Option Nat
  | 0, _ => none
  | fuel + 1, read =>
    if rtcReadRegister chip read 0x0A &&& 0x80 ≠ 0 then rtcWait chip fuel (read + 1)
    else some (read + 1)

def rtcGetTime (fuel : Nat) (chip : Chip) : Option (Int × RtcTime) := do
  let read ← rtcWait chip fuel 0
  let time : RtcTime :=
    { second := rtcReadRegister chip read 0x00
      minute := rtcReadRegister chip (read + 1) 0x02
      hour := rtcReadRegister chip (read + 2) 0x04
      day := rtcReadRegister chip (read + 3) 0x07
      month := rtcReadRegister chip (read + 4) 0x08
      year := rtcReadRegister chip (read + 5) 0x09 }
  let statusB := rtcReadRegister chip (read + 6) 0x0B
  if statusB &&& 0x04 = 0 then
    some (0,
      { second := bcdToBinary time.second
        minute := bcdToBinary time.minute
        hour := bcdToBinary time.hour
        day := bcdToBinary time.day
        month := bcdToBinary time.month
        year := bcdToBinary time.year })
  else some (0, time)

def daysInMonth : List Int := [0, 31, 59, 90, 120, 151, 181, 212, 243, 273, 304, 334]

def unixTime (time : RtcTime) : Int :=
  let year := unsigned (2000 + time.year)
  let days := unsigned (unsigned (year - 1970) * 365)
  let days := unsigned (days + unsigned (year - 1970 + 1) / 4)
  let days :=
    if time.month > 0 ∧ time.month ≤ 12 then
      unsigned (days + daysInMonth.getD (time.month - 1) 0)
    else days
  let days := unsigned (days + (time.day - 1))
  let timestamp := unsigned (days * 86400)
  let timestamp := unsigned (timestamp + time.hour * 3600)
  let timestamp := unsigned (timestamp + time.minute * 60)
  unsigned (timestamp + time.second)

def rtcGetUnixTime (fuel : Nat) (chip : Chip) : Option Int := do
  let (r, time) ← rtcGetTime fuel chip
  if r < 0 then some 1 else some (unixTime time)

/-! ## What the clock reports -/

def encoded (binary : Bool) (value : Nat) : Nat :=
  if binary then value else value / 10 * 16 + value % 10

def Holds (binary : Bool) (reg value : Nat) : Prop :=
  reg = encoded binary value ∧ value < if binary then 256 else 100
instance (binary reg value) : Decidable (Holds binary reg value) := by unfold Holds; infer_instance

def HoldsHour (binary twentyFour : Bool) (reg hour : Nat) : Prop :=
  if twentyFour then Holds binary reg hour
  else reg = encoded binary ((hour + 11) % 12 + 1) + if hour < 12 then 0 else 0x80
instance (binary twentyFour reg hour) : Decidable (HoldsHour binary twentyFour reg hour) := by
  unfold HoldsHour
  infer_instance

structure Report where
  date : Date
  hour : Nat
  minute : Nat
  second : Nat
  from2000 : 2000 ≤ date.year
  day : hour < 24 ∧ minute < 60 ∧ second < 60

def Report.seconds (r : Report) : Int :=
  r.date.number * 86400 + r.hour * 3600 + r.minute * 60 + r.second

/-- The chip shows an update in progress at the first `start` reads, and then the date and the
time of the report while it is read. -/
structure Reports (chip : Chip) (start : Nat) (binary twentyFour : Bool) (r : Report) : Prop where
  busy : ∀ read < start, chip read 0x0A &&& 0x80 ≠ 0
  idle : chip start 0x0A &&& 0x80 = 0
  second : Holds binary (chip (start + 1) 0x00) r.second
  minute : Holds binary (chip (start + 2) 0x02) r.minute
  hour : HoldsHour binary twentyFour (chip (start + 3) 0x04) r.hour
  day : Holds binary (chip (start + 4) 0x07) r.date.day.toNat
  month : Holds binary (chip (start + 5) 0x08) r.date.month.toNat
  year : Holds binary (chip (start + 6) 0x09) (r.date.year - 2000).toNat
  mode : (chip (start + 7) 0x0B &&& 0x04 ≠ 0) = binary
  hours : (chip (start + 7) 0x0B &&& 0x02 ≠ 0) = twentyFour

structure Shows (tm : Tm) (r : Report) : Prop where
  year : tm.year = r.date.year - 1900
  mon : tm.mon = r.date.month - 1
  mday : tm.mday = r.date.day
  hour : tm.hour = r.hour
  min : tm.min = r.minute
  sec : tm.sec = r.second

/-! ## Reading the registers -/

theorem waitDone {chip : Chip} {start : Nat} (busy : ∀ read < start, chip read 0x0A &&& 0x80 ≠ 0)
    (idle : chip start 0x0A &&& 0x80 = 0) (fuel read : Nat) (before : read ≤ start)
    (enough : start < read + fuel) : rtcWait chip fuel read = some (start + 1) := by
  induction fuel generalizing read with
  | zero => omega
  | succ fuel ih =>
    by_cases last : read = start
    · rw [last]
      exact if_neg fun update => update idle
    · have next := ih (read + 1) (by omega) (by omega)
      rw [← next]
      exact if_pos (busy read (by omega))

theorem bcdDigits (tens ones : Nat) (small : ones < 10) (fits : tens < 16) :
    bcdToBinary (tens * 16 + ones) = tens * 10 + ones := by
  unfold bcdToBinary
  rw [Nat.shiftRight_eq_div_pow, show (0x0F : Nat) = 2 ^ 4 - 1 from rfl, Nat.and_two_pow_sub_one_eq_mod]
  omega

def taken (binary : Bool) (reg : Nat) : Nat := if binary then reg else bcdToBinary reg

theorem takenHolds {binary : Bool} {reg value : Nat} (holds : Holds binary reg value) :
    taken binary reg = value := by
  cases binary with
  | true => exact holds.1
  | false =>
    obtain ⟨rfl, small⟩ := holds
    have digits : value < 100 := small
    rw [taken, if_neg (by decide), encoded, if_neg (by decide), bcdDigits _ _ (by omega) (by omega)]
    omega

/-- The hours by which the driver is late where the clock counts to 12: noon and midnight are not
moved, and the bit of the hours behind noon is part of the number. -/
def hoursMore (binary twentyFour : Bool) (hour : Nat) : Nat :=
  if twentyFour then 0
  else if hour = 0 then 12
  else if hour < 12 then 0
  else (if binary then 128 else 80) - if hour = 12 then 0 else 12

theorem bcdHour : ∀ hour < 24,
    bcdToBinary (((hour + 11) % 12 + 1) / 10 * 16 + ((hour + 11) % 12 + 1) % 10 +
      if hour < 12 then 0 else 0x80) = hour + hoursMore false false hour := by
  decide

theorem takenHour {binary twentyFour : Bool} {reg hour : Nat} (day : hour < 24)
    (holds : HoldsHour binary twentyFour reg hour) :
    taken binary reg = hour + hoursMore binary twentyFour hour := by
  cases twentyFour with
  | true => exact takenHolds holds
  | false =>
    cases holds
    cases binary with
    | true =>
      simp only [taken, hoursMore, encoded, if_true, Bool.false_eq_true, if_false]
      split <;> split <;> try split
      all_goals omega
    | false => exact bcdHour hour day

def Report.time (r : Report) (binary twentyFour : Bool) : RtcTime :=
  { second := r.second
    minute := r.minute
    hour := r.hour + hoursMore binary twentyFour r.hour
    day := r.date.day.toNat
    month := r.date.month.toNat
    year := (r.date.year - 2000).toNat }

section Reading

variable {chip : Chip} {start fuel : Nat} {binary twentyFour : Bool} {r : Report}

theorem getTimeReports (reports : Reports chip start binary twentyFour r) (enough : start < fuel) :
    rtcGetTime fuel chip = some (0, r.time binary twentyFour) := by
  have wait := waitDone reports.busy reports.idle fuel 0 (by omega) (by omega)
  have second := takenHolds reports.second
  have minute := takenHolds reports.minute
  have hour := takenHour r.day.1 reports.hour
  have day := takenHolds reports.day
  have month := takenHolds reports.month
  have year := takenHolds reports.year
  have mode := reports.mode
  unfold rtcGetTime Report.time
  rw [wait, ← second, ← minute, ← hour, ← day, ← month, ← year]
  cases binary with
  | true => exact if_neg (mode.mpr rfl)
  | false => exact if_pos (Decidable.not_not.mp fun on => Bool.false_ne_true (mode.mp on))

end Reading

/-! ## The timestamp -/

def dayMissed (d : Date) : Int := if Leap d.year ∧ 2 < d.month then 1 else 0

def daysMore (y : Int) : Int := (y - 1) / 100 - (y - 1) / 400 - 15

theorem daysInMonthIs {y m : Int} (months : 1 ≤ m ∧ m ≤ 12) :
    daysInMonth.getD (m.toNat - 1) 0 =
      daysBefore y (m - 1).toNat - if Leap y ∧ 2 < m then 1 else 0 := by
  obtain ⟨low, high⟩ := months
  by_cases leap : Leap y <;> interval_cases m <;>
    simp [daysInMonth, daysBefore, monthDays, leap]

theorem unixTimeIs (r : Report) (binary twentyFour : Bool) (small : r.date.year < 2256) :
    unixTime (r.time binary twentyFour) =
      unsigned (r.seconds + 86400 * (daysMore r.date.year - dayMissed r.date) +
        3600 * hoursMore binary twentyFour r.hour) := by
  have months := r.date.months
  have days := r.date.days
  have from2000 := r.from2000
  have year : unsigned (2000 + ((r.date.year - 2000).toNat : Int)) = r.date.year := by
    rw [unsignedFits (by omega) (by omega)]
    omega
  have since : unsigned (r.date.year - 1970) = r.date.year - 1970 :=
    unsignedFits (by omega) (by omega)
  have fours : unsigned (r.date.year - 1970 + 1) = r.date.year - 1970 + 1 :=
    unsignedFits (by omega) (by omega)
  have table := daysInMonthIs (y := r.date.year) months
  unfold unixTime Report.time Report.seconds Date.number yearStart dayMissed daysMore
  dsimp only
  rw [if_pos (by omega), table, year, since, fours]
  generalize daysBefore _ _ = before
  generalize (if Leap r.date.year ∧ 2 < r.date.month then (1 : Int) else 0) = missed
  generalize hoursMore binary twentyFour r.hour = more
  have leaps : (r.date.year - 1970 + 1) / 4 = (r.date.year - 1) / 4 - 492 := by omega
  rw [Int.toNat_of_nonneg (by omega), Int.natCast_add, leaps]
  simp only [unsignedAddLeft, unsignedMulLeft]
  congr 1
  omega

theorem hoursMoreSmall (binary twentyFour : Bool) (hour : Nat) :
    hoursMore binary twentyFour hour ≤ 128 ∧
      (hoursMore binary twentyFour hour = 0 ↔ twentyFour = true ∨ 1 ≤ hour ∧ hour ≤ 11) ∧
      hoursMore binary twentyFour hour ≠ 24 := by
  unfold hoursMore
  cases twentyFour with
  | true => simp
  | false =>
    cases binary <;> simp only [Bool.false_eq_true, if_false, if_true, false_or]
    all_goals repeat' split
    all_goals omega

theorem shownIff {t : Int} (fits : IsInt t) (r : Report) : Shows (gmtime t) r ↔ t = r.seconds := by
  obtain ⟨d, utc⟩ := timeToTmUtc fits
  have number := utc.number
  have day := r.day
  constructor
  · rintro ⟨year, mon, mday, hour, min, sec⟩
    have same : d = r.date := by
      rw [gmtime, utc.year] at year
      rw [gmtime, utc.mon] at mon
      rw [gmtime, utc.mday] at mday
      exact Date.ext' (by omega) (by omega) mday
    rw [gmtime, utc.hour] at hour
    rw [gmtime, utc.min] at min
    rw [gmtime, utc.sec] at sec
    rw [Report.seconds, ← same]
    omega
  · intro same
    have equal : d = r.date := by
      apply numberInjective
      rw [number, same, Report.seconds]
      omega
    rw [Report.seconds, ← equal] at same
    constructor
    · rw [← equal]
      exact utc.year
    · rw [← equal]
      exact utc.mon
    · rw [← equal]
      exact utc.mday
    · rw [gmtime, utc.hour]
      omega
    · rw [gmtime, utc.min]
      omega
    · rw [gmtime, utc.sec]
      omega

theorem secondsRange (r : Report) :
    0 ≤ r.seconds ∧ (r.seconds < 2 ^ 31 → daysMore r.date.year = 0) := by
  have from2000 := r.from2000
  have day := r.day
  have before := daysBeforeRange r.date.year (r.date.month - 1).toNat
  have days := r.date.days
  unfold Report.seconds Date.number yearStart daysMore
  constructor <;> omega

theorem dayMissedIff (d : Date) :
    0 ≤ dayMissed d ∧ dayMissed d ≤ 1 ∧ (dayMissed d = 0 ↔ ¬(Leap d.year ∧ 2 < d.month)) := by
  unfold dayMissed
  split <;> simp_all

/-- The reports that come back: up to 2038-01-19 03:14:07, not from March to December of a leap
year, and, where the hours are counted to 12, before noon and not at midnight. -/
def ComesBack (twentyFour : Bool) (r : Report) : Prop :=
  r.seconds < 2 ^ 31 ∧ ¬(Leap r.date.year ∧ 2 < r.date.month) ∧
    (twentyFour = true ∨ 1 ≤ r.hour ∧ r.hour ≤ 11)

theorem comesBackIff (r : Report) (binary twentyFour : Bool) (small : r.date.year < 2256) :
    Shows (gmtime (int (unixTime (r.time binary twentyFour)))) r ↔ ComesBack twentyFour r := by
  rw [shownIff (intIsInt _), unixTimeIs r binary twentyFour small, intUnsigned]
  obtain ⟨most, hour, notDay⟩ := hoursMoreSmall binary twentyFour r.hour
  obtain ⟨low, high, missed⟩ := dayMissedIff r.date
  obtain ⟨positive, century⟩ := secondsRange r
  rw [ComesBack, ← hour, ← missed]
  constructor
  · intro same
    have fits : r.seconds < 2 ^ 31 := same ▸ (intIsInt _).2
    rw [century fits] at same
    unfold int at same
    clear hour missed
    have day : dayMissed r.date = 0 ∨ dayMissed r.date = 1 := by omega
    rcases day with none | one
    · rw [none] at same ⊢
      exact ⟨fits, rfl, by omega⟩
    · rw [one] at same
      exact absurd (by omega) notDay
  · rintro ⟨fits, noDay, noHour⟩
    rw [century fits, noDay, noHour, intFits (by omega) (by omega)]
    omega

theorem holdsSmall {binary : Bool} {reg value : Nat} (holds : Holds binary reg value) : value < 256 := by
  obtain ⟨_, small⟩ := holds
  split at small <;> omega

/-- rtc_get_unix_time waits for the update to end and gives a timestamp that gmtime shows as the
report exactly where the report is one of those that come back. -/
theorem unixTimeIff {chip : Chip} {start fuel : Nat} {binary twentyFour : Bool} {r : Report}
    (reports : Reports chip start binary twentyFour r) (enough : start < fuel) :
    ∃ t, rtcGetUnixTime fuel chip = some t ∧
      (Shows (gmtime (int t)) r ↔ ComesBack twentyFour r) := by
  refine ⟨unixTime (r.time binary twentyFour), ?_, comesBackIff r binary twentyFour ?_⟩
  · rw [rtcGetUnixTime, getTimeReports reports enough]
    rfl
  · have year := holdsSmall reports.year
    omega

def leapMarch : Report := ⟨⟨2024, 3, 1, by decide, by decide⟩, 12, 30, 45, by decide, by decide⟩

def leapMarchChip : Chip := fun read reg =>
  ([(0x00, 0x45), (0x02, 0x30), (0x04, 0x12), (0x07, 0x01), (0x08, 0x03), (0x09, 0x24),
    (0x0A, if read = 0 then 0xA6 else 0x26), (0x0B, 0x02)].lookup reg).getD 0

theorem leapMarchReports : Reports leapMarchChip 1 false true leapMarch := by
  constructor <;> decide

theorem leapMarchDayEarly :
    ¬∀ (chip : Chip) (start fuel : Nat) (binary : Bool) (r : Report),
      Reports chip start binary true r → start < fuel → r.seconds < 2 ^ 31 →
        ∃ t, rtcGetUnixTime fuel chip = some t ∧ Shows (gmtime (int t)) r := by
  intro right
  obtain ⟨t, given, shows⟩ := right _ _ 2 _ _ leapMarchReports (by decide) (by decide)
  have returned : rtcGetUnixTime 2 leapMarchChip = some 1709209845 := by decide
  rw [returned] at given
  cases given
  have day := shows.mday
  revert day
  decide

theorem februaryMonth : (1 : Int) ≤ 2 ∧ (2 : Int) ≤ 12 := by decide

def leapFebruary : Report :=
  ⟨⟨2024, 2, 29, februaryMonth, by decide⟩, 12, 30, 45, by decide, by decide⟩

def leapFebruaryChip : Chip := fun read reg =>
  ([(0x00, 0x45), (0x02, 0x30), (0x04, 0x12), (0x07, 0x29), (0x08, 0x02), (0x09, 0x24),
    (0x0A, if read = 0 then 0xA6 else 0x26), (0x0B, 0x02)].lookup reg).getD 0

theorem leapFebruaryReports : Reports leapFebruaryChip 1 false true leapFebruary := by
  constructor <;> decide

theorem unixTimeIffLeapDay :
    ∃ t, rtcGetUnixTime 2 leapFebruaryChip = some t ∧
      (Shows (gmtime (int t)) leapFebruary ↔ ComesBack true leapFebruary) :=
  unixTimeIff leapFebruaryReports (by decide)

end Scepter.Rtc
