import Mathlib.Data.Int.Basic
import Mathlib.Tactic.Common
import Mathlib.Order.Monotone.Basic
import Mathlib.Tactic.IntervalCases
import Mathlib.Tactic.Ring

/-!
# The Gregorian calendar by months

Days are numbered from 1970-01-01, months from January of the year 0. `mktime` is the library
function of that name: a month outside `1 … 12` or a day outside its month moves the date on or
back, which is what `firstDay` of a month number does. Months begin in order
(`firstDay_lt_firstDay`), so for a fixed day a date determines its month (`mktime_month_inj`), and
a reading of the clock is determined by its seconds (`DateTime.time_inj`).
-/

namespace Calendar

/-- Days from 0001-01-01 to the first of January of a year. -/
def daysBeforeYear (year : ℤ) : ℤ :=
  365 * (year - 1) + (year - 1) / 4 - (year - 1) / 100 + (year - 1) / 400

/-- Years with a 29th of February. -/
def IsLeap (year : ℤ) : Prop := year % 4 = 0 ∧ (year % 100 ≠ 0 ∨ year % 400 = 0)

instance (year : ℤ) : Decidable (IsLeap year) := inferInstanceAs (Decidable (_ ∧ _))

/-- Days of a year before a month, with January as 0. -/
def daysBeforeMonth (leap : Bool) : ℤ → ℤ
  | 0 => 0
  | 1 => 31
  | 2 => 59 + leap.toInt
  | 3 => 90 + leap.toInt
  | 4 => 120 + leap.toInt
  | 5 => 151 + leap.toInt
  | 6 => 181 + leap.toInt
  | 7 => 212 + leap.toInt
  | 8 => 243 + leap.toInt
  | 9 => 273 + leap.toInt
  | 10 => 304 + leap.toInt
  | _ => 334 + leap.toInt

/-- The number of the first day of a month. -/
def firstDay (month : ℤ) : ℤ :=
  daysBeforeYear (month / 12) + daysBeforeMonth (IsLeap (month / 12)) (month % 12) - 719162

/-- Seconds of a date and a time of day, with numbers out of range carried over. -/
def mktime (hour minute second month day year : ℤ) : ℤ :=
  86400 * (firstDay (12 * year + (month - 1)) + (day - 1)) + 3600 * hour + 60 * minute + second

/-- A year has 365 days, or 366 if it is a leap year. -/
theorem daysBeforeYear_succ (year : ℤ) :
    daysBeforeYear (year + 1) = daysBeforeYear year + 365 + (decide (IsLeap year)).toInt := by
  unfold daysBeforeYear
  by_cases hleap : IsLeap year
  · simp only [hleap, decide_true, Bool.toInt_true]
    unfold IsLeap at hleap
    omega
  · simp only [hleap, decide_false, Bool.toInt_false]
    unfold IsLeap at hleap
    omega

/-- Within a year, a month has from 1 to 31 days. -/
theorem daysBeforeMonth_succ (leap : Bool) {m : ℤ} (h0 : 0 ≤ m) (h11 : m < 11) :
    daysBeforeMonth leap m < daysBeforeMonth leap (m + 1) ∧
      daysBeforeMonth leap (m + 1) ≤ daysBeforeMonth leap m + 31 := by
  interval_cases m <;> cases leap <;> decide

/-- A month has from 1 to 31 days. -/
theorem firstDay_succ (month : ℤ) :
    firstDay month < firstDay (month + 1) ∧ firstDay (month + 1) ≤ firstDay month + 31 := by
  unfold firstDay
  have h0 : 0 ≤ month % 12 := by omega
  by_cases h11 : month % 12 < 11
  · have hy : (month + 1) / 12 = month / 12 := by omega
    have hm : (month + 1) % 12 = month % 12 + 1 := by omega
    rw [hy, hm]
    have := daysBeforeMonth_succ (IsLeap (month / 12)) h0 h11
    omega
  · -- December, and the next month is in the next year
    have hy : (month + 1) / 12 = month / 12 + 1 := by omega
    have hm : (month + 1) % 12 = 0 := by omega
    have hdec : month % 12 = 11 := by omega
    rw [hy, hm, hdec, daysBeforeYear_succ]
    have h334 : ∀ leap : Bool, daysBeforeMonth leap 11 = 334 + leap.toInt := fun _ => rfl
    have hjan : ∀ leap : Bool, daysBeforeMonth leap 0 = 0 := fun _ => rfl
    rw [h334, hjan]
    omega

/-- Months begin in order. -/
theorem firstDay_lt_firstDay {m n : ℤ} (h : m < n) : firstDay m < firstDay n :=
  strictMono_int_of_lt_succ (fun month => (firstDay_succ month).1) h

/-- For a fixed day and time of day, a later month is a later date. -/
theorem mktime_lt_month {hour minute second day year m n : ℤ} (hlt : m < n) :
    mktime hour minute second m day year < mktime hour minute second n day year := by
  have : firstDay (12 * year + (m - 1)) < firstDay (12 * year + (n - 1)) :=
    firstDay_lt_firstDay (by omega)
  unfold mktime
  omega

/-- For a fixed day and time of day, the date determines the month. -/
theorem mktime_month_inj {hour minute second day year m n : ℤ} :
    mktime hour minute second m day year = mktime hour minute second n day year ↔ m = n := by
  constructor
  · intro h
    rcases lt_trichotomy m n with hlt | heq | hgt
    · exact absurd h (mktime_lt_month hlt).ne
    · exact heq
    · exact absurd h (mktime_lt_month hgt).ne'
  · rintro rfl
    rfl

/-- A reading of the clock: the numbers are in range, so no two readings are the same time. -/
@[ext]
structure DateTime where
  year : ℕ
  month : ℕ
  day : ℕ
  hour : ℕ
  minute : ℕ
  second : ℕ
  month_pos : 1 ≤ month
  month_le : month ≤ 12
  day_pos : 1 ≤ day
  day_le : (day : ℤ) ≤ firstDay (12 * year + month) - firstDay (12 * year + (month - 1))
  hour_lt : hour < 24
  minute_lt : minute < 60
  second_lt : second < 60

namespace DateTime

/-- The number of the month of a reading. -/
def monthNumber (t : DateTime) : ℤ := 12 * t.year + (t.month - 1)

/-- The number of the day of a reading. -/
def dayNumber (t : DateTime) : ℤ := firstDay t.monthNumber + (t.day - 1)

/-- The seconds of a reading. -/
def time (t : DateTime) : ℤ := mktime t.hour t.minute t.second t.month t.day t.year

theorem day_le_31 (t : DateTime) : t.day ≤ 31 := by
  have hday := t.day_le
  have hmonth := (firstDay_succ (12 * t.year + (t.month - 1))).2
  rw [add_assoc, sub_add_cancel] at hmonth
  omega

theorem dayNumber_lt (t : DateTime) : t.dayNumber < firstDay (t.monthNumber + 1) := by
  have hday := t.day_le
  have hnext : t.monthNumber + 1 = 12 * t.year + t.month := by
    unfold monthNumber
    ring
  rw [hnext]
  unfold dayNumber monthNumber
  omega

/-- A day of an earlier month is an earlier day. -/
theorem dayNumber_lt_of_month_lt {t u : DateTime} (h : t.monthNumber < u.monthNumber) :
    t.dayNumber < u.dayNumber := by
  have hmonth : firstDay (t.monthNumber + 1) ≤ firstDay u.monthNumber := by
    rcases (show t.monthNumber + 1 ≤ u.monthNumber from h).lt_or_eq with hlt | heq
    · exact (firstDay_lt_firstDay hlt).le
    · rw [heq]
  have hlt := t.dayNumber_lt
  have hpos := u.day_pos
  unfold dayNumber at hlt ⊢
  omega

/-- The seconds of a reading determine it. -/
theorem time_inj {t u : DateTime} : t.time = u.time ↔ t = u := by
  refine ⟨fun h => ?_, congrArg time⟩
  have hsec : ∀ t : DateTime,
      t.time = 86400 * t.dayNumber + (3600 * t.hour + 60 * t.minute + t.second) := fun t => by
    unfold time mktime dayNumber monthNumber
    ring
  rw [hsec t, hsec u] at h
  have := t.hour_lt
  have := t.minute_lt
  have := t.second_lt
  have := u.hour_lt
  have := u.minute_lt
  have := u.second_lt
  have hday : t.dayNumber = u.dayNumber := by omega
  have hmonth : t.monthNumber = u.monthNumber := by
    rcases lt_trichotomy t.monthNumber u.monthNumber with hlt | heq | hgt
    · exact absurd hday (dayNumber_lt_of_month_lt hlt).ne
    · exact heq
    · exact absurd hday (dayNumber_lt_of_month_lt hgt).ne'
  have hdays : (t.day : ℤ) = u.day := by
    unfold dayNumber at hday
    rw [hmonth] at hday
    omega
  have := t.month_pos
  have := u.month_pos
  have := t.month_le
  have := u.month_le
  unfold monthNumber at hmonth
  ext <;> omega

/-- The last second of 2013. -/
def newYearsEve : DateTime where
  year := 2013
  month := 12
  day := 31
  hour := 23
  minute := 59
  second := 59
  month_pos := by decide
  month_le := by decide
  day_pos := by decide
  day_le := by decide
  hour_lt := by decide
  minute_lt := by decide
  second_lt := by decide

end DateTime

-- 2013-06-01 00:00:00, and a 13th month
example : mktime 0 0 0 6 1 2013 = 1370044800 := by decide
example : mktime 0 0 0 13 1 2013 = mktime 0 0 0 1 1 2014 := by decide

end Calendar
