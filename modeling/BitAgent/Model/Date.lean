/-
# Model.Date — dates, and the range of a month

`IsValid` and `numDaysInMonth` of `internal/model/date.go` and the range of a month of `daterange.go`, which a search
takes without its end time. February of a year that is divisible by 100 and not by 400 has 29 days in the code.
-/
import Mathlib.Tactic.Ring
import Mathlib.Tactic.NormNum

namespace BitAgent.Model

structure Date where
  year : Nat
  month : Int
  day : Nat
  deriving DecidableEq

/-! ## The calendar -/

def leap (year : Int) : Bool := decide (year % 4 = 0 ∧ (year % 100 ≠ 0 ∨ year % 400 = 0))

def daysIn (year month : Int) : Nat :=
  if month = 2 then if leap year then 29 else 28
  else if month = 4 ∨ month = 6 ∨ month = 9 ∨ month = 11 then 30
  else 31

def Date.Exists (d : Date) : Prop := 1 ≤ d.month ∧ d.month ≤ 12 ∧ 1 ≤ d.day ∧ d.day ≤ daysIn d.year d.month

/-- The days from the first day of year 1 to that of the year. -/
def daysBeforeYear (year : Int) : Int := 365 * (year - 1) + (year - 1) / 4 - (year - 1) / 100 + (year - 1) / 400

def daysBeforeMonth (year : Int) : Nat → Int
  | 0 => 0
  | month + 1 => daysBeforeMonth year month + daysIn year (month + 1)

/-- `time.Date` in UTC, in nanoseconds from year 1. Values outside their ranges count on. -/
def timeDate (year month day hour nsec : Int) : Int :=
  let y := year + (month - 1) / 12
  let m := (month - 1) % 12
  (daysBeforeYear y + daysBeforeMonth y m.toNat + (day - 1)) * 86400000000000 + hour * 3600000000000 + nsec

/-- The month is from the midnight with which it begins up to that of the next one. -/
def InMonth (year month t : Int) : Prop := timeDate year month 1 0 0 ≤ t ∧ t < timeDate year (month + 1) 1 0 0

/-! ## The code -/

def numDaysInMonth (year : Nat) (month : Int) : Nat :=
  if month = 1 ∨ month = 3 ∨ month = 5 ∨ month = 7 ∨ month = 8 ∨ month = 10 ∨ month = 12 then 31
  else if month = 4 ∨ month = 6 ∨ month = 9 ∨ month = 11 then 30
  else if month = 2 then if year % 4 = 0 then 29 else 28
  else 0

namespace Date

def isValid (d : Date) : Bool :=
  decide (d.year ≥ 1000 ∧ d.year ≤ 9999 ∧ d.month ≥ 1 ∧ d.month ≤ 12 ∧ d.day ≥ 1 ∧
    d.day ≤ numDaysInMonth d.year d.month)

/-- One nanosecond is added where the zero time would be returned. -/
def time (d : Date) : Int := timeDate d.year d.month d.day 0 (if d.year = 1 ∧ d.month = 1 ∧ d.day = 1 then 1 else 0)
def endOfDayTime (d : Date) : Int := timeDate d.year d.month d.day 24 0

end Date

structure DateRangeMonthAndYear where
  month : Int
  year : Nat

namespace DateRangeMonthAndYear

def start (r : DateRangeMonthAndYear) : Date := ⟨r.year, r.month, 1⟩
def end_ (r : DateRangeMonthAndYear) : Date := ⟨r.year, r.month, numDaysInMonth r.year r.month⟩
def startTime (r : DateRangeMonthAndYear) : Int := r.start.time
def endTime (r : DateRangeMonthAndYear) : Int := r.end_.endOfDayTime

end DateRangeMonthAndYear

/-! ## Both -/

/-- February of a year that is divisible by 4 and no leap year. -/
def LongFebruary (year : Nat) (month : Int) : Prop := month = 2 ∧ year % 100 = 0 ∧ year % 400 ≠ 0

theorem numDaysInMonth_eq {year : Nat} {month : Int} (h : ¬ LongFebruary year month) (hfirst : 1 ≤ month)
    (hlast : month ≤ 12) : numDaysInMonth year month = daysIn year month := by
  unfold LongFebruary at h
  unfold numDaysInMonth daysIn leap
  simp only [decide_eq_true_eq]
  split_ifs <;> omega

theorem daysBeforeYear_succ (year : Int) :
    daysBeforeYear (year + 1) = daysBeforeYear year + daysBeforeMonth year 12 := by
  simp only [daysBeforeYear, daysBeforeMonth, daysIn, leap, decide_eq_true_eq]
  simp only [Nat.cast_ofNat, Nat.cast_zero, Nat.cast_one]
  norm_num
  split_ifs <;> omega

theorem timeDate_of_month (year : Int) {month : Nat} (h : month < 12) (day hour nsec : Int) :
    timeDate year (month + 1) day hour nsec = (daysBeforeYear year + daysBeforeMonth year month + (day - 1)) *
      86400000000000 + hour * 3600000000000 + nsec := by
  have hyear : ((month : Int) + 1 - 1) / 12 = 0 := by omega
  have hmonth : (((month : Int) + 1 - 1) % 12).toNat = month := by omega
  simp only [timeDate, hyear, hmonth, Int.add_zero]

theorem timeDate_next (year : Int) {month : Nat} (h : month < 12) :
    timeDate year (month + 1) (daysIn year (month + 1)) 24 0 = timeDate year (month + 1 + 1) 1 0 0 := by
  rw [timeDate_of_month year h]
  rcases Nat.lt_or_eq_of_le h with hlt | hdecember
  · rw [show (month : Int) + 1 = ((month + 1 : Nat) : Int) by simp, timeDate_of_month year hlt, daysBeforeMonth]
    push_cast
    ring
  · obtain rfl : month = 11 := by omega
    have hnext : timeDate year ((11 : Nat) + 1 + 1) 1 0 0 = daysBeforeYear (year + 1) * 86400000000000 := by
      simp [timeDate, daysBeforeMonth]
    have hyear : daysBeforeMonth year 12 = daysBeforeMonth year 11 + daysIn year ((11 : Nat) + 1) := rfl
    rw [hnext, daysBeforeYear_succ, hyear]
    ring

/-- **Dates and the calendar**, apart from the long Februaries: a date is valid exactly when the year has four digits
and the day exists, and the range of a month takes its instants, in January of year 1 without the first one. -/
theorem dates_follow_calendar :
    (∀ d : Date, ¬ LongFebruary d.year d.month →
      (d.isValid = true ↔ 1000 ≤ d.year ∧ d.year ≤ 9999 ∧ d.Exists)) ∧
    ∀ r : DateRangeMonthAndYear, 1 ≤ r.month → r.month ≤ 12 → ¬ LongFebruary r.year r.month →
      ∀ t, r.startTime ≤ t ∧ t < r.endTime ↔ InMonth r.year r.month t ∧ (r.year = 1 ∧ r.month = 1 → t ≠ 0) := by
  constructor
  · intro d h
    simp only [Date.isValid, Date.Exists, decide_eq_true_eq]
    by_cases hmonth : 1 ≤ d.month ∧ d.month ≤ 12
    · rw [numDaysInMonth_eq h hmonth.1 hmonth.2]
    · grind
  · rintro ⟨month, year⟩ hfirst hlast h t
    dsimp only at hfirst hlast h ⊢
    have hend : (DateRangeMonthAndYear.mk month year).endTime = timeDate year (month + 1) 1 0 0 := by
      obtain ⟨m, rfl⟩ : ∃ m : Nat, month = m + 1 := ⟨(month - 1).toNat, by omega⟩
      simp only [DateRangeMonthAndYear.endTime, DateRangeMonthAndYear.end_, Date.endOfDayTime]
      rw [numDaysInMonth_eq h hfirst hlast]
      exact timeDate_next year (by omega)
    have hstart : (DateRangeMonthAndYear.mk month year).startTime =
        timeDate year month 1 0 0 + if year = 1 ∧ month = 1 then 1 else 0 := by
      simp [DateRangeMonthAndYear.startTime, DateRangeMonthAndYear.start, Date.time, timeDate]
    have hzero : year = 1 ∧ month = 1 → timeDate year month 1 0 0 = 0 := by
      rintro ⟨rfl, rfl⟩
      rfl
    simp only [InMonth, hend, hstart]
    grind

/-- The year 999 has days. -/
theorem year_999_not_valid : ¬ ((Date.mk 999 1 1).isValid = true ↔ (Date.mk 999 1 1).Exists) := by
  simp [Date.isValid, Date.Exists, daysIn]

end BitAgent.Model
