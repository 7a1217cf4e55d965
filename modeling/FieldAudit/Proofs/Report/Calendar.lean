import FieldAudit.Report.Moment
import Mathlib.Algebra.Order.Group.Nat
import Mathlib.Data.Nat.Init
import Mathlib.Tactic.Common

/-!
The calendar. Dates follow one another as `nextDate` says, which counts no days: the day after the
last one of a month is the first one of the next month, and after December comes January of the next
year. `dateAfter` goes that way from the first of January of year 1. The formulas that the stamp of
a moment is computed with agree with it: the number of a day is how many days it lies behind that
date (`dateAfter_dayNumber`), and the date of a number is found back from it (`dateOfDay_spec`).
Later dates have greater numbers (`dayNumber_lt_iff`).
-/

set_option autoImplicit false

namespace FieldAudit.Moment

/-! ## 1. Dates -/

/-- A date of the calendar. -/
structure IsDate (year month day : Nat) : Prop where
  inYears : 1 ≤ year
  inYear : 1 ≤ month ∧ month ≤ 12
  inMonth : 1 ≤ day ∧ day ≤ daysInMonth year month

/-- The date of the day after. -/
def nextDate : Nat × Nat × Nat → Nat × Nat × Nat
  | (year, month, day) =>
    if day < daysInMonth year month then (year, month, day + 1)
    else if month < 12 then (year, month + 1, 1)
    else (year + 1, 1, 1)

/-- The date so many days after the first of January of year 1. -/
def dateAfter : Nat → Nat × Nat × Nat
  | 0 => (1, 1, 1)
  | days + 1 => nextDate (dateAfter days)

/-- How many days a year has. -/
def daysInYear (year : Nat) : Nat := if isLeap year then 366 else 365

theorem one_le_daysInMonth (year month : Nat) : 1 ≤ daysInMonth year month := by
  unfold daysInMonth
  split_ifs <;> omega

/-! ## 2. Days before a month and before a year -/

theorem daysBeforeMonth_succ (year : Nat) {month : Nat} (h : 1 ≤ month) :
    daysBeforeMonth year (month + 1) = daysBeforeMonth year month + daysInMonth year month := by
  obtain ⟨before, rfl⟩ := Nat.exists_eq_add_of_le' h
  unfold daysBeforeMonth
  rw [Nat.add_sub_cancel, Nat.add_sub_cancel, List.range_succ, List.map_append, sumOf_append]
  simp only [List.map_cons, List.map_nil, sumOf, Nat.add_zero]

/-- The days before a month and those of the month lie before every later one. -/
theorem daysBeforeMonth_add_le (year : Nat) {month later : Nat} (h : 1 ≤ month)
    (hlater : month < later) :
    daysBeforeMonth year month + daysInMonth year month ≤ daysBeforeMonth year later := by
  induction later, hlater using Nat.le_induction with
  | base => exact Nat.le_of_eq (daysBeforeMonth_succ year h).symm
  | succ later hlater ih =>
    have hstep : daysBeforeMonth year (later + 1)
        = daysBeforeMonth year later + daysInMonth year later :=
      daysBeforeMonth_succ year (by omega)
    omega

/-- The months make up the year. -/
theorem daysBeforeMonth_thirteen (year : Nat) : daysBeforeMonth year 13 = daysInYear year := by
  unfold daysBeforeMonth daysInYear
  cases hleap : isLeap year <;> simp [List.range_succ, daysInMonth, hleap, sumOf]

theorem isLeap_eq_true_iff (year : Nat) :
    isLeap year = true ↔ year % 4 = 0 ∧ (year % 100 ≠ 0 ∨ year % 400 = 0) := by
  unfold isLeap
  simp

/-- How many multiples of a number there are up to a year, told by those up to the year before. -/
theorem div_eq_add_ite {year : Nat} (h : 1 ≤ year) (k : Nat) :
    year / k = (year - 1) / k + if year % k = 0 then 1 else 0 := by
  obtain ⟨before, rfl⟩ := Nat.exists_eq_add_of_le' h
  rw [Nat.add_sub_cancel, Nat.succ_div]
  simp only [Nat.dvd_iff_mod_eq_zero]

theorem daysBeforeYear_succ {year : Nat} (h : 1 ≤ year) :
    daysBeforeYear (year + 1) = daysBeforeYear year + daysInYear year := by
  -- the year counts once more among the multiples of 4, 100 and 400 that it is one of
  have hless : (year - 1) / 100 ≤ (year - 1) / 4 := by omega
  have hmultiple : (year % 100 = 0 → year % 4 = 0) ∧ (year % 400 = 0 → year % 100 = 0) := by omega
  unfold daysBeforeYear daysInYear
  dsimp only
  rw [Nat.add_sub_cancel, div_eq_add_ite h 4, div_eq_add_ite h 100, div_eq_add_ite h 400]
  simp only [isLeap_eq_true_iff]
  generalize (year - 1) / 4 = fours at hless ⊢
  generalize (year - 1) / 100 = hundreds at hless ⊢
  split_ifs <;> omega

/-- The days before a year and those of the year lie before every later one. -/
theorem daysBeforeYear_add_le {year later : Nat} (h : 1 ≤ year) (hlater : year < later) :
    daysBeforeYear year + daysInYear year ≤ daysBeforeYear later := by
  induction later, hlater using Nat.le_induction with
  | base => exact Nat.le_of_eq (daysBeforeYear_succ h).symm
  | succ later hlater ih =>
    have hstep : daysBeforeYear (later + 1) = daysBeforeYear later + daysInYear later :=
      daysBeforeYear_succ (by omega)
    omega

theorem daysBeforeYear_le {year later : Nat} (h : 1 ≤ year) (hlater : year ≤ later) :
    daysBeforeYear year ≤ daysBeforeYear later := by
  rcases Nat.lt_or_eq_of_le hlater with hless | rfl
  · exact Nat.le_of_add_right_le (daysBeforeYear_add_le h hless)
  · exact Nat.le_refl _

/-! ## 3. The order of dates -/

/-- One date is before another one: by the year, in one year by the month, and in one month by the
day. -/
def DateBefore (year month day year' month' day' : Nat) : Prop :=
  year < year' ∨ year = year' ∧ (month < month' ∨ month = month' ∧ day < day')

variable {year month day year' month' day' : Nat}

/-- A day of a year lies within the year. -/
theorem IsDate.lt_daysInYear (h : IsDate year month day) :
    daysBeforeMonth year month + (day - 1) < daysInYear year := by
  have hmonth := h.inYear
  have hday := h.inMonth
  have hend := daysBeforeMonth_add_le year hmonth.1 (Nat.lt_succ_of_le hmonth.2)
  rw [daysBeforeMonth_thirteen] at hend
  omega

/-- The dates up to the year 9999 are those before the first of January of year 10000. -/
theorem dayNumber_lt_dayLimit_iff (h : IsDate year month day) :
    dayNumber year month day < dayLimit ↔ year ≤ 9999 := by
  unfold dayNumber dayLimit
  constructor
  · intro hless
    by_contra hlate
    have hyears : daysBeforeYear 10000 ≤ daysBeforeYear year :=
      daysBeforeYear_le (by omega) (Nat.lt_of_not_le hlate)
    omega
  · intro hyear
    have hwithin := h.lt_daysInYear
    have hyears : daysBeforeYear year + daysInYear year ≤ daysBeforeYear 10000 :=
      daysBeforeYear_add_le h.inYears (Nat.lt_succ_of_le hyear)
    omega

theorem dayNumber_lt_of_dateBefore (h : IsDate year month day) (h' : IsDate year' month' day')
    (hbefore : DateBefore year month day year' month' day') :
    dayNumber year month day < dayNumber year' month' day' := by
  unfold dayNumber
  rcases hbefore with hyear | ⟨rfl, hmonth | ⟨rfl, hday⟩⟩
  · have hwithin := h.lt_daysInYear
    have hyears := daysBeforeYear_add_le h.inYears hyear
    omega
  · have hday := h.inMonth
    have hmonths := daysBeforeMonth_add_le year h.inYear.1 hmonth
    omega
  · have hone := h.inMonth.1
    omega

/-- **Later dates have greater numbers.** -/
theorem dayNumber_lt_iff (h : IsDate year month day) (h' : IsDate year' month' day') :
    dayNumber year month day < dayNumber year' month' day'
      ↔ DateBefore year month day year' month' day' := by
  constructor
  · intro hless
    by_contra hnot
    -- then it is the same date, or a later one
    have hback : year = year' ∧ month = month' ∧ day = day'
        ∨ DateBefore year' month' day' year month day := by
      unfold DateBefore at hnot ⊢
      omega
    rcases hback with ⟨rfl, rfl, rfl⟩ | hback
    · exact absurd hless (Nat.lt_irrefl _)
    · exact absurd hless (Nat.lt_asymm (dayNumber_lt_of_dateBefore h' h hback))
  · exact dayNumber_lt_of_dateBefore h h'

/-- Dates with the same number are the same. -/
theorem dayNumber_eq_iff (h : IsDate year month day) (h' : IsDate year' month' day') :
    dayNumber year month day = dayNumber year' month' day'
      ↔ year = year' ∧ month = month' ∧ day = day' := by
  have hless := dayNumber_lt_iff h h'
  have hmore := dayNumber_lt_iff h' h
  unfold DateBefore at hless hmore
  omega

/-! ## 4. One day after the other -/

/-- The day after a date is a date again, with the next number. -/
theorem nextDate_spec (h : IsDate year month day) :
    ∃ year' month' day', nextDate (year, month, day) = (year', month', day')
      ∧ IsDate year' month' day'
      ∧ dayNumber year' month' day' = dayNumber year month day + 1 := by
  have hday := h.inMonth
  have hmonth := h.inYear
  by_cases hwithin : day < daysInMonth year month
  · rw [nextDate, if_pos hwithin]
    refine ⟨year, month, day + 1, rfl, ⟨h.inYears, hmonth, by omega, by omega⟩, ?_⟩
    unfold dayNumber
    omega
  · rw [nextDate, if_neg hwithin]
    by_cases hdecember : month < 12
    · rw [if_pos hdecember]
      refine ⟨year, month + 1, 1, rfl,
        ⟨h.inYears, ⟨by omega, by omega⟩, Nat.le_refl 1, one_le_daysInMonth year _⟩, ?_⟩
      unfold dayNumber
      rw [daysBeforeMonth_succ year hmonth.1]
      omega
    · rw [if_neg hdecember]
      refine ⟨year + 1, 1, 1, rfl,
        ⟨by omega, ⟨Nat.le_refl 1, by omega⟩, Nat.le_refl 1, one_le_daysInMonth _ 1⟩, ?_⟩
      have htwelve : month = 12 := by omega
      have hend : daysBeforeMonth year 13 = daysBeforeMonth year 12 + daysInMonth year 12 :=
        daysBeforeMonth_succ year (by omega)
      have hfirst : daysBeforeMonth (year + 1) 1 = 0 := rfl
      rw [daysBeforeMonth_thirteen] at hend
      unfold dayNumber
      rw [daysBeforeYear_succ h.inYears, hfirst, htwelve]
      rw [htwelve] at hwithin hday
      omega

/-- The date so many days after the first one has that number. -/
theorem dateAfter_spec (days : Nat) :
    ∃ year month day, dateAfter days = (year, month, day) ∧ IsDate year month day
      ∧ dayNumber year month day = days := by
  induction days with
  | zero =>
    have hfirst : IsDate 1 1 1 :=
      ⟨Nat.le_refl 1, ⟨Nat.le_refl 1, by omega⟩, Nat.le_refl 1, one_le_daysInMonth 1 1⟩
    exact ⟨1, 1, 1, rfl, hfirst, by decide⟩
  | succ days ih =>
    obtain ⟨year, month, day, hdate, hvalid, hnumber⟩ := ih
    obtain ⟨year', month', day', hnext, hvalid', hnumber'⟩ := nextDate_spec hvalid
    refine ⟨year', month', day', ?_, hvalid', by omega⟩
    rw [dateAfter, hdate, hnext]

/-- **The number of a day is how many days it lies behind the first one.** -/
theorem dateAfter_dayNumber (h : IsDate year month day) :
    dateAfter (dayNumber year month day) = (year, month, day) := by
  obtain ⟨year', month', day', hdate, hvalid, hnumber⟩ := dateAfter_spec (dayNumber year month day)
  obtain ⟨rfl, rfl, rfl⟩ := (dayNumber_eq_iff hvalid h).1 hnumber
  exact hdate

theorem dateAfter_eq_iff (h : IsDate year month day) (days : Nat) :
    dateAfter days = (year, month, day) ↔ days = dayNumber year month day := by
  constructor
  · intro hdate
    obtain ⟨year', month', day', hdate', -, hnumber⟩ := dateAfter_spec days
    rw [hdate] at hdate'
    obtain ⟨rfl, rfl, rfl⟩ := by simpa using hdate'
    exact hnumber.symm
  · intro hdays
    rw [hdays]
    exact dateAfter_dayNumber h

/-! ## 5. The date of a number -/

/-- The estimate of a year is wrong by one at most. -/
theorem yearOfDay_spec (days : Nat) :
    1 ≤ yearOfDay days ∧ daysBeforeYear (yearOfDay days) ≤ days
      ∧ days < daysBeforeYear (yearOfDay days + 1) := by
  unfold yearOfDay daysBeforeYear
  dsimp only
  split_ifs with hhigh hlow <;> omega

/-- Going on from a month of a year, so many days behind its first one. -/
theorem monthOfDay_spec {year : Nat} (hyear : 1 ≤ year) {months month days : Nat}
    (hmonth : 1 ≤ month) (hmonths : month + months = 12)
    (hdays : daysBeforeMonth year month + days < daysInYear year) :
    ∃ month' day', monthOfDay year months month days = (month', day') ∧ IsDate year month' day'
      ∧ daysBeforeMonth year month' + (day' - 1) = daysBeforeMonth year month + days := by
  have hsucc := daysBeforeMonth_succ year hmonth
  induction months generalizing month days with
  | zero =>
    obtain rfl : month = 12 := by omega
    rw [← daysBeforeMonth_thirteen, hsucc] at hdays
    refine ⟨12, days + 1, rfl, ⟨hyear, ⟨by omega, by omega⟩, by omega, by omega⟩, by omega⟩
  | succ months ih =>
    rw [monthOfDay]
    by_cases hwithin : days < daysInMonth year month
    · rw [if_pos hwithin]
      exact ⟨month, days + 1, rfl, ⟨hyear, ⟨hmonth, by omega⟩, by omega, by omega⟩, by omega⟩
    · rw [if_neg hwithin]
      obtain ⟨month', day', hfound, hdate, hcount⟩ :=
        @ih (month + 1) (days - daysInMonth year month)
        (by omega) (by omega) (by omega) (daysBeforeMonth_succ year (by omega))
      exact ⟨month', day', hfound, hdate, by omega⟩

/-- **The date of a number is found back from it.** -/
theorem dateOfDay_spec (days : Nat) :
    ∃ year month day, dateOfDay days = (year, month, day) ∧ IsDate year month day
      ∧ dayNumber year month day = days := by
  obtain ⟨hone, hstart, hend⟩ := yearOfDay_spec days
  rw [daysBeforeYear_succ hone] at hend
  have hfirst : daysBeforeMonth (yearOfDay days) 1 = 0 := rfl
  have hyear : daysBeforeMonth (yearOfDay days) 1 + (days - daysBeforeYear (yearOfDay days))
      < daysInYear (yearOfDay days) := by omega
  obtain ⟨month, day, hmonth, hdate, hcount⟩ :=
    @monthOfDay_spec _ hone 11 _ _ (Nat.le_refl 1) rfl hyear
  refine ⟨yearOfDay days, month, day, ?_, hdate, ?_⟩
  · rw [dateOfDay, hmonth]
  · unfold dayNumber
    omega

end FieldAudit.Moment
