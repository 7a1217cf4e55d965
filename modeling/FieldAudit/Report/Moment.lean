import FieldAudit.Sums

/-!
Moments. A moment is a date and a time of day, to the microsecond, at an offset from universal time,
which may be any number of microseconds; without an offset it is universal time. `stamp?` writes the
moment in universal time, cut to milliseconds, if its universal year is one of 1 to 9999.

A moment is the `generated_at` of `build_report`, and `stamp?` is `_iso_timestamp`.
-/

set_option autoImplicit false

namespace FieldAudit

/-- How far a clock is ahead of universal time. A clock that names no offset shows universal
time. -/
inductive Offset
  | unnamed
  | ahead (microseconds : Int)
  deriving DecidableEq, Repr, Inhabited

namespace Offset

/-- The offset in microseconds. -/
def microseconds : Offset → Int
  | .unnamed => 0
  | .ahead microseconds => microseconds

/-- A whole number is an offset in minutes. -/
instance : Coe Int Offset := ⟨fun minutes => .ahead (minutes * 60000000)⟩

instance (minutes : Nat) : OfNat Offset minutes := ⟨(minutes : Int)⟩

end Offset

/-- A date of the Gregorian calendar and a time of day, with the offset from universal time. -/
structure Moment where
  year : Nat
  month : Nat
  day : Nat
  hour : Nat
  minute : Nat
  second : Nat
  microsecond : Nat
  offset : Offset
  deriving DecidableEq, Repr, Inhabited

namespace Moment

/-- Whether a year has a 29th of February. -/
def isLeap (year : Nat) : Bool := year % 4 = 0 && (year % 100 != 0 || year % 400 = 0)

/-- How many days a month has. -/
def daysInMonth (year month : Nat) : Nat :=
  if month = 2 then if isLeap year then 29 else 28
  else if month = 4 ∨ month = 6 ∨ month = 9 ∨ month = 11 then 30
  else 31

/-- How many days lie before a year, counted from the first of January of year 1. -/
def daysBeforeYear (year : Nat) : Nat :=
  let past := year - 1
  past * 365 + past / 4 - past / 100 + past / 400

/-- How many days of a year lie before a month. -/
def daysBeforeMonth (year month : Nat) : Nat :=
  sumOf ((List.range (month - 1)).map fun m => daysInMonth year (m + 1))

/-- The days from the first of January of year 1 to a date. -/
def dayNumber (year month day : Nat) : Nat :=
  daysBeforeYear year + daysBeforeMonth year month + (day - 1)

/-- How many days lie before the first of January of year 10000. -/
def dayLimit : Nat := daysBeforeYear 10000

/-- The year of a day, from an estimate that is at most one too high. -/
def yearOfDay (days : Nat) : Nat :=
  let estimate := days * 400 / 146097 + 1
  if days < daysBeforeYear estimate then estimate - 1
  else if daysBeforeYear (estimate + 1) ≤ days then estimate + 1
  else estimate

/-- The month and the day of the month for a day of a year, going on from a month. -/
def monthOfDay (year : Nat) : Nat → Nat → Nat → Nat × Nat
  | 0, month, days => (month, days + 1)
  | months + 1, month, days =>
    let length := daysInMonth year month
    if days < length then (month, days + 1) else monthOfDay year months (month + 1) (days - length)

/-- The year, the month and the day of the month of a day. -/
def dateOfDay (days : Nat) : Nat × Nat × Nat :=
  let year := yearOfDay days
  let (month, day) := monthOfDay year 11 1 (days - daysBeforeYear year)
  (year, month, day)

/-- The day number of the first of January 1970. -/
def epochDay : Nat := dayNumber 1970 1 1

/-- The moment of universal time a number of seconds and microseconds after the start of year 1. -/
def ofSeconds (seconds microseconds : Nat) : Moment :=
  let (year, month, day) := dateOfDay (seconds / 86400)
  let rest := seconds % 86400
  { year := year
    month := month
    day := day
    hour := rest / 3600
    minute := rest % 3600 / 60
    second := rest % 60
    microsecond := microseconds
    offset := 0 }

/-- The moment of universal time a number of seconds and microseconds after the start of 1970. -/
def ofEpoch (seconds microseconds : Nat) : Moment :=
  ofSeconds (epochDay * 86400 + seconds) microseconds

/-- The microseconds of universal time from the start of year 1. -/
def universalMicroseconds (m : Moment) : Int :=
  (((dayNumber m.year m.month m.day * 24 + m.hour) * 60 + m.minute) * 60 + m.second : Nat) * 1000000
    + m.microsecond - m.offset.microseconds

/-- A number with at least `width` digits. -/
def padded (width n : Nat) : List Char :=
  let digits := Nat.toDigits 10 n
  List.replicate (width - digits.length) '0' ++ digits

/-- The text of the date and time that a moment shows, cut to milliseconds. -/
def stampText (m : Moment) : List Char :=
  padded 4 m.year ++ '-' :: (padded 2 m.month ++ '-' :: (padded 2 m.day ++ 'T' ::
    (padded 2 m.hour ++ ':' :: (padded 2 m.minute ++ ':' :: (padded 2 m.second ++ '.' ::
      (padded 3 (m.microsecond / 1000) ++ ['Z']))))))

/-- The stamp of a moment, or none if its universal year is not one of 1 to 9999. -/
def stamp? (m : Moment) : Option String :=
  let instant := m.universalMicroseconds
  if instant < 0 ∨ (dayLimit * 86400000000 : Nat) ≤ instant then none
  else
    some (String.ofList (stampText
      (ofSeconds (instant.toNat / 1000000) (instant.toNat % 1000000))))

end Moment

end FieldAudit
