/-!
# LintPatrol.Time.Calendar

Days of the Gregorian calendar, counted from 1 January 1970.  A year is
taken to begin in March, so that the leap day is its last one; then the days
before a month are `(153 m + 2) / 5`, and the days before a year of an era of
400 years are `365 y + y / 4 - y / 100`.
-/

namespace LintPatrol.Time

/-- A day of the calendar. -/
structure Date where
  year : Int
  month : Nat
  day : Nat
deriving Repr, DecidableEq

namespace Date

def isLeap (year : Int) : Bool := year % 4 = 0 ∧ (year % 100 ≠ 0 ∨ year % 400 = 0)

/-- The days of a month. -/
def monthLength (year : Int) (month : Nat) : Nat :=
  if month = 2 then (if isLeap year then 29 else 28)
  else if month = 4 ∨ month = 6 ∨ month = 9 ∨ month = 11 then 30
  else 31

def isValid (d : Date) : Bool :=
  1 ≤ d.month ∧ d.month ≤ 12 ∧ 1 ≤ d.day ∧ d.day ≤ monthLength d.year d.month

/-- Days between 1 March of year 0 and 1 January 1970. -/
def epochOffset : Int := 719468

/-- Days in an era of 400 years. -/
def eraLength : Int := 146097

/-- The number of the day, 1 January 1970 being number 0. -/
def toDays (d : Date) : Int :=
  let y : Int := if d.month ≤ 2 then d.year - 1 else d.year
  let era : Int := y / 400
  let yearOfEra : Int := y % 400
  let monthFromMarch : Int := if d.month ≤ 2 then d.month + 9 else d.month - 3
  let dayOfYear : Int := (153 * monthFromMarch + 2) / 5 + d.day - 1
  era * eraLength + (yearOfEra * 365 + yearOfEra / 4 - yearOfEra / 100) + dayOfYear - epochOffset

/-- The day of that number. -/
def ofDays (n : Int) : Date :=
  let z : Int := n + epochOffset
  let era : Int := z / eraLength
  let dayOfEra : Int := z % eraLength
  let yearOfEra : Int :=
    (dayOfEra - dayOfEra / 1460 + dayOfEra / 36524 - dayOfEra / 146096) / 365
  let dayOfYear : Int := dayOfEra - (365 * yearOfEra + yearOfEra / 4 - yearOfEra / 100)
  let monthFromMarch : Int := (5 * dayOfYear + 2) / 153
  let day : Int := dayOfYear - (153 * monthFromMarch + 2) / 5 + 1
  let month : Int := if monthFromMarch < 10 then monthFromMarch + 3 else monthFromMarch - 9
  ⟨yearOfEra + era * 400 + (if month ≤ 2 then 1 else 0), month.toNat, day.toNat⟩

end Date

end LintPatrol.Time
