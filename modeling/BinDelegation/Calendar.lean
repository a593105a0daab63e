import BinDelegation.Number.Digits

/-! # The proleptic Gregorian calendar

Days are numbered from the first of January of the year 1. The calendar reaches from the year -9999
to the year 9999.
-/

namespace BinDelegation.Calendar

/-- A day of the calendar. -/
structure Date where
  year : Int
  month : Nat
  day : Nat
deriving DecidableEq, Repr

/-- The first year with dates. -/
def minYear : Int := -9999

/-- The last year with dates. -/
def maxYear : Int := 9999

/-- The number of days before a year begins. -/
def daysBeforeYear (year : Int) : Int :=
  let n := year - 1
  365 * n + n / 4 - n / 100 + n / 400

/-- Whether a year has a leap day. -/
def isLeap (year : Int) : Bool := year % 4 == 0 && (year % 100 != 0 || year % 400 == 0)

/-- The lengths of the months of a year. -/
def monthLengths (year : Int) : List Nat :=
  [31, if isLeap year then 29 else 28, 31, 30, 31, 30, 31, 31, 30, 31, 30, 31]

/-- The year that a day falls in: an estimate from the mean length of a year, mended by one. -/
def yearOfDay (day : Int) : Int :=
  let estimate := day * 400 / 146097 + 1
  if day < daysBeforeYear estimate then estimate - 1
  else if daysBeforeYear (estimate + 1) ≤ day then estimate + 1
  else estimate

/-- The month and day of the month at `index` days into months of the given lengths, the first of
which has the number `month`. -/
def monthAndDay (month : Nat) : (lengths : List Nat) → (index : Nat) → Nat × Nat
  | [], index => (month, index + 1)
  | length :: rest, index =>
    if index < length then (month, index + 1)
    else monthAndDay (month + 1) rest (index - length)

/-- The date of a day number. -/
def dateOfDay (day : Int) : Date :=
  let year := yearOfDay day
  let found := monthAndDay 1 (monthLengths year) (day - daysBeforeYear year).toNat
  ⟨year, found.1, found.2⟩

/-- The number of a date. -/
def dayOfDate (date : Date) : Int :=
  let inMonths : Nat := ((monthLengths date.year).take (date.month - 1)).foldr (· + ·) 0
  daysBeforeYear date.year + inMonths + date.day - 1

/-- Whether a date exists. -/
def isDate (date : Date) : Bool :=
  minYear ≤ date.year && date.year ≤ maxYear && 1 ≤ date.month && date.month ≤ 12
    && 1 ≤ date.day && date.day ≤ (monthLengths date.year).getD (date.month - 1) 0

/-- The number of the first day with a date. -/
def firstDay : Int := daysBeforeYear minYear

/-- The number of the first day after the last year. -/
def endDay : Int := daysBeforeYear (maxYear + 1)

/-- A date as text: at least four digits of the year, with a minus sign before the year 0. -/
def Date.text (date : Date) : List Char :=
  (if date.year < 0 then ['-'] else []) ++ Digits.padded 4 date.year.natAbs
    ++ '-' :: Digits.padded 2 date.month ++ '-' :: Digits.padded 2 date.day

end BinDelegation.Calendar
