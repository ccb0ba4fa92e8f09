import WhereClause.Text.Digits

namespace WhereClause

/-!
# Calendar dates

Dates of the proleptic Gregorian calendar with a bounded range of years. Only the neighbouring days
are ever needed, because a shift between a local time and universal time is shorter than a day.

- `Date`: year, month and day, which together exist
- `Date.next?`, `Date.prev?`: the neighbouring days, inside the range
- `Date.dayNumber`: the date as a count of days
- `Date.text`: the text `2015-03-09`
-/

namespace Date

/-- First year of the range. -/
def minYear : Int := -262143

/-- Last year of the range. -/
def maxYear : Int := 262142

/-- Every fourth year, but of the centuries only every fourth. -/
def isLeap (year : Int) : Bool :=
  year % 4 = 0 && (year % 100 ≠ 0 || year % 400 = 0)

/-- Number of days of a month; none for a number that is no month. -/
def daysInMonth (year : Int) (month : Nat) : Nat :=
  match month with
  | 1 | 3 | 5 | 7 | 8 | 10 | 12 => 31
  | 4 | 6 | 9 | 11 => 30
  | 2 => if isLeap year then 29 else 28
  | _ => 0

/-- The day exists and its year is in the range. -/
def Valid (year : Int) (month day : Nat) : Prop :=
  minYear ≤ year ∧ year ≤ maxYear ∧ 1 ≤ month ∧ month ≤ 12 ∧ 1 ≤ day ∧ day ≤ daysInMonth year month

instance (year : Int) (month day : Nat) : Decidable (Valid year month day) := by
  unfold Valid; infer_instance

end Date

/-- A day of the calendar. -/
structure Date where
  year : Int
  month : Nat
  day : Nat
  valid : Date.Valid year month day
  deriving DecidableEq

namespace Date

/-- The date with the given fields, if it exists. -/
def make? (year : Int) (month day : Nat) : Option Date :=
  if h : Valid year month day then some ⟨year, month, day, h⟩ else none

/-- The day after. -/
def next? (d : Date) : Option Date :=
  if d.day < daysInMonth d.year d.month then make? d.year d.month (d.day + 1)
  else if d.month < 12 then make? d.year (d.month + 1) 1
  else make? (d.year + 1) 1 1

/-- The day before. -/
def prev? (d : Date) : Option Date :=
  if 1 < d.day then make? d.year d.month (d.day - 1)
  else if 1 < d.month then make? d.year (d.month - 1) (daysInMonth d.year (d.month - 1))
  else make? (d.year - 1) 12 31

/-- Days from the start of year zero to the start of a year. -/
def daysBeforeYear (year : Int) : Int :=
  let y := year - 1
  365 * year + y / 4 - y / 100 + y / 400 + 1

/-- Days from the start of a year to the start of a month. -/
def daysBeforeMonth (year : Int) (month : Nat) : Nat :=
  ((List.range month).drop 1).foldl (fun n m => n + daysInMonth year m) 0

/-- Days from the first day of year zero. -/
def dayNumber (d : Date) : Int :=
  daysBeforeYear d.year + daysBeforeMonth d.year d.month + (d.day - 1)

/-- A year with at least four digits, and with a sign outside of 0 to 9999. -/
def yearText (year : Int) : List Char :=
  let sign := if year < 0 then ['-'] else if 9999 < year then ['+'] else []
  sign ++ Text.padded 4 year.natAbs

/-- Year, month and day with hyphens between. -/
def text (d : Date) : List Char :=
  yearText d.year ++ '-' :: Text.padded 2 d.month ++ '-' :: Text.padded 2 d.day

end Date

end WhereClause
