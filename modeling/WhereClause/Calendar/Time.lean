import WhereClause.Text.Digits

namespace WhereClause

/-!
# Times of day

A time of day to the nanosecond. Second 60 is a leap second and may stand in any minute.

- `TimeOfDay`: hour, minute, second and nanoseconds
- `TimeOfDay.clock`: the text `08:30:00`
- `TimeOfDay.text`: the same with the shortest exact fraction
- `TimeOfDay.milliText`: the same with milliseconds where there is anything below the second
-/

/-- A time of day. -/
structure TimeOfDay where
  hour : Nat
  minute : Nat
  second : Nat
  nano : Nat
  hour_lt : hour < 24
  minute_lt : minute < 60
  second_le : second ≤ 60
  nano_lt : nano < 1000000000
  deriving DecidableEq

namespace TimeOfDay

/-- The time with the given fields, if it exists. -/
def make? (hour minute second nano : Nat) : Option TimeOfDay :=
  if h : hour < 24 ∧ minute < 60 ∧ second ≤ 60 ∧ nano < 1000000000 then
    some ⟨hour, minute, second, nano, h.1, h.2.1, h.2.2.1, h.2.2.2⟩
  else none

/-- Neither a fraction nor a leap second. -/
def isWhole (t : TimeOfDay) : Bool :=
  t.nano = 0 && t.second ≠ 60

/-- Hours, minutes and seconds with colons between. -/
def clock (t : TimeOfDay) : List Char :=
  Text.padded 2 t.hour ++ ':' :: Text.padded 2 t.minute ++ ':' :: Text.padded 2 t.second

/-- The fraction in 0, 3, 6 or 9 digits, as few as are exact. -/
def fraction (t : TimeOfDay) : List Char :=
  if t.nano = 0 then []
  else if t.nano % 1000000 = 0 then '.' :: Text.padded 3 (t.nano / 1000000)
  else if t.nano % 1000 = 0 then '.' :: Text.padded 6 (t.nano / 1000)
  else '.' :: Text.padded 9 t.nano

/-- The clock time with its exact fraction. -/
def text (t : TimeOfDay) : List Char :=
  t.clock ++ t.fraction

/-- The clock time, with the fraction cut to milliseconds unless the time is whole. -/
def milliText (t : TimeOfDay) : List Char :=
  if t.isWhole then t.clock else t.clock ++ '.' :: Text.padded 3 (t.nano / 1000000)

end TimeOfDay

end WhereClause
