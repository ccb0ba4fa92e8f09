import WhereClause.Calendar.Date
import WhereClause.Calendar.Time

namespace WhereClause

/-!
# Dates with a time

A date and time of day, alone or with an offset from universal time in seconds. Most texts give the
offset in whole minutes only, and round it.

- `DateTime`: a date and a time of day
- `DateTime.addSeconds?`: a shift by less than a day
- `OffsetDateTime`: a local date and time with its offset, inside the range also in universal time
- `OffsetDateTime.utc`: the same moment in universal time
-/

/-- A date and a time of day. -/
structure DateTime where
  date : Date
  time : TimeOfDay
  deriving DecidableEq

namespace DateTime

/-- The moment some seconds later, or earlier if negative, by less than a day. A leap second stays
    one, so that it can be shifted by whole minutes only. -/
def addSeconds? (dt : DateTime) (seconds : Int) : Option DateTime :=
  let t := dt.time
  -- A leap second is counted with the second before it.
  let leap := t.second / 60
  let total : Int := (t.hour * 60 + t.minute) * 60 + (t.second - leap : Nat) + seconds
  let day? :=
    if total < 0 then dt.date.prev?
    else if total < 86400 then some dt.date
    else dt.date.next?
  let within := (total % 86400).toNat
  if leap = 1 ∧ within % 60 ≠ 59 then none
  else
    match day?,
      TimeOfDay.make? (within / 3600) (within / 60 % 60) (within % 60 + leap) t.nano with
    | some day, some time => some ⟨day, time⟩
    | _, _ => none

/-- Date and time with the given text between. -/
def joined (separator : List Char) (dt : DateTime) : List Char :=
  dt.date.text ++ separator ++ dt.time.text

/-- Date and time with a space between and the exact fraction. -/
def text (dt : DateTime) : List Char :=
  joined [' '] dt

/-- Date and time with a space between, without any fraction. -/
def clockText (dt : DateTime) : List Char :=
  dt.date.text ++ ' ' :: dt.time.clock

/-- Date and time with a space between, with milliseconds where there is anything below the
    second. -/
def milliText (dt : DateTime) : List Char :=
  dt.date.text ++ ' ' :: dt.time.milliText

end DateTime

/-- A local date and time with its offset from universal time, in seconds. -/
structure OffsetDateTime where
  localTime : DateTime
  offset : Int
  offset_lt : offset.natAbs < 86400
  utc_isSome : (localTime.addSeconds? (-offset)).isSome
  deriving DecidableEq

namespace OffsetDateTime

/-- A local time with an offset, if the offset is less than a day and universal time is in range. -/
def make? (localTime : DateTime) (offset : Int) : Option OffsetDateTime :=
  if h : offset.natAbs < 86400 ∧ (localTime.addSeconds? (-offset)).isSome then
    some ⟨localTime, offset, h.1, h.2⟩
  else none

/-- The moment in universal time. -/
def utc (m : OffsetDateTime) : DateTime :=
  (m.localTime.addSeconds? (-m.offset)).get m.utc_isSome

/-- The sign of the offset. -/
def sign (m : OffsetDateTime) : Char := if m.offset < 0 then '-' else '+'

/-- The size of the offset in minutes, rounded to the nearest; half a minute goes up. -/
def roundedMinutes (m : OffsetDateTime) : Nat := (m.offset.natAbs + 30) / 60

/-- The offset as a sign, hours and minutes, rounded. -/
def offsetText (m : OffsetDateTime) : List Char :=
  m.sign :: Text.padded 2 (m.roundedMinutes / 60) ++ ':' :: Text.padded 2 (m.roundedMinutes % 60)

/-- The offset as a sign, hours and minutes, and seconds if there are any. -/
def exactOffsetText (m : OffsetDateTime) : List Char :=
  let size := m.offset.natAbs
  m.sign :: Text.padded 2 (size / 3600) ++ ':' :: Text.padded 2 (size / 60 % 60) ++
    (if size % 60 = 0 then [] else ':' :: Text.padded 2 (size % 60))

/-- Local time and exact offset with a space between. -/
def text (m : OffsetDateTime) : List Char :=
  m.localTime.text ++ ' ' :: m.exactOffsetText

/-- The internet form `2015-01-02T03:04:05+08:00`. -/
def internetText (m : OffsetDateTime) : List Char :=
  m.localTime.joined ['T'] ++ m.offsetText

/-- The internet form with `Z` for universal time. -/
def zuluText (m : OffsetDateTime) : List Char :=
  m.localTime.joined ['T'] ++ (if m.offset = 0 then ['Z'] else m.offsetText)

end OffsetDateTime

end WhereClause
