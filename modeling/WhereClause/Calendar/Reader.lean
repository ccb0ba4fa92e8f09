import WhereClause.Calendar.Moment

namespace WhereClause

/-!
# Reading dates and times

Fields are read with one or two digits, and white space is allowed before each number, before each
separator and at the end. Years have up to four digits, or a sign and any number of digits. A
fraction of a second is cut after nine digits. Each reader of a part gives its value and the text
after it.

- `TimeOfDay.parse?`: `3:04`, `03:04:05`, `03:04:05.25`
- `DateTime.parse?`: a date, `T`, and a time with seconds
- `OffsetDateTime.parse?`: the same with `T`, `t` or a space, and an offset
-/

namespace Calendar

/-- A number of one to `width` digits. -/
def number (width : Nat) (cs : List Char) : Option (Nat × List Char) :=
  match Text.takeDigits width (Text.dropBlanks cs) with
  | ([], _) => none
  | (ds, rest) => some (Text.ofDigits 10 ds, rest)

/-- A year: four digits at most, or a sign and any number of digits. -/
def year (cs : List Char) : Option (Int × List Char) :=
  match Text.dropBlanks cs with
  | '-' :: r => (signed r).map fun (n, rest) => (-(n : Int), rest)
  | '+' :: r => (signed r).map fun (n, rest) => ((n : Int), rest)
  | r => (number 4 r).map fun (n, rest) => ((n : Int), rest)
where
  /-- The digits after a sign. -/
  signed (cs : List Char) : Option (Nat × List Char) :=
    match Text.spanDigits cs with
    | ([], _) => none
    | (ds, rest) => some (Text.ofDigits 10 ds, rest)

/-- A separator, with white space allowed before it. -/
def separator (c : Char) (cs : List Char) : Option (List Char) :=
  match Text.dropBlanks cs with
  | d :: rest => if d = c then some rest else none
  | [] => none

/-- Year, month and day. -/
def date (cs : List Char) : Option (Date × List Char) := do
  let (y, cs) ← year cs
  let cs ← separator '-' cs
  let (m, cs) ← number 2 cs
  let cs ← separator '-' cs
  let (d, cs) ← number 2 cs
  let date ← Date.make? y m d
  some (date, cs)

/-- Hour and minute. -/
def hourMinute (cs : List Char) : Option ((Nat × Nat) × List Char) := do
  let (h, cs) ← number 2 cs
  let cs ← separator ':' cs
  let (m, cs) ← number 2 cs
  some ((h, m), cs)

/-- Nanoseconds after a point, if there is one. -/
def fraction (cs : List Char) : Option (Nat × List Char) :=
  match cs with
  | '.' :: r =>
    match Text.takeDigits 9 r with
    | ([], _) => none
    | (ds, rest) =>
      -- Digits beyond the ninth are read over.
      some (Text.ofDigits 10 ds * Nat.pow 10 (9 - ds.length), (Text.spanDigits rest).2)
  | r => some (0, r)

/-- A colon, the seconds and their fraction. -/
def seconds (cs : List Char) : Option ((Nat × Nat) × List Char) := do
  let cs ← separator ':' cs
  let (s, cs) ← number 2 cs
  let (n, cs) ← fraction cs
  some ((s, n), cs)

/-- A time of day with seconds. -/
def time (cs : List Char) : Option (TimeOfDay × List Char) := do
  let ((h, m), cs) ← hourMinute cs
  let ((s, n), cs) ← seconds cs
  let t ← TimeOfDay.make? h m s n
  some (t, cs)

/-- Two digits. -/
def twoDigits (cs : List Char) : Option (Nat × List Char) :=
  match Text.takeDigits 2 cs with
  | ([a, b], rest) => some (a * 10 + b, rest)
  | _ => none

/-- An offset in minutes: `Z`, `UTC` in any case, or a sign, two digits of hours and two of minutes,
    with colons and white space between allowed. -/
def offset (cs : List Char) : Option (Int × List Char) :=
  match cs with
  | 'Z' :: r | 'z' :: r => some (0, r)
  | '+' :: r => magnitude r
  | '-' :: r | '−' :: r => (magnitude r).map fun (n, rest) => (-n, rest)
  | a :: b :: c :: r =>
    if [a, b, c].map Char.toUpper = ['U', 'T', 'C'] then some (0, r) else none
  | _ => none
where
  /-- Hours and minutes in minutes. -/
  magnitude (cs : List Char) : Option (Int × List Char) := do
    let (h, cs) ← twoDigits cs
    let (m, cs) ← twoDigits (cs.dropWhile fun c => c = ':' || Text.isBlank c)
    if m < 60 then some (h * 60 + m, cs) else none

/-- The value of a reading that leaves nothing but white space. -/
def complete {α : Type} (r : Option (α × List Char)) : Option α :=
  match r with
  | some (a, rest) => if (Text.dropBlanks rest).isEmpty then some a else none
  | none => none

end Calendar

/-- A time of day, with or without seconds. -/
def TimeOfDay.parse? (text : String) : Option TimeOfDay := do
  let ((h, m), cs) ← Calendar.hourMinute text.toList
  let ((s, n), cs) := (Calendar.seconds cs).getD ((0, 0), cs)
  let t ← TimeOfDay.make? h m s n
  Calendar.complete (some (t, cs))

/-- A date, the letter `T`, and a time. -/
def DateTime.parse? (text : String) : Option DateTime := do
  let (d, cs) ← Calendar.date text.toList
  let cs ← Calendar.separator 'T' cs
  let (t, cs) ← Calendar.time cs
  Calendar.complete (some (⟨d, t⟩, cs))

/-- A date, `T`, `t` or a space, a time, and an offset. -/
def OffsetDateTime.parse? (text : String) : Option OffsetDateTime := do
  let (d, cs) ← Calendar.date text.toList
  let cs ← match cs with
    | 'T' :: r | 't' :: r | ' ' :: r => some r
    | _ => none
  let (t, cs) ← Calendar.time cs
  let (minutes, cs) ← Calendar.offset (Text.dropBlanks cs)
  let m ← OffsetDateTime.make? ⟨d, t⟩ (minutes * 60)
  Calendar.complete (some (m, cs))

end WhereClause
