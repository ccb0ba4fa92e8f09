import WhereClause.Toml.Basic

namespace WhereClause

/-!
# TOML strings, numbers and dates

Readers for the values without parts. Each takes the text where the value begins and gives the text
after it.

- `Toml.readString`: strings in all four quotings
- `Toml.readNumber`: integers, floating-point numbers, dates and times
-/

namespace Toml

/-- White space inside a line. -/
def isSpace (c : Char) : Bool := c = ' ' || c = '\t'

/-- A text without the white space in front of it. -/
def skipSpace (cs : List Char) : List Char := cs.dropWhile isSpace

/-- Characters that may stand in strings and comments: all but control characters, tabs apart. -/
def isPlain (c : Char) : Bool := c = '\t' || (' ' ≤ c && c ≠ '\x7f')

/-- The text after a line break. -/
def newline? : List Char → Option (List Char)
  | '\n' :: cs => some cs
  | '\r' :: '\n' :: cs => some cs
  | _ => none

/-! ### Strings -/

/-- The character with the code that the digits give. -/
def scalar? (digits : List Char) : Option Char := do
  let n := Text.ofDigits 16 (← digits.mapM Text.hexDigit?)
  if n.isValidChar then some (Char.ofNat n) else none

/-- An escape after its backslash. -/
def readEscape : List Char → Option (Char × List Char)
  | 'b' :: cs => some ('\x08', cs)
  | 't' :: cs => some ('\t', cs)
  | 'n' :: cs => some ('\n', cs)
  | 'f' :: cs => some ('\x0c', cs)
  | 'r' :: cs => some ('\r', cs)
  | '"' :: cs => some ('"', cs)
  | '\\' :: cs => some ('\\', cs)
  | 'u' :: cs => if cs.length < 4 then none else (scalar? (cs.take 4)).map fun c => (c, cs.drop 4)
  | 'U' :: cs => if cs.length < 8 then none else (scalar? (cs.take 8)).map fun c => (c, cs.drop 8)
  | _ => none

/-- A string on one line up to its closing quote. -/
def readBasic : (fuel : Nat) → List Char → Option (List Char × List Char)
  | fuel + 1, '\\' :: cs => do
    let (c, rest) ← readEscape cs
    let (body, rest) ← readBasic fuel rest
    some (c :: body, rest)
  | fuel + 1, c :: cs =>
    if c = '"' then some ([], cs)
    else if isPlain c then do
      let (body, rest) ← readBasic fuel cs
      some (c :: body, rest)
    else none
  | _, _ => none

/-- A string on one line without escapes, up to its closing quote. -/
def readLiteral : List Char → Option (List Char × List Char)
  | [] => none
  | c :: cs =>
    if c = '\'' then some ([], cs)
    else if isPlain c then do
      let (body, rest) ← readLiteral cs
      some (c :: body, rest)
    else none

/-- The end of a string over several lines: three quotes, before which one or two more belong to the
    string. -/
def closing? (quote : Char) (cs : List Char) : Option (List Char × List Char) :=
  let quotes := (cs.takeWhile (· = quote)).length
  if quotes < 3 then none
  else
    let taken := Nat.min quotes 5
    some (List.replicate (taken - 3) quote, cs.drop taken)

/-- A text without the white space and the line breaks in front of it. -/
def skipBreaks : List Char → List Char
  | '\n' :: cs => skipBreaks cs
  | '\r' :: '\n' :: cs => skipBreaks cs
  | c :: cs => if isSpace c then skipBreaks cs else c :: cs
  | [] => []

/-- The text after a backslash at the end of a line, and after all white space and line breaks that
    follow. -/
def joined? (cs : List Char) : Option (List Char) :=
  (newline? (skipSpace cs)).map skipBreaks

/-- A string over several lines up to its closing quotes. -/
def readLong (quote : Char) (escapes : Bool) :
    (fuel : Nat) → List Char → Option (List Char × List Char)
  | 0, _ => none
  | fuel + 1, cs =>
    match closing? quote cs, newline? cs, cs with
    | some found, _, _ => some found
    | none, some rest, _ =>
      (readLong quote escapes fuel rest).map fun (body, rest) => ('\n' :: body, rest)
    | none, none, c :: cs =>
      if c = '\\' && escapes then
        match joined? cs with
        | some rest => readLong quote escapes fuel rest
        | none => do
          let (c, rest) ← readEscape cs
          let (body, rest) ← readLong quote escapes fuel rest
          some (c :: body, rest)
      else if isPlain c then
        (readLong quote escapes fuel cs).map fun (body, rest) => (c :: body, rest)
      else none
    | none, none, [] => none

/-- The text after a line break right behind opening quotes, which does not count. -/
def dropNewline (cs : List Char) : List Char := (newline? cs).getD cs

/-- A string in any quoting. -/
def readString (cs : List Char) : Option (List Char × List Char) :=
  match cs with
  | '"' :: '"' :: '"' :: rest => readLong '"' true (cs.length + 1) (dropNewline rest)
  | '"' :: rest => readBasic (cs.length + 1) rest
  | '\'' :: '\'' :: '\'' :: rest => readLong '\'' false (cs.length + 1) (dropNewline rest)
  | '\'' :: rest => readLiteral rest
  | _ => none

/-! ### Numbers -/

/-- Digits of a base, with single low lines between them; absent if there is none. -/
def readDigits (base : Nat) : List Char → Option (List Nat × List Char)
  | [] => none
  | c :: cs =>
    match (Text.hexDigit? c).filter (· < base) with
    | none => none
    | some d =>
      match cs with
      | '_' :: after => (readDigits base after).map fun (ds, rest) => (d :: ds, rest)
      | cs =>
        match readDigits base cs with
        | some (ds, rest) => some (d :: ds, rest)
        | none => some ([d], cs)

/-- An integer that fits into 64 bits. -/
def boundedInteger? (n : Int) : Option Toml :=
  if -0x8000000000000000 ≤ n ∧ n < 0x8000000000000000 then some (integer n) else none

/-- An integer in another base after its mark. -/
def readBased (base : Nat) (cs : List Char) : Option (Toml × List Char) := do
  let (ds, rest) ← readDigits base cs
  let v ← boundedInteger? (Text.ofDigits base ds)
  some (v, rest)

/-- A sign. -/
def readSign : List Char → Bool × List Char
  | '-' :: cs => (true, cs)
  | '+' :: cs => (false, cs)
  | cs => (false, cs)

/-- The digits before the point, without leading zeros. -/
def readWhole (cs : List Char) : Option (List Nat × List Char) :=
  match cs with
  | '0' :: rest => some ([0], rest)
  | cs => readDigits 10 cs

/-- The exponent of a floating-point number, if there is one. -/
def readExponent (cs : List Char) : Option (Option Int × List Char) :=
  match cs with
  | c :: rest =>
    if c = 'e' ∨ c = 'E' then do
      let (negative, rest) := readSign rest
      let (ds, rest) ← readDigits 10 rest
      let n : Int := Text.ofDigits 10 ds
      some (some (if negative then -n else n), rest)
    else some (none, cs)
  | [] => some (none, [])

/-- The words for values that are not finite. -/
def readSpecial (negative : Bool) : List Char → Option (Toml × List Char)
  | 'i' :: 'n' :: 'f' :: cs => some (float (.infinite negative), cs)
  | 'n' :: 'a' :: 'n' :: cs => some (float .nan, cs)
  | _ => none

/-- A floating-point number, unless it is too large. -/
def finite? (negative : Bool) (digits : List Nat) (exponent : Int) : Option Toml :=
  match Floating.ofScientific .double negative (Text.ofDigits 10 digits) exponent with
  | .infinite false => none
  | x => some (float x)

/-- An integer in decimal or a floating-point number. -/
def readDecimal (cs : List Char) : Option (Toml × List Char) :=
  let (negative, unsigned) := readSign cs
  match readSpecial negative unsigned with
  | some found => some found
  | none => do
    let (whole, rest) ← readWhole unsigned
    let (fraction, rest) ← match rest with
      | '.' :: rest => readDigits 10 rest
      | rest => some ([], rest)
    let (exponent, rest) ← readExponent rest
    if fraction.isEmpty && exponent.isNone then
      let n : Int := Text.ofDigits 10 whole
      let v ← boundedInteger? (if negative then -n else n)
      some (v, rest)
    else
      let v ← finite? negative (whole ++ fraction) (exponent.getD 0 - fraction.length)
      some (v, rest)

/-! ### Dates and times -/

/-- A number of exactly so many digits. -/
def readFixed (width : Nat) (cs : List Char) : Option (Nat × List Char) :=
  let (ds, rest) := Text.takeDigits width cs
  if ds.length = width then some (Text.ofDigits 10 ds, rest) else none

/-- Days of a month. -/
def daysIn (year month : Nat) : Nat :=
  if month = 2 then
    if year % 4 = 0 ∧ (year % 100 ≠ 0 ∨ year % 400 = 0) then 29 else 28
  else if month = 4 ∨ month = 6 ∨ month = 9 ∨ month = 11 then 30
  else 31

/-- The text after a date. -/
def afterDate? (cs : List Char) : Option (List Char) :=
  match readFixed 4 cs with
  | some (year, '-' :: rest) =>
    match readFixed 2 rest with
    | some (month, '-' :: rest) =>
      match readFixed 2 rest with
      | some (day, rest) =>
        if 1 ≤ month ∧ month ≤ 12 ∧ 1 ≤ day ∧ day ≤ daysIn year month then some rest else none
      | none => none
    | _ => none
  | _ => none

/-- The text after an hour and a minute. -/
def afterMinute? (cs : List Char) : Option (List Char) :=
  match readFixed 2 cs with
  | some (hour, ':' :: rest) =>
    match readFixed 2 rest with
    | some (minute, rest) => if hour ≤ 23 ∧ minute ≤ 59 then some rest else none
    | none => none
  | _ => none

/-- The text after a time of day. -/
def afterTime? (cs : List Char) : Option (List Char) :=
  match afterMinute? cs with
  | some (':' :: rest) =>
    match readFixed 2 rest with
    | some (second, rest) =>
      if 60 < second then none
      else match rest with
        | '.' :: fraction =>
          match Text.spanDigits fraction with
          | ([], _) => none
          | (_, rest) => some rest
        | rest => some rest
    | none => none
  | _ => none

/-- The text after an offset, if there is one. -/
def afterOffset (cs : List Char) : List Char :=
  match cs with
  | 'Z' :: rest => rest
  | 'z' :: rest => rest
  | '+' :: rest => (afterMinute? rest).getD cs
  | '-' :: rest => (afterMinute? rest).getD cs
  | _ => cs

/-- The text after a date, a time, or both with an offset. -/
def afterMoment? (cs : List Char) : Option (List Char) :=
  match afterDate? cs with
  | none => afterTime? cs
  | some rest =>
    match rest with
    | c :: after =>
      if c = 'T' ∨ c = 't' ∨ c = ' ' then
        match afterTime? after with
        | some rest => some (afterOffset rest)
        | none => some rest
      else some rest
    | [] => some []

/-- A number, a date or a time. -/
def readNumber (cs : List Char) : Option (Toml × List Char) :=
  match afterMoment? cs with
  | some rest => some (moment, rest)
  | none =>
    match cs with
    | '0' :: 'x' :: rest => readBased 16 rest
    | '0' :: 'o' :: rest => readBased 8 rest
    | '0' :: 'b' :: rest => readBased 2 rest
    | cs => readDecimal cs

end Toml

end WhereClause
