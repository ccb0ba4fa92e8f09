import WhereClause.Json.Basic

namespace WhereClause

/-!
# Reading JSON

The strict grammar: no trailing commas, comments or leading zeros, and no control characters in
strings.

- `Json.parse?`: the document that a text holds
-/

namespace Json

/-- White space between tokens. -/
def isSpace (c : Char) : Bool :=
  c = ' ' || c = '\t' || c = '\n' || c = '\r'

/-- A text without the white space in front of it. -/
def skipSpace (cs : List Char) : List Char :=
  cs.dropWhile isSpace

/-! ### Strings -/

/-- What a string is spelled with: a character, or a code unit by its number. -/
inductive Unit16 where
  | char (c : Char)
  | code (n : Nat)

/-- The character of an escape of one letter. -/
def escape? : Char → Option Char
  | '"' => some '"'
  | '\\' => some '\\'
  | '/' => some '/'
  | 'b' => some '\x08'
  | 'f' => some '\x0c'
  | 'n' => some '\n'
  | 'r' => some '\r'
  | 't' => some '\t'
  | _ => none

/-- The code unit of four hexadecimal digits. -/
def codeUnit? (digits : List Char) : Option Nat :=
  (digits.mapM Text.hexDigit?).map (Text.ofDigits 16)

/-- A string up to its closing quote, and the text after it. -/
def readUnits : List Char → Option (List Unit16 × List Char)
  | '"' :: cs => some ([], cs)
  | '\\' :: 'u' :: a :: b :: c :: d :: cs => do
    let n ← codeUnit? [a, b, c, d]
    let (units, rest) ← readUnits cs
    some (.code n :: units, rest)
  | '\\' :: e :: cs => do
    let c ← escape? e
    let (units, rest) ← readUnits cs
    some (.char c :: units, rest)
  | c :: cs =>
    if c < ' ' ∨ c = '\\' then none
    else do
      let (units, rest) ← readUnits cs
      some (.char c :: units, rest)
  | [] => none

/-- The first unit of a surrogate pair. -/
def isLeading (n : Nat) : Bool := 0xD800 ≤ n && n < 0xDC00

/-- The second unit of a surrogate pair. -/
def isTrailing (n : Nat) : Bool := 0xDC00 ≤ n && n < 0xE000

/-- The characters of code units; absent if half of a surrogate pair stands alone. -/
def assemble : List Unit16 → Option (List Char)
  | [] => some []
  | .char c :: us => (assemble us).map (c :: ·)
  | .code n :: .code m :: us =>
    if isLeading n then
      if isTrailing m then
        (assemble us).map (Char.ofNat (0x10000 + (n - 0xD800) * 0x400 + (m - 0xDC00)) :: ·)
      else none
    else if isTrailing n then none
    else (assemble (.code m :: us)).map (Char.ofNat n :: ·)
  | .code n :: us =>
    if isLeading n || isTrailing n then none else (assemble us).map (Char.ofNat n :: ·)

/-- A string after its opening quote. -/
def readString (cs : List Char) : Option (Option String × List Char) := do
  let (units, rest) ← readUnits cs
  some ((assemble units).map String.ofList, rest)

/-! ### Numbers -/

/-- The digits after a point, of which there is at least one. Without a point there are none. -/
def readFraction : List Char → Option (List Nat × List Char)
  | '.' :: cs =>
    match Text.spanDigits cs with
    | ([], _) => none
    | (ds, rest) => some (ds, rest)
  | cs => some ([], cs)

/-- A plain run of digits as an integer, if it fits into 64 bits. Zero with a sign is no integer. -/
def integerOf? (negative : Bool) (whole : List Nat) : Option Int :=
  let n := Text.ofDigits 10 whole
  if negative then if 0 < n ∧ n ≤ 0x8000000000000000 then some (-(n : Int)) else none
  else if n < 0x10000000000000000 then some n else none

/-- A number after its sign. Without a fraction and an exponent it is an integer if it can be
    one. -/
def readUnsigned (negative : Bool) (cs : List Char) : Option (Json × List Char) :=
  match Text.spanDigits cs with
  | ([], _) => none
  -- A leading zero stands alone.
  | (0 :: _ :: _, _) => none
  | (whole, afterWhole) => do
    let (fraction, afterFraction) ← readFraction afterWhole
    let (exponent, rest) ← Floating.readExponent afterFraction
    let spelled := number ⟨negative, whole, fraction, exponent⟩
    -- Nothing was read after the whole digits: the spelling has neither point nor exponent.
    if rest.length = afterWhole.length then
      some (((integerOf? negative whole).map integer).getD spelled, rest)
    else some (spelled, rest)

/-! ### Values -/

/-- The words that stand for a value. -/
def word? : List Char → Option (Json × List Char)
  | 'n' :: 'u' :: 'l' :: 'l' :: cs => some (null, cs)
  | 't' :: 'r' :: 'u' :: 'e' :: cs => some (bool true, cs)
  | 'f' :: 'a' :: 'l' :: 's' :: 'e' :: cs => some (bool false, cs)
  | _ => none

/-- What follows an item: another one, or the end. -/
inductive After where
  | more
  | done

/-- The comma or the closing bracket after an item. -/
def readAfter (closing : Char) (cs : List Char) : Option (After × List Char) :=
  match skipSpace cs with
  | c :: rest =>
    if c = ',' then some (.more, rest)
    else if c = closing then some (.done, rest)
    else none
  | [] => none

mutual

/-- A value at the beginning of a text, and the text after it. Of two nested calls at least one is
    on a shorter text, so twice the length of the text is enough fuel. -/
def readValue : (fuel : Nat) → List Char → Option (Json × List Char)
  | 0, _ => none
  | fuel + 1, cs =>
    match skipSpace cs with
    | '"' :: rest => (readString rest).map fun (s, rest) => (string s, rest)
    | '[' :: rest =>
      match skipSpace rest with
      | ']' :: rest => some (array [], rest)
      | rest => (readItems fuel rest).map fun (items, rest) => (array items, rest)
    | '\x7b' :: rest =>
      match skipSpace rest with
      | '\x7d' :: rest => some (object [], rest)
      | rest => (readFields fuel rest).map fun (fields, rest) => (object fields, rest)
    | '-' :: rest => readUnsigned true rest
    | rest =>
      match word? rest with
      | some found => some found
      | none => readUnsigned false rest

/-- The items of an array up to its closing bracket. -/
def readItems : (fuel : Nat) → List Char → Option (List Json × List Char)
  | 0, _ => none
  | fuel + 1, cs => do
    let (item, rest) ← readValue fuel cs
    match ← readAfter ']' rest with
    | (.done, rest) => some ([item], rest)
    | (.more, rest) =>
      let (items, rest) ← readItems fuel rest
      some (item :: items, rest)

/-- The fields of an object up to its closing brace. -/
def readFields : (fuel : Nat) → List Char → Option (List (Option String × Json) × List Char)
  | 0, _ => none
  | fuel + 1, cs =>
    match skipSpace cs with
    | '"' :: rest => do
      let (name, rest) ← readString rest
      match skipSpace rest with
      | ':' :: rest =>
        let (value, rest) ← readValue fuel rest
        match ← readAfter '\x7d' rest with
        | (.done, rest) => some ([(name, value)], rest)
        | (.more, rest) =>
          let (fields, rest) ← readFields fuel rest
          some ((name, value) :: fields, rest)
      | _ => none
    | _ => none

end

/-- The document that a text holds, with nothing but white space around it. -/
def parse? (text : String) : Option Json :=
  let cs := text.toList
  match readValue (2 * cs.length + 2) cs with
  | some (j, rest) => if (skipSpace rest).isEmpty then some j else none
  | none => none

end Json

end WhereClause
