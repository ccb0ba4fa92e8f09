namespace WhereClause

/-!
# Digits

Reading and writing of plain digit strings, over lists of characters. Only the ASCII digits count:
every format of this library spells its numbers with them.

- `digit?`, `hexDigit?`: the value of one character
- `ofDigits`: the number that a list of decimal digit values stands for
- `takeDigits`: the leading digits of a text, with what follows them
- `decimal`, `padded`: a number as text, the latter with a least width
-/

namespace Text

/-- The value of a decimal digit. -/
def digit? (c : Char) : Option Nat :=
  if '0' ≤ c ∧ c ≤ '9' then some (c.toNat - '0'.toNat) else none

/-- The value of a hexadecimal digit of either case. -/
def hexDigit? (c : Char) : Option Nat :=
  if '0' ≤ c ∧ c ≤ '9' then some (c.toNat - '0'.toNat)
  else if 'a' ≤ c ∧ c ≤ 'f' then some (c.toNat - 'a'.toNat + 10)
  else if 'A' ≤ c ∧ c ≤ 'F' then some (c.toNat - 'A'.toNat + 10)
  else none

/-- The number written with the given digits, most significant first. -/
def ofDigits (base : Nat) (ds : List Nat) : Nat :=
  ds.foldl (fun n d => n * base + d) 0

/-- The values of at most `limit` leading digits of a text, and the text after them. -/
def takeDigits : (limit : Nat) → List Char → List Nat × List Char
  | 0, cs => ([], cs)
  | _, [] => ([], [])
  | limit + 1, c :: cs =>
    match digit? c with
    | some d => let (ds, rest) := takeDigits limit cs; (d :: ds, rest)
    | none => ([], c :: cs)

/-- All leading digits of a text, and the text after them. -/
def spanDigits (cs : List Char) : List Nat × List Char :=
  takeDigits cs.length cs

/-- A number in decimal. -/
def decimal (n : Nat) : List Char :=
  Nat.toDigits 10 n

/-- A number in decimal, filled with zeros on the left up to the given width. -/
def padded (width n : Nat) : List Char :=
  let ds := decimal n
  List.replicate (width - ds.length) '0' ++ ds

/-- A byte as two upper-case hexadecimal digits. -/
def hexByte (b : UInt8) : List Char :=
  [upperHex (b.toNat / 16), upperHex (b.toNat % 16)]
where
  /-- One hexadecimal digit, in upper case. -/
  upperHex (n : Nat) : Char := (Nat.digitChar n).toUpper

/-- The white space of the Unicode standard. -/
def isBlank (c : Char) : Bool :=
  let n := c.toNat
  (0x09 ≤ n && n ≤ 0x0D) || n == 0x20 || n == 0x85 || n == 0xA0 || n == 0x1680 ||
    (0x2000 ≤ n && n ≤ 0x200A) || n == 0x2028 || n == 0x2029 || n == 0x202F || n == 0x205F ||
    n == 0x3000

/-- A text without the white space in front of it. -/
def dropBlanks (cs : List Char) : List Char :=
  cs.dropWhile isBlank

end Text

end WhereClause
