import WhereClause.Text.Shown

namespace WhereClause

/-!
# Quoted text for display

Strings and single characters as they appear in messages: between quotes, with the quote, the
backslash and the common control characters escaped by a backslash, and characters that cannot be
seen written by their code point in braces.

- `Text.escapedString`: a string between double quotes
- `Text.escapedChar`: a character between single quotes
-/

namespace Text

/-- One character of a quoted text, whose quote is given. -/
def escape (quote c : Char) : List Char :=
  if c = quote ∨ c = '\\' then ['\\', c]
  else if c = '\n' then ['\\', 'n']
  else if c = '\r' then ['\\', 'r']
  else if c = '\t' then ['\\', 't']
  else if c.toNat = 0 then ['\\', '0']
  else if isShown c then [c]
  else '\\' :: 'u' :: '\x7b' :: Nat.toDigits 16 c.toNat ++ ['\x7d']

/-- A string between double quotes. -/
def escapedString (s : String) : String :=
  String.ofList ('"' :: s.toList.flatMap (escape '"') ++ ['"'])

/-- A character between single quotes. -/
def escapedChar (c : Char) : String :=
  String.ofList ('\'' :: escape '\'' c ++ ['\''])

end Text

end WhereClause
