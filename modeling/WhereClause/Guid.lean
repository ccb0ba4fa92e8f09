import WhereClause.Text.Digits

namespace WhereClause

/-!
# Globally unique identifiers

An identifier is a row of 32 hexadecimal digits. It is written in lower case in groups of 8, 4, 4, 4
and 12, and read in either case in that form, without hyphens, in braces, or after `urn:uuid:`.
-/

/-- A 128-bit identifier as its digits. -/
structure Guid where
  digits : List (Fin 16)
  length_eq : digits.length = 32
  deriving DecidableEq

namespace Guid

/-- A hexadecimal digit as a number below 16. -/
def nibble? (c : Char) : Option (Fin 16) :=
  match Text.hexDigit? c with
  | some n => if h : n < 16 then some ⟨n, h⟩ else none
  | none => none

/-- An identifier from 32 hexadecimal digits. -/
def ofDigits? (cs : List Char) : Option Guid :=
  match cs.mapM nibble? with
  | some ds => if h : ds.length = 32 then some ⟨ds, h⟩ else none
  | none => none

/-- The digits of a text of five hyphenated groups. -/
def ungroup? (cs : List Char) : Option (List Char) :=
  let hyphens := [8, 13, 18, 23]
  if cs.length = 36 ∧ hyphens.all (fun i => cs[i]? = some '-') then
    some (cs.take 8 ++ (cs.drop 9).take 4 ++ (cs.drop 14).take 4 ++ (cs.drop 19).take 4 ++
      cs.drop 24)
  else none

/-- An identifier in one of its four written forms. -/
def parse? (text : String) : Option Guid :=
  let cs := text.toList
  let grouped (cs : List Char) : Option Guid := (ungroup? cs).bind ofDigits?
  if cs.length = 32 then ofDigits? cs
  else if cs.length = 36 then grouped cs
  else if cs.length = 38 ∧ cs.head? = some '\x7b' ∧ cs.getLast? = some '\x7d' then
    grouped (cs.tail.take 36)
  else if cs.length = 45 ∧ (cs.take 9).map Char.toLower = "urn:uuid:".toList then
    grouped (cs.drop 9)
  else none

/-- An identifier in lower case with hyphens. -/
def text (g : Guid) : String :=
  let cs := g.digits.map fun d => Nat.digitChar d.val
  String.ofList (cs.take 8 ++ '-' :: (cs.drop 8).take 4 ++ '-' :: (cs.drop 12).take 4 ++
    '-' :: (cs.drop 16).take 4 ++ '-' :: cs.drop 20)

end Guid

end WhereClause
