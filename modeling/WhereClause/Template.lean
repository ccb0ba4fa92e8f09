namespace WhereClause

/-!
# Templates

Fixed SQL text with places for operands. Operand 0 of an instance property or method is its
receiver. A template may use an operand several times, or leave one out.

- `Template`: a list of pieces; texts and numbers coerce to pieces
- `Template.display`: the template with each place shown as its number in braces
- `Template.slots`: its places
-/

/-- A piece of a template: text, or the place of an operand. -/
inductive Piece where
  | text (s : String)
  | slot (i : Nat)
  deriving DecidableEq

instance : Coe String Piece := ⟨Piece.text⟩

instance (i : Nat) : OfNat Piece i := ⟨Piece.slot i⟩

/-- Fixed text with places for operands. -/
abbrev Template := List Piece

namespace Piece

/-- A piece as text, a place as its number in braces. -/
def display : Piece → String
  | text s => s
  | slot i => "\x7b" ++ i.repr ++ "\x7d"

end Piece

namespace Template

/-- A template with its places shown as numbers in braces. -/
def display (t : Template) : String :=
  String.join (t.map Piece.display)

/-- The places of a template from left to right. -/
def slots (t : Template) : List Nat :=
  t.filterMap fun
    | .slot i => some i
    | .text _ => none

/-- Every place is among the first `n` operands. -/
def Fits (t : Template) (n : Nat) : Prop :=
  ∀ i, Piece.slot i ∈ t → i < n

end Template

end WhereClause
