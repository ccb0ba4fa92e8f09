import WhereClause.Error
import WhereClause.Expr.Basic

namespace WhereClause

/-!
# Drafts

SQL text before it is settled how columns and constants are spelled. A draft also says which parts
are operands, which levels of the tree are entered, and where nothing can be written.

- `Draft`: the drafts
- `Draft.join`: drafts with a text between
-/

/-- Text to be written from left to right. -/
inductive Draft where
  | empty
  /-- Fixed text. -/
  | text (s : String)
  /-- A column, under the name it has in the tree. -/
  | column (name : String)
  /-- A constant, with the place it has in the tree. -/
  | constant (place : Position) (c : Constant)
  /-- One draft after another. -/
  | append (first second : Draft)
  /-- An operand, which must not run together with the text before it. -/
  | operand (d : Draft)
  /-- One level further down in the tree. -/
  | level (d : Draft)
  /-- Nothing can be written here. -/
  | fault (e : Error)

namespace Draft

instance : Append Draft := ⟨append⟩

instance : Coe String Draft := ⟨text⟩

/-- Drafts one after another, with a text between them. -/
def join (separator : String) : List Draft → Draft
  | [] => empty
  | [d] => d
  | d :: ds => d ++ text separator ++ join separator ds

end Draft

end WhereClause
