import WhereClause.Method
import WhereClause.Operator
import WhereClause.SqlType
import WhereClause.Template
import WhereClause.Value

namespace WhereClause

/-!
# Rules of a dialect

How one dialect writes each construct. A dialect is a value of `Rules`, usually made from another
one by replacing some of its fields.

- `ConcatStyle`, `CoalesceStyle`, `ConditionalStyle`: the forms chains can take
- `Rules`: the forms of all constructs
-/

/-- How the parts of a concatenation are joined: by an operator inside parentheses, or as the
    arguments of a function. -/
inductive ConcatStyle where
  | infixed (token : String)
  | function (name : String)
  deriving DecidableEq

/-- How a chain of alternatives to null is written: as one `COALESCE`, or step by step. -/
inductive CoalesceStyle where
  | flatten
  | nested (template : Template)
  deriving DecidableEq

/-- How a conditional is written: as one `case` for a whole chain, or step by step. -/
inductive ConditionalStyle where
  | case
  | nested (template : Template)
  deriving DecidableEq

/-- The forms of one dialect. A construct without a form cannot be written in the dialect. -/
structure Rules where
  name : String
  /-- Text before the name of a parameter. -/
  paramMark : String
  types : TypeSystem
  /-- Form of a property of a value. -/
  property : Property → Option Template
  /-- Form of a method, by its number of arguments. -/
  method : Method → Nat → Option Template
  /-- Form of a binary operator that is not infix, by the kinds of its operands. -/
  binary : BinaryOp → ValueKind → ValueKind → Option Template
  /-- Infix token of a binary operator, by whether its left operand is Boolean. -/
  operator : BinaryOp → Bool → Option String
  /-- Text before the operand of a unary operator, by the operand's kind. -/
  unary : UnaryOp → ValueKind → Option String
  /-- Form of a constructor, by its number of arguments. -/
  construct : HostKind → Nat → Option Template
  /-- Literal of a value. -/
  literal : Value → Option String
  /-- Whole days from operand 1 to operand 0. -/
  dateDiff : Template
  /-- Negative, zero or positive as operand 0 is below, equal to or above operand 1. -/
  compare : Template
  /-- A condition where a value is needed. -/
  valueCoercion : Template
  /-- A value where a condition is needed. -/
  predicateCoercion : Template
  concat : ConcatStyle
  coalesce : CoalesceStyle
  conditional : ConditionalStyle

end WhereClause
