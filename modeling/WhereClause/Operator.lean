namespace WhereClause

/-!
# Operators

The operators of predicate trees. The eager `and` and `or` are logical on Boolean operands and work
on bits otherwise.
-/

/-- Binary operators. -/
inductive BinaryOp where
  | equal
  | notEqual
  | lessThan
  | lessThanOrEqual
  | greaterThan
  | greaterThanOrEqual
  | andAlso
  | orElse
  | and
  | or
  | exclusiveOr
  | add
  | subtract
  | multiply
  | divide
  | modulo
  | power
  | coalesce
  | leftShift
  | rightShift
  deriving DecidableEq

namespace BinaryOp

/-- All binary operators. -/
def all : List BinaryOp :=
  [equal, notEqual, lessThan, lessThanOrEqual, greaterThan, greaterThanOrEqual, andAlso, orElse,
    and, or, exclusiveOr, add, subtract, multiply, divide, modulo, power, coalesce, leftShift,
    rightShift]

/-- The name of an operator in documents. -/
def name : BinaryOp → String
  | equal => "Equal"
  | notEqual => "NotEqual"
  | lessThan => "LessThan"
  | lessThanOrEqual => "LessThanOrEqual"
  | greaterThan => "GreaterThan"
  | greaterThanOrEqual => "GreaterThanOrEqual"
  | andAlso => "AndAlso"
  | orElse => "OrElse"
  | and => "And"
  | or => "Or"
  | exclusiveOr => "ExclusiveOr"
  | add => "Add"
  | subtract => "Subtract"
  | multiply => "Multiply"
  | divide => "Divide"
  | modulo => "Modulo"
  | power => "Power"
  | coalesce => "Coalesce"
  | leftShift => "LeftShift"
  | rightShift => "RightShift"

/-- The sign of an operator in messages. -/
def sign : BinaryOp → String
  | equal => "=="
  | notEqual => "!="
  | lessThan => "<"
  | lessThanOrEqual => "<="
  | greaterThan => ">"
  | greaterThanOrEqual => ">="
  | andAlso => "&&"
  | orElse => "||"
  | and => "&"
  | or => "|"
  | exclusiveOr => "^"
  | add => "+"
  | subtract => "-"
  | multiply => "*"
  | divide => "/"
  | modulo => "%"
  | power => "**"
  | coalesce => "??"
  | leftShift => "<<"
  | rightShift => ">>"

/-- Comparisons, which always give a truth value. -/
def isComparison : BinaryOp → Bool
  | equal | notEqual | lessThan | lessThanOrEqual | greaterThan | greaterThanOrEqual => true
  | _ => false

/-- Logical connectives; the eager ones only between Boolean operands. -/
def isLogical (op : BinaryOp) (boolean : Bool) : Bool :=
  match op with
  | andAlso | orElse => true
  | and | or => boolean
  | _ => false

end BinaryOp

/-- Unary operators. A conversion changes the kind of its operand and nothing else. -/
inductive UnaryOp where
  | not
  | negate
  | plus
  | convert
  deriving DecidableEq

namespace UnaryOp

/-- All unary operators. -/
def all : List UnaryOp := [not, negate, plus, convert]

/-- The name of an operator in documents. -/
def name : UnaryOp → String
  | not => "Not"
  | negate => "Negate"
  | plus => "Plus"
  | convert => "Convert"

/-- The sign of an operator in messages; a conversion has none. -/
def sign : UnaryOp → String
  | not => "!"
  | negate => "-"
  | plus => "+"
  | convert => ""

end UnaryOp

end WhereClause
