import WhereClause.Method
import WhereClause.Operator
import WhereClause.Value

namespace WhereClause

/-!
# Predicate trees

The expressions that are rendered. Every node carries the kind of its result, and names of columns,
properties and methods are kept as they were given, whether they have a meaning or not.

- `Expr`: the trees, with `Expr.kind`, `Expr.children` and `Expr.height`
- `Expr.isPredicate`: the node reads as a condition rather than as a value
- `Position`: where a node stands, which tells equal nodes apart
- `Expr.text`: the tree in messages
-/

/-- A predicate tree. `column` is a member of the row itself and `member` a property of a value;
    `call` is a method of a receiver and `callStatic` one without. -/
inductive Expr where
  | constant (kind : ValueKind) (c : Constant)
  | column (kind : ValueKind) (name : String) (family : Family)
  | member (kind : ValueKind) (object : Expr) (name : String) (family : Family)
  | unary (kind : ValueKind) (op : UnaryOp) (operand : Expr)
  | binary (kind : ValueKind) (op : BinaryOp) (left right : Expr)
  | call (kind : ValueKind) (family : Family) (method : String) (receiver : Expr) (args : List Expr)
  | callStatic (kind : ValueKind) (family : Family) (method : String) (args : List Expr)
  | conditional (kind : ValueKind) (test ifTrue ifFalse : Expr)
  | construct (kind : ValueKind) (type : HostKind) (args : List Expr)
  | array (kind : ValueKind) (items : List Expr)

namespace Expr

/-- The result kind of a tree. -/
def kind : Expr → ValueKind
  | constant k _ => k
  | column k _ _ => k
  | member k _ _ _ => k
  | unary k _ _ => k
  | binary k _ _ _ => k
  | call k _ _ _ _ => k
  | callStatic k _ _ _ => k
  | conditional k _ _ _ => k
  | construct k _ _ => k
  | array k _ => k

/-- The result is Boolean. -/
def isBoolean (e : Expr) : Bool := e.kind = .boolean

/-- The result is an integer. -/
def isInteger (e : Expr) : Bool := e.kind = .integer

/-- The result is a string. -/
def isString (e : Expr) : Bool := e.kind = .string

/-- A constant that is null. -/
def isNullConstant : Expr → Bool
  | constant _ c => c.value.isNull
  | _ => false

/-- The direct subtrees, in order. -/
def children : Expr → List Expr
  | constant _ _ => []
  | column _ _ _ => []
  | member _ object _ _ => [object]
  | unary _ _ operand => [operand]
  | binary _ _ left right => [left, right]
  | call _ _ _ receiver args => receiver :: args
  | callStatic _ _ _ args => args
  | conditional _ test ifTrue ifFalse => [test, ifTrue, ifFalse]
  | construct _ _ args => args
  | array _ items => items

/-- The receiver of a method call, if it has one, and its arguments; absent for other nodes. -/
def operands? : Expr → Option (List Expr)
  | call _ _ _ receiver args => some (receiver :: args)
  | callStatic _ _ _ args => some args
  | _ => none

/-- The node is written as a condition rather than as a value. -/
def isPredicate : Expr → Bool
  | binary _ op left _ =>
    op.isComparison || op.isLogical left.isBoolean || (op = .exclusiveOr && left.isBoolean)
  | unary _ .not operand => operand.isBoolean
  | unary _ .convert operand => operand.isPredicate
  | call k _ _ _ _ => k = .boolean
  | callStatic k _ _ _ => k = .boolean
  | _ => false

mutual

/-- Number of nodes on the longest path down from the root. -/
def height : Expr → Nat
  | constant _ _ => 1
  | column _ _ _ => 1
  | member _ object _ _ => object.height + 1
  | unary _ _ operand => operand.height + 1
  | binary _ _ left right => Nat.max left.height right.height + 1
  | call _ _ _ receiver args => Nat.max receiver.height (listHeight args) + 1
  | callStatic _ _ _ args => listHeight args + 1
  | conditional _ test ifTrue ifFalse =>
    Nat.max test.height (Nat.max ifTrue.height ifFalse.height) + 1
  | construct _ _ args => listHeight args + 1
  | array _ items => listHeight items + 1

/-- The greatest height of some trees. -/
def listHeight : List Expr → Nat
  | [] => 0
  | e :: es => Nat.max e.height (listHeight es)

end

/-! ### Text -/

mutual

/-- A tree in messages. -/
def text : Expr → String
  | constant _ c => c.value.text
  | column _ name _ => name
  | member _ object name _ => object.text ++ "." ++ name
  | unary _ op operand => op.sign ++ operand.text
  | binary _ op left right => "(" ++ left.text ++ " " ++ op.sign ++ " " ++ right.text ++ ")"
  | call _ _ method receiver args => receiver.text ++ "." ++ method ++ "(" ++ listText args ++ ")"
  | callStatic _ family method args => family.text ++ "." ++ method ++ "(" ++ listText args ++ ")"
  | conditional _ test ifTrue ifFalse =>
    "(" ++ test.text ++ " ? " ++ ifTrue.text ++ " : " ++ ifFalse.text ++ ")"
  | construct _ type args => "new " ++ type.text ++ "(" ++ listText args ++ ")"
  | array _ items => "[" ++ listText items ++ "]"

/-- Trees with commas between. -/
def listText : List Expr → String
  | [] => ""
  | [e] => e.text
  | e :: es => e.text ++ ", " ++ listText es

end

end Expr

/-- Where a node stands: the number of its tree, and the child taken at each step down from the
    root, the last step first. -/
structure Position where
  tree : Nat
  steps : List Nat
  deriving DecidableEq

namespace Position

/-- The root of a tree. -/
def root (tree : Nat) : Position := ⟨tree, []⟩

/-- A child of the node that stands here. -/
def child (p : Position) (i : Nat) : Position := ⟨p.tree, i :: p.steps⟩

end Position

end WhereClause
