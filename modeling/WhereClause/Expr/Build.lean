import WhereClause.Expr.Basic

namespace WhereClause

/-!
# Building trees

Constructors that find the kind of each node from its parts, so that trees built with them are ready
to be rendered.

- `Build.column`, `Build.literal`, `Build.null`: leaves
- `Build.binary`, `Build.unary`, `Build.conditional`: operators, with `Build.binaryKind`
- `Build.call`, `Build.callStatic`, `Build.member`: methods and properties, with `Build.methodKind`
- one function for each common method and property
-/

namespace Build

/-! ### Leaves -/

/-- A column whose values have the given kind. -/
def column (name : String) (kind : ValueKind) : Expr := .column kind name .other

/-- A constant with an explicit host type. -/
def literalOf (value : Value) (host : HostType) : Expr :=
  .constant host.kind.valueKind ⟨value, host⟩

/-- A null of unknown type. -/
def null : Expr := .constant .other ⟨.null, .orNull (.other "object")⟩

/-- A null of a host type that admits it. -/
def nullOf (kind : HostKind) : Expr := literalOf .null (.orNull kind)

/-- A constant with the host type that its value has by itself. -/
def literal (value : Value) : Expr :=
  match value.hostKind? with
  | some kind => literalOf value (.of kind)
  | none => null

/-! ### Operators -/

/-- The kind of arithmetic on two kinds: reals and decimals prevail, in that order, and the left
    kind otherwise, unless it is unknown. -/
def promoted (left right : ValueKind) : ValueKind :=
  if left = .real ∨ right = .real then .real
  else if left = .decimal ∨ right = .decimal then .decimal
  else if left = .other then right
  else left

/-- The kind of a binary operation. -/
def binaryKind (op : BinaryOp) (left right : ValueKind) : ValueKind :=
  match op with
  | .equal | .notEqual | .lessThan | .lessThanOrEqual | .greaterThan | .greaterThanOrEqual
  | .andAlso | .orElse => .boolean
  | .and | .or | .exclusiveOr | .leftShift | .rightShift => left
  | .add => if left = .string ∨ right = .string then .string else promoted left right
  | .subtract => if left = .date ∧ right = .date then .integer else promoted left right
  | .power => .real
  | .coalesce => if left = .other then right else left
  | .multiply | .divide | .modulo => promoted left right

/-- A binary operation. -/
def binary (op : BinaryOp) (left right : Expr) : Expr :=
  .binary (binaryKind op left.kind right.kind) op left right

/-- A unary operation, which keeps the kind of its operand. -/
def unary (op : UnaryOp) (operand : Expr) : Expr := .unary operand.kind op operand

/-- A conversion to another kind. -/
def convert (kind : ValueKind) (operand : Expr) : Expr := .unary kind .convert operand

/-- A conditional, of the kind of its first result that has a known one. -/
def conditional (test ifTrue ifFalse : Expr) : Expr :=
  .conditional (if ifTrue.kind = .other then ifFalse.kind else ifTrue.kind) test ifTrue ifFalse

/-! ### Methods and properties -/

/-- The kind of a string method. -/
def stringMethodKind : String → ValueKind
  | "StartsWith" | "EndsWith" | "Contains" | "IsNullOrEmpty" => .boolean
  | "IndexOf" => .integer
  | _ => .string

/-- The kind of a method by its name, whether its family knows it or not. -/
def methodKind (family : Family) (name : String) : ValueKind :=
  if name = "ToString" then .string
  else if name = "CompareTo" ∨ name = "Compare" then .integer
  else match family with
    | .string => stringMethodKind name
    | .date => if name = "Subtract" then .integer else .date
    | .decimal => .decimal
    | .math => if name = "Sign" then .integer else .real
    | .other => if name = "Contains" then .boolean else .other

/-- A method without receiver. -/
def callStatic (family : Family) (method : String) (args : List Expr) : Expr :=
  .callStatic (methodKind family method) family method args

/-- A method of a receiver. -/
def call (family : Family) (method : String) (receiver : Expr) (args : List Expr) : Expr :=
  .call (methodKind family method) family method receiver args

/-- A property of a value; all known ones are integers. -/
def member (family : Family) (name : String) (object : Expr) : Expr :=
  .member .integer object name family

/-- A date from its parts. -/
def dateTime (args : List Expr) : Expr := .construct .date .dateTime args

/-- An array. -/
def array (items : List Expr) : Expr := .array .other items

/-- Strings joined to one. -/
def concat (args : List Expr) : Expr := callStatic .string "Concat" args

/-- The string is null or empty. -/
def isNullOrEmpty (s : Expr) : Expr := callStatic .string "IsNullOrEmpty" [s]

/-- A function on floating-point numbers. -/
def math (method : String) (args : List Expr) : Expr := callStatic .math method args

/-- A function on decimals. -/
def decimal (method : String) (args : List Expr) : Expr := callStatic .decimal method args

/-- The order of two values, by a method of a family. -/
def compare (family : Family) (a b : Expr) : Expr := callStatic family "Compare" [a, b]

/-- The string begins with another one. -/
def startsWith (s start : Expr) : Expr := call .string "StartsWith" s [start]

/-- The string ends with another one. -/
def endsWith (s ending : Expr) : Expr := call .string "EndsWith" s [ending]

/-- The string has another one in it. -/
def contains (s part : Expr) : Expr := call .string "Contains" s [part]

/-- The string in upper case. -/
def toUpper (s : Expr) : Expr := call .string "ToUpper" s []

/-- The string in lower case. -/
def toLower (s : Expr) : Expr := call .string "ToLower" s []

/-- The string without white space around it. -/
def trim (s : Expr) : Expr := call .string "Trim" s []

/-- A part of a string from a start, of a given length or up to the end. -/
def substring (s start : Expr) (length : Option Expr) : Expr :=
  call .string "Substring" s (start :: length.toList)

/-- Where a string occurs in another one, from a start or from the beginning. -/
def indexOf (s part : Expr) (start : Option Expr) : Expr :=
  call .string "IndexOf" s (part :: start.toList)

/-- The string with every occurrence of a part replaced. -/
def replace (s part replacement : Expr) : Expr := call .string "Replace" s [part, replacement]

/-- The string without a part, of a given length or up to the end. -/
def remove (s start : Expr) (count : Option Expr) : Expr :=
  call .string "Remove" s (start :: count.toList)

/-- The length of a string. -/
def length (s : Expr) : Expr := member .string "Length" s

/-- The value as a string. -/
def toText (e : Expr) : Expr := call .other "ToString" e []

/-- The family whose values have the given kind. -/
def familyOf : ValueKind → Family
  | .string => .string
  | .date => .date
  | .decimal => .decimal
  | _ => .other

/-- The order of a value relative to another one. -/
def compareTo (a b : Expr) : Expr := call (familyOf a.kind) "CompareTo" a [b]

/-- The value is one of the items of an array. -/
def inArray (e : Expr) (items : List Expr) : Expr := call .other "Contains" (array items) [e]

/-- A part of a date. -/
def datePart (part : String) (d : Expr) : Expr := member .date part d

/-- A date moved by an amount, by the name of the method. -/
def shift (method : String) (d amount : Expr) : Expr := call .date method d [amount]

end Build

end WhereClause
