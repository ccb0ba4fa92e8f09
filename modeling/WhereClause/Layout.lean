import WhereClause.Dialect.Rules
import WhereClause.Sql

namespace WhereClause

/-!
# Layout of a tree in a dialect

The walk over a predicate tree that chooses the form of every node. A node can be written in several
roles: as a condition or as a value, with a coercion where it is the other one, or as a stretch of a
chain that a node above it writes as a whole. `Layout` has the expression of a node for each role,
so that the walk is one structural recursion.

- `Layout`: the roles of a node
- `Layout.ofNode`: the roles of a node, from its own form
- `Expr.layout`: the roles of a tree
- `Expr.predicate`, `Expr.value`: the two roles a whole tree can have
-/

/-- The expressions of a node in the roles it can have. -/
structure Layout where
  /-- The node as it is, one level down. -/
  natural : Sql
  /-- Where a condition is needed. -/
  predicate : Sql
  /-- Where a value is needed. -/
  value : Sql
  /-- As a part of a concatenation. -/
  summands : List Sql
  /-- As an argument of a concatenation, where an array stands for its items. -/
  spread : List Sql
  /-- As the last alternative to null. -/
  alternatives : List Sql
  /-- As the last case: the branches it adds. -/
  branches : List (Sql × Sql)
  /-- As the last case: what remains after its branches. -/
  otherwise : Sql
  /-- As the array of a membership test; absent if it is no array. -/
  items : Option (List Sql)

namespace Layout

/-- The roles of a node with the given form of its own, which is no part of a chain. -/
def ofNode (d : Rules) (isPredicate : Bool) (body : Sql) : Layout :=
  let natural := Sql.level body
  let predicate := if isPredicate then natural else .form d.predicateCoercion [natural]
  let value := if isPredicate then .form d.valueCoercion [natural] else natural
  { natural, predicate, value
    summands := [value]
    spread := [value]
    alternatives := [value]
    branches := []
    otherwise := value
    items := none }

/-- A template with operands, or the fault of a construct without one. -/
def formOr (d : Rules) (e : Expr) (template : Option Template) (operands : List Sql) : Sql :=
  match template with
  | some t => .form t operands
  | none => .fault (.unsupported d.name e.text)

/-- Operands as conditions or as values. -/
def role (asPredicate : Bool) (l : Layout) : Sql :=
  if asPredicate then l.predicate else l.value

/-- A property of a value. -/
def memberBody (d : Rules) (e : Expr) (family : Family) (name : String) (object : Layout) : Sql :=
  match family.property? name with
  | some p => formOr d e (d.property p) [object.value]
  | none => .fault (.unsupported d.name e.text)

/-- A unary operator. A conversion is its operand. -/
def unaryBody (d : Rules) (e : Expr) (op : UnaryOp) (operand : Expr) (l : Layout) : Sql :=
  if op = .convert then l.natural
  else match d.unary op operand.kind with
    | some token => .prefixed token (l.role (op = .not && operand.isBoolean))
    | none => .fault (.unsupported d.name e.text)

/-- An operator with a template, or an infix one, or none. Logical operators have conditions as
    operands. -/
def operatorBody (d : Rules) (e : Expr) (op : BinaryOp) (left right : Expr) (l r : Layout) : Sql :=
  let logical := op.isLogical left.isBoolean
  match d.binary op left.kind right.kind with
  | some t => .form t [l.role logical, r.role logical]
  | none =>
    match d.operator op left.isBoolean with
    | some token => .infixed token (l.role logical) (r.role logical)
    | none => .fault (.unsupported d.name e.text)

/-- The operand that an equality compares with null, if it does. -/
def comparedWithNull (op : BinaryOp) (left right : Expr) (l r : Layout) : Option Layout :=
  if op = .equal ∨ op = .notEqual then
    -- Of two null constants the right one is the null that is compared with.
    if right.isNullConstant then some l
    else if left.isNullConstant then some r
    else none
  else none

/-- A test for null, or for its absence. -/
def nullTest (op : BinaryOp) : Template :=
  if op = .equal then ["(", 0, " is null)"] else ["(", 0, " is not null)"]

/-- A chain of alternatives to null. -/
def coalesceBody (d : Rules) (l r : Layout) : Sql :=
  match d.coalesce with
  | .nested t => .form t [l.value, r.value]
  | .flatten => .coalesce (l.value :: r.alternatives)

/-- A binary operator. Comparisons with null, concatenations, differences of dates and alternatives
    to null have forms of their own. -/
def binaryBody (d : Rules) (e : Expr) (op : BinaryOp) (left right : Expr) (l r : Layout) : Sql :=
  match comparedWithNull op left right l r with
  | some other => .form (nullTest op) [other.value]
  | none =>
    if op = .add ∧ e.kind = .string then .concat d.concat (l.summands ++ r.summands)
    else if op = .subtract ∧ left.kind = .date ∧ right.kind = .date then
      .form d.dateDiff [l.value, r.value]
    else if op = .coalesce then coalesceBody d l r
    else operatorBody d e op left right l r

/-- Membership of a value in an array. -/
def membershipBody (d : Rules) (e : Expr) (array needle : Layout) : Sql :=
  match array.items with
  | some items => .inList needle.value items
  | none => .fault (.unsupported d.name e.text)

/-- A method whose shape fits, with its receiver if any before the arguments. -/
def methodBody (d : Rules) (e : Expr) (m : Method) (firstIsString : Bool) (args : Nat)
    (operands : List Layout) : Sql :=
  let values := operands.map Layout.value
  match m, operands with
  | .compare, _ | .compareTo, _ => .form d.compare values
  | .string .concat, _ => .concat d.concat (operands.flatMap Layout.spread)
  | .daysBetween, _ => .form d.dateDiff values
  | .membership, [array, needle] => membershipBody d e array needle
  | .toText, [receiver] =>
    if firstIsString then receiver.value else formOr d e (d.method m args) values
  | _, _ => formOr d e (d.method m args) values

/-- A method call, checked against the shape of the method. -/
def callBody (d : Rules) (e : Expr) (family : Family) (name : String)
    (hasReceiver firstIsString : Bool) (args : Nat) (operands : List Layout) : Sql :=
  match family.method? name with
  | none => .fault (.unsupported d.name e.text)
  | some m =>
    let s := m.signature
    if s.hasReceiver ≠ hasReceiver then .fault (.malformed (.receiver name family s.hasReceiver))
    else if s.admits args then methodBody d e m firstIsString args operands
    else .fault (.malformed (.arguments name s args))

/-- A conditional. A test that is not Boolean is compared with zero. -/
def conditionalBody (d : Rules) (test : Expr) (t l r : Layout) : Sql :=
  match d.conditional with
  | .nested tpl => .form tpl [t.predicate, l.value, r.value]
  | .case =>
    if test.isBoolean then .caseWhen ((t.predicate, l.value) :: r.branches) r.otherwise
    else .form ["(case ", 0, " when 0 then ", 2, " else ", 1, " end)"] [t.value, l.value, r.value]

end Layout

namespace Expr

open Layout

mutual

/-- The roles of a tree whose root stands at `p`. -/
def layout (d : Rules) (p : Position) : Expr → Layout
  | constant _ c => ofNode d false (.constant p c)
  | column _ name _ => ofNode d false (.column name)
  | e@(member _ object name family) =>
    ofNode d false (memberBody d e family name (layout d (p.child 0) object))
  | e@(unary _ op operand) =>
    ofNode d e.isPredicate (unaryBody d e op operand (layout d (p.child 0) operand))
  | e@(binary kind op left right) =>
    let l := layout d (p.child 0) left
    let r := layout d (p.child 1) right
    let own := ofNode d e.isPredicate (binaryBody d e op left right l r)
    -- A sum of strings and a chain of alternatives are taken apart by a parent of the same sort
    -- only, so the node keeps its own form beside its parts.
    if op = .add ∧ kind = .string then
      { own with summands := l.summands ++ r.summands, spread := l.summands ++ r.summands }
    else if op = .coalesce then { own with alternatives := l.value :: r.alternatives }
    else own
  | e@(call _ family method receiver args) =>
    let operands := layout d (p.child 0) receiver :: layoutList d p 1 args
    ofNode d e.isPredicate (callBody d e family method true receiver.isString args.length operands)
  | e@(callStatic _ family method args) =>
    let operands := layoutList d p 0 args
    ofNode d e.isPredicate (callBody d e family method false false args.length operands)
  | conditional _ test ifTrue ifFalse =>
    let t := layout d (p.child 0) test
    let l := layout d (p.child 1) ifTrue
    let r := layout d (p.child 2) ifFalse
    let own := ofNode d false (conditionalBody d test t l r)
    if test.isBoolean then
      { own with branches := (t.predicate, l.value) :: r.branches, otherwise := r.otherwise }
    else own
  | e@(construct _ type args) =>
    ofNode d false
      (formOr d e (d.construct type args.length) ((layoutList d p 0 args).map Layout.value))
  | e@(array _ items) =>
    let items := layoutList d p 0 items
    -- An array is nowhere written as a whole: a membership test lists its items, and a call that
    -- concatenates takes their summands.
    { ofNode d false (.fault (.unsupported d.name e.text)) with
      items := some (items.map Layout.value)
      spread := items.flatMap Layout.summands }

/-- The roles of children, the first of which is number `i`. -/
def layoutList (d : Rules) (p : Position) (i : Nat) : List Expr → List Layout
  | [] => []
  | e :: es => layout d (p.child i) e :: layoutList d p (i + 1) es

end

/-- A tree as a condition. -/
def predicate (d : Rules) (p : Position) (e : Expr) : Sql :=
  (e.layout d p).predicate

/-- A tree as a value. -/
def value (d : Rules) (p : Position) (e : Expr) : Sql :=
  (e.layout d p).value

end Expr

end WhereClause
