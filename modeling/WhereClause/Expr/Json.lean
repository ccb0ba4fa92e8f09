import WhereClause.Expr.Basic
import WhereClause.Json.Reader
import WhereClause.Value.Json

namespace WhereClause

/-!
# Trees as documents

- `Expr.toJson`: a tree as a document with all its fields
- `Expr.ofJson?`: the tree that a document describes; fields with a default may be missing and
  unknown ones are ignored
- `Expr.parse?`: the tree that a text describes
-/

namespace Family

/-- A family by its name. -/
def ofJson? (levels : Nat) (j : Json) : Option Family := j.named? levels name all

/-- A family that may be missing. -/
def ofField? (levels : Nat) : Option Json → Option Family
  | none => some other
  | some j => ofJson? levels j

end Family

namespace BinaryOp

/-- An operator by its name. -/
def ofJson? (levels : Nat) (j : Json) : Option BinaryOp := j.named? levels name all

end BinaryOp

namespace UnaryOp

/-- An operator by its name. -/
def ofJson? (levels : Nat) (j : Json) : Option UnaryOp := j.named? levels name all

end UnaryOp

namespace Expr

/-! ### Writing -/

/-- A node with its tag and the kind of its result. -/
def nodeJson (tag : String) (content : Json) (kind : ValueKind) : Json :=
  .ofFields [("node", .ofFields [(tag, content)]), ("kind", kind.name)]

/-- The fields of a member access. -/
def memberJson (object : Json) (name : String) (family : Family) : Json :=
  .ofFields [("object", object), ("name", name), ("family", family.name)]

/-- The fields of a method call. -/
def callJson (family : Family) (method : String) (object : Json) (args : List Json) : Json :=
  .ofFields [("family", family.name), ("method", method), ("object", object), ("args", .array args)]

mutual

/-- A tree as a document with all its fields. -/
def toJson (style : FloatStyle) : Expr → Json
  | constant k c => nodeJson "Constant" (c.toJson style) k
  | column k name family => nodeJson "Member" (memberJson .null name family) k
  | member k object name family =>
    nodeJson "Member" (memberJson (toJson style object) name family) k
  | unary k op operand =>
    nodeJson "Unary" (.ofFields [("op", op.name), ("operand", toJson style operand)]) k
  | binary k op left right =>
    nodeJson "Binary"
      (.ofFields [("op", op.name), ("left", toJson style left), ("right", toJson style right)]) k
  | call k family method receiver args =>
    nodeJson "MethodCall" (callJson family method (toJson style receiver) (listJson style args)) k
  | callStatic k family method args =>
    nodeJson "MethodCall" (callJson family method .null (listJson style args)) k
  | conditional k test ifTrue ifFalse =>
    nodeJson "Conditional"
      (.ofFields [("test", toJson style test), ("if_true", toJson style ifTrue),
        ("if_false", toJson style ifFalse)]) k
  | construct k type args =>
    nodeJson "Constructor"
      (.ofFields [("ty", type.toJson), ("args", .array (listJson style args))]) k
  | array k items => nodeJson "ArrayLiteral" (.array (listJson style items)) k

/-- Trees as documents. -/
def listJson (style : FloatStyle) : List Expr → List Json
  | [] => []
  | e :: es => toJson style e :: listJson style es

end

/-! ### Reading -/

/-- The object of a member access or a method call, which may be null or missing. -/
def objectOf? (read : Json → Option Expr) : Option Json → Option (Option Expr)
  | none => some none
  | some .null => some none
  | some j => (read j).map some

/-- A member access, given how its object is read. -/
def memberOf? (levels : Nat) (read : Json → Option Expr) (kind : ValueKind) (content : Json) :
    Option Expr :=
  match content.record? (levels + 1) ["object", "name", "family"] with
  | some [object, some name, family] => do
    let object ← objectOf? read object
    let name ← name.text?
    let family ← Family.ofField? levels family
    some (match object with
      | some o => member kind o name family
      | none => column kind name family)
  | _ => none

/-- The arguments of a call, which may be missing where `optional` says so. -/
def argsOf? (levels : Nat) (read : Json → Option Expr) (optional : Bool) :
    Option Json → Option (List Expr)
  | none => if optional then some [] else none
  | some j => (j.items? levels).bind (·.mapM read)

/-- A method call, given how its object and its arguments are read. -/
def callOf? (levels : Nat) (read readArg : Json → Option Expr) (kind : ValueKind) (content : Json) :
    Option Expr :=
  match content.record? (levels + 1) ["family", "method", "object", "args"] with
  | some [some family, some method, object, args] => do
    let family ← Family.ofJson? levels family
    let method ← method.text?
    let object ← objectOf? read object
    let args ← argsOf? levels readArg true args
    some (match object with
      | some o => call kind family method o args
      | none => callStatic kind family method args)
  | _ => none

/-- A unary node, given how its operand is read. -/
def unaryOf? (levels : Nat) (read : Json → Option Expr) (kind : ValueKind) (content : Json) :
    Option Expr :=
  match content.record? (levels + 1) ["op", "operand"] with
  | some [some op, some operand] => do
    let op ← UnaryOp.ofJson? levels op
    let operand ← read operand
    some (unary kind op operand)
  | _ => none

/-- A binary node, given how its operands are read. -/
def binaryOf? (levels : Nat) (read : Json → Option Expr) (kind : ValueKind) (content : Json) :
    Option Expr :=
  match content.record? (levels + 1) ["op", "left", "right"] with
  | some [some op, some left, some right] => do
    let op ← BinaryOp.ofJson? levels op
    let left ← read left
    let right ← read right
    some (binary kind op left right)
  | _ => none

/-- A conditional, given how its parts are read. -/
def conditionalOf? (levels : Nat) (read : Json → Option Expr) (kind : ValueKind) (content : Json) :
    Option Expr :=
  match content.record? (levels + 1) ["test", "if_true", "if_false"] with
  | some [some test, some ifTrue, some ifFalse] => do
    let test ← read test
    let ifTrue ← read ifTrue
    let ifFalse ← read ifFalse
    some (conditional kind test ifTrue ifFalse)
  | _ => none

/-- A constructor, given how its arguments are read. -/
def constructOf? (levels : Nat) (readArg : Json → Option Expr) (kind : ValueKind) (content : Json) :
    Option Expr :=
  match content.record? (levels + 1) ["ty", "args"] with
  | some [some type, args] => do
    let type ← HostKind.ofJson? levels type
    let args ← argsOf? levels readArg false args
    some (construct kind type args)
  | _ => none

/-- A node by its tag. `levels` remain below its content, and the readers are for trees right inside
    the content and for trees in an array there. -/
def nodeOf? (levels : Nat) (read readArg : Json → Option Expr) (kind : ValueKind) (tag : String)
    (content : Json) : Option Expr :=
  match tag with
  | "Constant" => (Constant.ofJson? (levels + 1) content).map (constant kind)
  | "Member" => memberOf? levels read kind content
  | "Unary" => unaryOf? levels read kind content
  | "Binary" => binaryOf? levels read kind content
  | "MethodCall" => callOf? levels read readArg kind content
  | "Conditional" => conditionalOf? levels read kind content
  | "Constructor" => constructOf? levels readArg kind content
  -- The items stand right inside the content, where other lists are one level further down.
  | "ArrayLiteral" => ((content.items? (levels + 1)).bind (·.mapM read)).map (array kind)
  | _ => none

/-- A tree, given the readers for the trees below its root. Its root takes three levels: its own
    fields, its tag and its content. -/
def treeOf? (levels : Nat) (read readArg : Json → Option Expr) (j : Json) : Option Expr :=
  match j.record? (levels + 3) ["node", "kind"] with
  | some [some node, some kind] => do
    let kind ← ValueKind.ofJson? (levels + 2) kind
    let (tag, content) ← node.variant? (levels + 2)
    nodeOf? levels read readArg kind tag content
  | _ => none

/-- The tree that a document describes, read at most `levels` levels down. -/
def ofJson? : (levels : Nat) → Json → Option Expr
  -- The root takes three levels, and an array inside its content a fourth.
  | levels + 4, j => treeOf? (levels + 1) (ofJson? (levels + 1)) (ofJson? levels) j
  | 3, j => treeOf? 0 (fun _ => none) (fun _ => none) j
  | _, _ => none

/-- The number of levels that a text may have, ignored fields apart. -/
def textLevels : Nat := 127

/-- The tree that a text describes. -/
def parse? (text : String) : Option Expr :=
  (Json.parse? text).bind (ofJson? textLevels)

end Expr

end WhereClause
