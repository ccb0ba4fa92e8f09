import WhereClause.Calendar.Reader
import WhereClause.Json.Basic
import WhereClause.Value

namespace WhereClause

/-!
# Values and host types as documents

- `Value.toJson`, `Value.ofJson?`: a literal value
- `HostType.toJson`, `HostType.ofJson?`: a host type
- `Constant.toJson`, `Constant.ofJson?`: the two together

Floating-point values can be written in several ways, so writing takes the way as an argument.
-/

/-- How floating-point values are written. -/
abbrev FloatStyle := Precision → Floating → Json

namespace FloatStyle

/-- Shortest digits with halves to the even neighbour, positional near one. What is not finite is
    null. -/
def number : FloatStyle
  | .single, .finite negative m q =>
    .number (Shortest.numeral ⟨13, 5⟩ negative (Shortest.digits .single .even m q))
  | .double, .finite negative m q =>
    .number (Shortest.numeral ⟨16, 4⟩ negative (Shortest.digits .double .even m q))
  | _, _ => .null

end FloatStyle

namespace ValueKind

/-- A kind by its name. -/
def ofJson? (levels : Nat) (j : Json) : Option ValueKind := j.named? levels name all

end ValueKind

namespace HostKind

/-- A host type by its name, or one without counterpart tagged as such. -/
def toJson : HostKind → Json
  | other name => .ofFields [("Other", name)]
  | k => k.name

/-- A host type by its name, or one without counterpart tagged as such. -/
def ofJson? (levels : Nat) (j : Json) : Option HostKind :=
  match j.named? levels name named with
  | some k => some k
  | none =>
    match j.variant? levels with
    | some ("Other", content) => content.text?.map other
    | _ => none

end HostKind

namespace HostType

/-- A host type with all its fields. -/
def toJson (h : HostType) : Json :=
  .ofFields [("kind", h.kind.toJson), ("nullable", .bool h.nullable)]

/-- A host type; without a field for it, null is not admitted. -/
def ofJson? (levels : Nat) (j : Json) : Option HostType :=
  match j.record? levels ["kind", "nullable"] with
  | some [some kind, none] => (HostKind.ofJson? (levels - 1) kind).map fun k => ⟨k, false⟩
  | some [some kind, some nullable] => do
    let k ← HostKind.ofJson? (levels - 1) kind
    let b ← nullable.bool?
    some ⟨k, b⟩
  | _ => none

end HostType

namespace Value

/-- The tag of a value. -/
def tag (v : Value) : String :=
  match v.hostKind? with
  | some k => k.name
  | none => "Null"

/-- What is tagged. -/
def content (style : FloatStyle) : Value → Json
  | null => .null
  | bool b => .bool b
  | int n => .integer n.val
  | float p x => style p x
  | decimal d => d.text
  | string s => s
  | char c => c.toString
  | dateTime dt => String.ofList (dt.joined ['T'])
  | dateTimeOffset m => String.ofList m.zuluText
  | time t => String.ofList t.text
  | bytes bs => .array (bs.map fun b => .integer b.toNat)
  | guid g => g.text

/-- A value with its tag; null is a tag alone. -/
def toJson (style : FloatStyle) (v : Value) : Json :=
  match v with
  | null => v.tag
  | v => .ofFields [(v.tag, v.content style)]

/-- A decimal as a number or as text. Numbers that are not integers go through their text. -/
def decimalOfJson? : Json → Option Decimal
  | .integer n => Decimal.ofInt? n
  | .number n => n.floating?.bind fun x => Decimal.parse? (x.text .double)
  | .string s => s.bind Decimal.parse?
  | _ => none

/-- The only character of a text. -/
def onlyChar? (s : String) : Option Char :=
  match s.toList with
  | [c] => some c
  | _ => none

/-- A byte as an integer. -/
def byteOfJson? (j : Json) : Option UInt8 :=
  match j.integer? with
  | some n => if 0 ≤ n ∧ n ≤ 255 then some (UInt8.ofNat n.toNat) else none
  | none => none

/-- What is tagged, read for the given type. -/
def contentOfJson? (levels : Nat) (kind : HostKind) (j : Json) : Option Value :=
  match kind with
  | .bool => j.bool?.map bool
  | .int k => (j.integer?.bind (Integer.make? k)).map int
  | .float p => (j.floating? p).map (float p)
  | .decimal => (decimalOfJson? j).map decimal
  | .string => j.text?.map string
  | .char => (j.text?.bind onlyChar?).map char
  | .dateTime => (j.text?.bind DateTime.parse?).map dateTime
  | .dateTimeOffset => (j.text?.bind OffsetDateTime.parse?).map dateTimeOffset
  | .time => (j.text?.bind TimeOfDay.parse?).map time
  | .bytes => ((j.items? levels).bind (·.mapM byteOfJson?)).map bytes
  | .guid => (j.text?.bind Guid.parse?).map guid
  | .other _ => none

/-- A value with its tag. -/
def ofJson? (levels : Nat) (j : Json) : Option Value :=
  if j.tag? levels = some "Null" then some null
  else
    match j.variant? levels with
    | some (tag, content) =>
      (HostKind.named.find? fun k => k.name = tag).bind fun k =>
        contentOfJson? (levels - 1) k content
    | none => none

end Value

namespace Constant

/-- A constant with all its fields. -/
def toJson (style : FloatStyle) (c : Constant) : Json :=
  .ofFields [("value", c.value.toJson style), ("host", c.host.toJson)]

/-- A constant; both fields are needed. -/
def ofJson? (levels : Nat) (j : Json) : Option Constant :=
  match j.record? levels ["value", "host"] with
  | some [some value, some host] => do
    let v ← Value.ofJson? (levels - 1) value
    let h ← HostType.ofJson? (levels - 1) host
    some ⟨v, h⟩
  | _ => none

end Constant

end WhereClause
