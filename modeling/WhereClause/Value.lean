import WhereClause.Calendar.Moment
import WhereClause.Guid
import WhereClause.Host
import WhereClause.Number.Decimal
import WhereClause.Number.Shortest
import WhereClause.Text.Escaped

namespace WhereClause

/-!
# Values of constants

The literal values a predicate can hold.

- `Value`: the values, each in range for its type
- `Value.hostKind?`: the type a value has by itself; null has none
- `Value.text`: the value in messages
-/

/-- An integer of one of the eight integer types. -/
structure Integer where
  kind : IntKind
  val : Int
  inRange : kind.Holds val
  deriving DecidableEq

namespace Integer

/-- An integer as a value of a type, if the type holds it. -/
def make? (kind : IntKind) (n : Int) : Option Integer :=
  if h : kind.Holds n then some ⟨kind, n, h⟩ else none

end Integer

/-- A literal value. -/
inductive Value where
  | null
  | bool (b : Bool)
  | int (n : Integer)
  | float (p : Precision) (x : Floating)
  | decimal (d : Decimal)
  | string (s : String)
  | char (c : Char)
  | dateTime (dt : DateTime)
  | dateTimeOffset (m : OffsetDateTime)
  | time (t : TimeOfDay)
  | bytes (bs : List UInt8)
  | guid (g : Guid)
  deriving DecidableEq

namespace Value

/-- The type that a value has by itself. -/
def hostKind? : Value → Option HostKind
  | null => none
  | bool _ => some .bool
  | int n => some (.int n.kind)
  | float p _ => some (.float p)
  | decimal _ => some .decimal
  | string _ => some .string
  | char _ => some .char
  | dateTime _ => some .dateTime
  | dateTimeOffset _ => some .dateTimeOffset
  | time _ => some .time
  | bytes _ => some .bytes
  | guid _ => some .guid

/-- The null value. -/
def isNull : Value → Bool
  | null => true
  | _ => false

/-- Integers, floating-point numbers and decimals. -/
def isNumeric (v : Value) : Bool :=
  match v.hostKind? with
  | some k => k.isNumeric
  | none => false

/-- A value in messages. -/
def text : Value → String
  | null => "null"
  | bool b => if b then "true" else "false"
  | int n => n.val.repr
  | float p x => x.text p
  | decimal d => d.text ++ "m"
  | string s => Text.escapedString s
  | char c => Text.escapedChar c
  | dateTime dt => "#" ++ String.ofList dt.text ++ "#"
  | dateTimeOffset m => "#" ++ String.ofList m.text ++ "#"
  | time t => "#" ++ String.ofList t.text ++ "#"
  | bytes bs => "bytes[" ++ bs.length.repr ++ "]"
  | guid g => "\x7b" ++ g.text ++ "\x7d"

end Value

/-- A literal value and the host type it was captured with. -/
structure Constant where
  value : Value
  host : HostType
  deriving DecidableEq

end WhereClause
