import WhereClause.Number.Floating

namespace WhereClause

/-!
# Kinds and host types

What the program that hands over a predicate says about its values: a coarse kind for every
expression, and for constants the type they had there.

- `ValueKind`: the result kind of an expression
- `IntKind`: the eight integer types, with their ranges
- `HostKind`, `HostType`: a type of the host program, and whether it admits null
- `HostKind.valueKind`: the kind of the expressions of a host type
-/

/-- The result kind of an expression. -/
inductive ValueKind where
  | boolean
  | string
  | integer
  | real
  | decimal
  | date
  | other
  deriving DecidableEq

namespace ValueKind

/-- Integers, reals and decimals. -/
def isNumeric : ValueKind → Bool
  | integer | real | decimal => true
  | _ => false

/-- All kinds. -/
def all : List ValueKind := [boolean, string, integer, real, decimal, date, other]

/-- The name of a kind in documents. -/
def name : ValueKind → String
  | boolean => "Boolean"
  | string => "String"
  | integer => "Integer"
  | real => "Real"
  | decimal => "Decimal"
  | date => "Date"
  | other => "Other"

end ValueKind

/-- Integer types by width, signed or not. -/
inductive IntKind where
  | i8
  | u8
  | i16
  | u16
  | i32
  | u32
  | i64
  | u64
  deriving DecidableEq

namespace IntKind

/-- All integer types. -/
def all : List IntKind := [i8, u8, i16, u16, i32, u32, i64, u64]

/-- Least value. -/
def min : IntKind → Int
  | i8 => -0x80
  | i16 => -0x8000
  | i32 => -0x80000000
  | i64 => -0x8000000000000000
  | u8 | u16 | u32 | u64 => 0

/-- Greatest value. -/
def max : IntKind → Int
  | i8 => 0x7f
  | u8 => 0xff
  | i16 => 0x7fff
  | u16 => 0xffff
  | i32 => 0x7fffffff
  | u32 => 0xffffffff
  | i64 => 0x7fffffffffffffff
  | u64 => 0xffffffffffffffff

/-- The type holds the integer. -/
def Holds (k : IntKind) (n : Int) : Prop :=
  k.min ≤ n ∧ n ≤ k.max

instance (k : IntKind) (n : Int) : Decidable (k.Holds n) := by
  unfold Holds; infer_instance

/-- The name of an integer type in documents. -/
def name : IntKind → String
  | i8 => "I8"
  | u8 => "U8"
  | i16 => "I16"
  | u16 => "U16"
  | i32 => "I32"
  | u32 => "U32"
  | i64 => "I64"
  | u64 => "U64"

/-- The name of an integer type in messages. -/
def text : IntKind → String
  | i8 => "i8"
  | u8 => "u8"
  | i16 => "i16"
  | u16 => "u16"
  | i32 => "i32"
  | u32 => "u32"
  | i64 => "i64"
  | u64 => "u64"

end IntKind

/-- A type of the host program. `other` names one that has no counterpart in a database. -/
inductive HostKind where
  | bool
  | int (k : IntKind)
  | float (p : Precision)
  | decimal
  | string
  | char
  | dateTime
  | dateTimeOffset
  | time
  | bytes
  | guid
  | other (name : String)
  deriving DecidableEq

namespace HostKind

/-- One of the integer types. -/
def isInteger : HostKind → Bool
  | int _ => true
  | _ => false

/-- Integers, floating-point numbers and decimals. -/
def isNumeric : HostKind → Bool
  | int _ | float _ | decimal => true
  | _ => false

/-- Values of the type are never null by themselves. -/
def isValueType : HostKind → Bool
  | string | bytes | other _ => false
  | _ => true

/-- The kind of the expressions of a host type. -/
def valueKind : HostKind → ValueKind
  | bool => .boolean
  | int _ => .integer
  | float _ => .real
  | decimal => .decimal
  | string | char => .string
  | dateTime | dateTimeOffset => .date
  | time | bytes | guid | other _ => .other

/-- The types that a name alone stands for. -/
def named : List HostKind :=
  [bool] ++ IntKind.all.map int ++ [float .single, float .double, decimal, string, char, dateTime,
    dateTimeOffset, time, bytes, guid]

/-- The name of a type in documents; types without counterpart are told by their constructor. -/
def name : HostKind → String
  | bool => "Bool"
  | int k => k.name
  | float .single => "F32"
  | float .double => "F64"
  | decimal => "Decimal"
  | string => "String"
  | char => "Char"
  | dateTime => "DateTime"
  | dateTimeOffset => "DateTimeOffset"
  | time => "Time"
  | bytes => "Bytes"
  | guid => "Guid"
  | other _ => "Other"

/-- The name of a type in messages. -/
def text : HostKind → String
  | bool => "bool"
  | int k => k.text
  | float .single => "f32"
  | float .double => "f64"
  | decimal => "decimal"
  | string => "string"
  | char => "char"
  | dateTime => "datetime"
  | dateTimeOffset => "datetimeoffset"
  | time => "time"
  | bytes => "bytes"
  | guid => "guid"
  | other name => name

end HostKind

/-- A host type, possibly wrapped so that it admits null. -/
structure HostType where
  kind : HostKind
  nullable : Bool
  deriving DecidableEq

namespace HostType

/-- The type as it is. -/
def of (kind : HostKind) : HostType := ⟨kind, false⟩

/-- The type with null. -/
def orNull (kind : HostKind) : HostType := ⟨kind, true⟩

/-- A host type in messages: a question mark follows one that admits null. -/
def text (h : HostType) : String :=
  if h.nullable then h.kind.text ++ "?" else h.kind.text

end HostType

end WhereClause
