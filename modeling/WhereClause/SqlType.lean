import WhereClause.Host

namespace WhereClause

/-!
# Database types

The database type that a bound parameter gets from its host type.

- `SqlType`, `DbType`: normalized column types, and the types drivers know
- `QueryType`: a column type with its size, and whether it excludes null
- `TypeSystem.resolve`: the mapping from host types, with the default sizes of a dialect
-/

/-- A normalized column type. -/
inductive SqlType where
  | bit
  | tinyInt
  | smallInt
  | int
  | bigInt
  | real
  | float
  | decimal
  | nVarChar
  | nChar
  | dateTime
  | dateTimeOffset
  | time
  | varBinary
  | uniqueIdentifier
  deriving DecidableEq

/-- The type of a parameter as drivers know it. -/
inductive DbType where
  | boolean
  | byte
  | int16
  | int32
  | int64
  | single
  | double
  | decimal
  | string
  | stringFixedLength
  | dateTime
  | dateTimeOffset
  | time
  | binary
  | guid
  deriving DecidableEq

namespace DbType

/-- The name of a driver type. -/
def name : DbType → String
  | boolean => "Boolean"
  | byte => "Byte"
  | int16 => "Int16"
  | int32 => "Int32"
  | int64 => "Int64"
  | single => "Single"
  | double => "Double"
  | decimal => "Decimal"
  | string => "String"
  | stringFixedLength => "StringFixedLength"
  | dateTime => "DateTime"
  | dateTimeOffset => "DateTimeOffset"
  | time => "Time"
  | binary => "Binary"
  | guid => "Guid"

end DbType

namespace SqlType

/-- The name of a column type. -/
def name : SqlType → String
  | bit => "Bit"
  | tinyInt => "TinyInt"
  | smallInt => "SmallInt"
  | int => "Int"
  | bigInt => "BigInt"
  | real => "Real"
  | float => "Float"
  | decimal => "Decimal"
  | nVarChar => "NVarChar"
  | nChar => "NChar"
  | dateTime => "DateTime"
  | dateTimeOffset => "DateTimeOffset"
  | time => "Time"
  | varBinary => "VarBinary"
  | uniqueIdentifier => "UniqueIdentifier"

/-- The driver type of a column type. -/
def dbType : SqlType → DbType
  | bit => .boolean
  | tinyInt => .byte
  | smallInt => .int16
  | int => .int32
  | bigInt => .int64
  | real => .single
  | float => .double
  | decimal => .decimal
  | nVarChar => .string
  | nChar => .stringFixedLength
  | dateTime => .dateTime
  | dateTimeOffset => .dateTimeOffset
  | time => .time
  | varBinary => .binary
  | uniqueIdentifier => .guid

end SqlType

/-- The resolved type of a parameter. The length is zero for types without one. -/
structure QueryType where
  sqlType : SqlType
  notNull : Bool
  length : Nat
  precision : Nat
  scale : Nat
  deriving DecidableEq

/-- The length that stands for no limit. -/
def unboundedLength : Nat := 0xffffffff

namespace QueryType

/-- A resolved type as a column declaration. -/
def text (t : QueryType) : String :=
  let size := match t.sqlType with
    | .nVarChar | .nChar | .varBinary =>
      if t.length = unboundedLength then "(MAX)" else "(" ++ t.length.repr ++ ")"
    | .decimal => "(" ++ t.precision.repr ++ ", " ++ t.scale.repr ++ ")"
    | _ => ""
  t.sqlType.name ++ size ++ (if t.notNull then " NOT NULL" else "")

end QueryType

/-- The default sizes of strings and byte sequences. -/
structure TypeSystem where
  stringSize : Nat
  binarySize : Nat
  deriving DecidableEq

namespace TypeSystem

/-- No limit on either. -/
def unbounded : TypeSystem := ⟨unboundedLength, unboundedLength⟩

/-- The column type of a host type with its length, precision and scale. -/
def column? (ts : TypeSystem) : HostKind → Option (SqlType × Nat × Nat × Nat)
  | .bool => some (.bit, 0, 0, 0)
  -- The small integer without a sign is a byte of its own; the other unsigned ones take the next
  -- wider signed type, and the widest a decimal.
  | .int .u8 => some (.tinyInt, 0, 0, 0)
  | .int .i8 | .int .i16 => some (.smallInt, 0, 0, 0)
  | .int .u16 | .int .i32 => some (.int, 0, 0, 0)
  | .int .u32 | .int .i64 => some (.bigInt, 0, 0, 0)
  | .int .u64 => some (.decimal, 0, 20, 0)
  | .float .single => some (.real, 0, 0, 0)
  | .float .double => some (.float, 0, 0, 0)
  | .decimal => some (.decimal, 0, 29, 4)
  | .string => some (.nVarChar, ts.stringSize, 0, 0)
  | .char => some (.nChar, 1, 0, 0)
  | .dateTime => some (.dateTime, 0, 0, 0)
  | .dateTimeOffset => some (.dateTimeOffset, 0, 0, 0)
  | .time => some (.time, 0, 0, 0)
  | .bytes => some (.varBinary, ts.binarySize, 0, 0)
  | .guid => some (.uniqueIdentifier, 0, 0, 0)
  | .other _ => none

/-- The resolved type of a host type. Only types that never are null by themselves, and are not
    wrapped, exclude null. -/
def resolve? (ts : TypeSystem) (host : HostType) : Option QueryType :=
  (ts.column? host.kind).map fun (sqlType, length, precision, scale) =>
    { sqlType, notNull := host.kind.isValueType && !host.nullable, length, precision, scale }

end TypeSystem

end WhereClause
