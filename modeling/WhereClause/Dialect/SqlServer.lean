import WhereClause.Dialect.Generic

namespace WhereClause

/-!
# SQL Server and its compact edition

The compact edition differs from the server in the three date parts that the server has functions
for.
-/

namespace SqlServer

/-- Forms of properties. The weekday counts from one on Sunday. -/
def property : Property → Option Template
  | .length => some ["LEN(", 0, ")"]
  | .part .year => some ["YEAR(", 0, ")"]
  | .part .month => some ["MONTH(", 0, ")"]
  | .part .day => some ["DAY(", 0, ")"]
  | .part .hour => some ["DATEPART(hour, ", 0, ")"]
  | .part .minute => some ["DATEPART(minute, ", 0, ")"]
  | .part .second => some ["DATEPART(second, ", 0, ")"]
  | .part .millisecond => some ["DATEPART(millisecond, ", 0, ")"]
  | .part .dayOfWeek => some ["(DATEPART(weekday, ", 0, ") - 1)"]
  | .part .dayOfYear => some ["DATEPART(dayofyear, ", 0, ")"]

/-- Forms of string methods. -/
def stringMethod (m : StringMethod) (args : Nat) : Option Template :=
  match m, args with
  | .startsWith, _ => some ["(", 0, " like ", 1, " + '%')"]
  | .endsWith, _ => some ["(", 0, " like '%' + ", 1, ")"]
  | .contains, _ => some ["(", 0, " like '%' + ", 1, " + '%')"]
  | .trim, _ => some ["RTRIM(LTRIM(", 0, "))"]
  | .substring, 1 => some ["SUBSTRING(", 0, ", ", 1, " + 1, 8000)"]
  | .substring, _ => some ["SUBSTRING(", 0, ", ", 1, " + 1, ", 2, ")"]
  | .indexOf, 1 => some ["(CHARINDEX(", 1, ", ", 0, ") - 1)"]
  | .indexOf, _ => some ["(CHARINDEX(", 1, ", ", 0, ", ", 2, " + 1) - 1)"]
  | .remove, 1 => some ["STUFF(", 0, ", ", 1, " + 1, 8000, '')"]
  | .remove, _ => some ["STUFF(", 0, ", ", 1, " + 1, ", 2, ", '')"]
  | m, args => Generic.stringMethod m args

/-- Forms of moving a date. -/
def shift : DateUnit → Template
  | .years => ["DATEADD(year, ", 1, ", ", 0, ")"]
  | .months => ["DATEADD(month, ", 1, ", ", 0, ")"]
  | .days => ["DATEADD(day, ", 1, ", ", 0, ")"]
  | .hours => ["DATEADD(hour, ", 1, ", ", 0, ")"]
  | .minutes => ["DATEADD(minute, ", 1, ", ", 0, ")"]
  | .seconds => ["DATEADD(second, ", 1, ", ", 0, ")"]
  | .milliseconds => ["DATEADD(millisecond, ", 1, ", ", 0, ")"]

/-- Forms of methods. -/
def method (m : Method) (args : Nat) : Option Template :=
  match m, args with
  | .string m, args => stringMethod m args
  | .shift unit, _ => some (shift unit)
  | .rounding .truncate, _ => some ["ROUND(", 0, ", 0, 1)"]
  | .math .atan2, _ => some ["ATN2(", 0, ", ", 1, ")"]
  | .math .log, 1 => some ["LOG(", 0, ")"]
  | .math .log, _ => some ["LOG(", 0, ", ", 1, ")"]
  | .toText, _ => some ["CONVERT(NVARCHAR, ", 0, ")"]
  | m, args => Generic.method m args

/-- Forms of operators that are not infix. -/
def binary (op : BinaryOp) (left right : ValueKind) : Option Template :=
  match op with
  | .power => some ["POWER(", 0, ", ", 1, ")"]
  | .exclusiveOr => if left = .boolean then Generic.binary op left right else none
  | _ => Generic.binary op left right

/-- Infix tokens. -/
def operator (op : BinaryOp) (boolean : Bool) : Option String :=
  match op with
  | .exclusiveOr => if boolean then Generic.operator op boolean else some "^"
  | _ => Generic.operator op boolean

/-- Forms of constructors. -/
def construct (type : HostKind) (args : Nat) : Option Template :=
  match type, args with
  | .dateTime, 3 =>
    some ["CONVERT(DATETIME, CONVERT(NVARCHAR, ", 0, ") + '/' + CONVERT(NVARCHAR, ", 1,
      ") + '/' + CONVERT(NVARCHAR, ", 2, "), 111)"]
  | .dateTime, 6 =>
    some ["CONVERT(DATETIME, CONVERT(NVARCHAR, ", 0, ") + '-' + CONVERT(NVARCHAR, ", 1,
      ") + '-' + CONVERT(NVARCHAR, ", 2, ") + ' ' + CONVERT(NVARCHAR, ", 3,
      ") + ':' + CONVERT(NVARCHAR, ", 4, ") + ':' + CONVERT(NVARCHAR, ", 5, "), 120)"]
  | _, _ => Generic.construct type args

/-- Literals of values. -/
def literal : Value → Option String
  | .dateTime dt => some (Generic.quoted dt.milliText)
  | .dateTimeOffset m => some ("'" ++ String.ofList (Generic.offsetText m) ++ "'")
  | .time t => some (Generic.quoted t.milliText)
  | .bytes bs => some ("0x" ++ Generic.hex bs)
  | v => Generic.literal v

/-- The server dialect. -/
def rules : Rules :=
  { Generic.rules with
    name := "sqlserver"
    property := property
    method := method
    binary := binary
    operator := operator
    construct := construct
    literal := literal
    dateDiff := ["DATEDIFF(day, ", 1, ", ", 0, ")"]
    concat := .infixed " + " }

end SqlServer

namespace SqlServerCe

/-- Forms of properties. -/
def property : Property → Option Template
  | .part .year => some ["DATEPART(year, ", 0, ")"]
  | .part .month => some ["DATEPART(month, ", 0, ")"]
  | .part .day => some ["DATEPART(day, ", 0, ")"]
  | p => SqlServer.property p

/-- The dialect of the compact edition. -/
def rules : Rules :=
  { SqlServer.rules with
    name := "sqlserverce"
    property := property }

end SqlServerCe

end WhereClause
