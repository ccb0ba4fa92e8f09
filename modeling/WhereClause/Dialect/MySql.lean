import WhereClause.Dialect.Generic

namespace WhereClause

/-!
# MySQL

Strings are joined by `CONCAT`, dates are moved by intervals, and integer division is cut to a whole
number. In string literals the backslash is an escape character.
-/

namespace MySql

/-- Forms of properties. The day of the week counts from one on Sunday. -/
def property : Property → Option Template
  | .part .year => some ["YEAR(", 0, ")"]
  | .part .month => some ["MONTH(", 0, ")"]
  | .part .day => some ["DAY(", 0, ")"]
  | .part .hour => some ["HOUR(", 0, ")"]
  | .part .minute => some ["MINUTE(", 0, ")"]
  | .part .second => some ["SECOND(", 0, ")"]
  | .part .millisecond => some ["FLOOR(MICROSECOND(", 0, ") / 1000)"]
  | .part .dayOfWeek => some ["(DAYOFWEEK(", 0, ") - 1)"]
  | .part .dayOfYear => some ["DAYOFYEAR(", 0, ")"]
  | p => Generic.property p

/-- Forms of string methods. -/
def stringMethod (m : StringMethod) (args : Nat) : Option Template :=
  match m, args with
  | .startsWith, _ => some ["(", 0, " like CONCAT(", 1, ", '%'))"]
  | .endsWith, _ => some ["(", 0, " like CONCAT('%', ", 1, "))"]
  | .contains, _ => some ["(", 0, " like CONCAT('%', ", 1, ", '%'))"]
  | .substring, 1 => some ["SUBSTRING(", 0, ", ", 1, " + 1)"]
  | .substring, _ => some ["SUBSTRING(", 0, ", ", 1, " + 1, ", 2, ")"]
  | .indexOf, 1 => some ["(LOCATE(", 1, ", ", 0, ") - 1)"]
  | .indexOf, _ => some ["(LOCATE(", 1, ", ", 0, ", ", 2, " + 1) - 1)"]
  | .remove, 1 => some ["LEFT(", 0, ", ", 1, ")"]
  | .remove, _ => some ["INSERT(", 0, ", ", 1, " + 1, ", 2, ", '')"]
  | m, args => Generic.stringMethod m args

/-- Forms of moving a date. -/
def shift : DateUnit → Template
  | .years => ["DATE_ADD(", 0, ", INTERVAL ", 1, " YEAR)"]
  | .months => ["DATE_ADD(", 0, ", INTERVAL ", 1, " MONTH)"]
  | .days => ["DATE_ADD(", 0, ", INTERVAL ", 1, " DAY)"]
  | .hours => ["DATE_ADD(", 0, ", INTERVAL ", 1, " HOUR)"]
  | .minutes => ["DATE_ADD(", 0, ", INTERVAL ", 1, " MINUTE)"]
  | .seconds => ["DATE_ADD(", 0, ", INTERVAL ", 1, " SECOND)"]
  | .milliseconds => ["DATE_ADD(", 0, ", INTERVAL ", 1, " * 1000 MICROSECOND)"]

/-- Forms of methods. -/
def method (m : Method) (args : Nat) : Option Template :=
  match m, args with
  | .string m, args => stringMethod m args
  | .shift unit, _ => some (shift unit)
  | .rounding .truncate, _ => some ["TRUNCATE(", 0, ", 0)"]
  | .math .log, 2 => some ["LOG(", 1, ", ", 0, ")"]
  | .toText, _ => some ["CAST(", 0, " AS CHAR)"]
  | m, args => Generic.method m args

/-- Forms of operators that are not infix. -/
def binary (op : BinaryOp) (left right : ValueKind) : Option Template :=
  match op with
  | .power => some ["POWER(", 0, ", ", 1, ")"]
  | .divide =>
    if left = .integer ∧ right = .integer then some ["(", 0, " div ", 1, ")"]
    else Generic.binary op left right
  | .exclusiveOr => if left = .boolean then Generic.binary op left right else none
  | _ => Generic.binary op left right

/-- Infix tokens. -/
def operator (op : BinaryOp) (boolean : Bool) : Option String :=
  match op with
  | .exclusiveOr => if boolean then Generic.operator op boolean else some "^"
  | _ => Generic.operator op boolean

/-- Forms of constructors. -/
def construct (type : HostKind) (args : Nat) : Option Template :=
  match type, args with
  | .dateTime, 3 => some ["STR_TO_DATE(CONCAT(", 0, ", '-', ", 1, ", '-', ", 2, "), '%Y-%m-%d')"]
  | .dateTime, 6 =>
    some ["STR_TO_DATE(CONCAT(", 0, ", '-', ", 1, ", '-', ", 2, ", ' ', ", 3, ", ':', ", 4,
      ", ':', ", 5, "), '%Y-%m-%d %H:%i:%s')"]
  | _, _ => none

/-- Literals of values. Moments are in universal time. -/
def literal : Value → Option String
  | .dateTime dt => some (Generic.quoted dt.milliText)
  | .dateTimeOffset m => some (Generic.quoted m.utc.milliText)
  | .time t => some (Generic.quoted t.milliText)
  | .string s => some (String.ofList (Text.quoteEscaping s.toList))
  | v => Generic.literal v

/-- The dialect. -/
def rules : Rules :=
  { Generic.rules with
    name := "mysql"
    property := property
    method := method
    binary := binary
    operator := operator
    construct := construct
    literal := literal
    dateDiff := ["DATEDIFF(", 0, ", ", 1, ")"]
    concat := .function "CONCAT" }

end MySql

end WhereClause
