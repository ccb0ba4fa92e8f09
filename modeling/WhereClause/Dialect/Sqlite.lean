import WhereClause.Dialect.Generic

namespace WhereClause

/-!
# SQLite

Parts of a date come from `STRFTIME`, dates are moved by modifiers, and rounding is built from
casts. A search for a substring takes no start position.
-/

namespace Sqlite

/-- Forms of properties. -/
def property : Property → Option Template
  | .length => some ["LENGTH(", 0, ")"]
  | .part .year => some ["STRFTIME('%Y', ", 0, ")"]
  | .part .month => some ["STRFTIME('%m', ", 0, ")"]
  | .part .day => some ["STRFTIME('%d', ", 0, ")"]
  | .part .hour => some ["STRFTIME('%H', ", 0, ")"]
  | .part .minute => some ["STRFTIME('%M', ", 0, ")"]
  | .part .second => some ["STRFTIME('%S', ", 0, ")"]
  | .part .millisecond => some ["(CAST(STRFTIME('%f', ", 0, ") * 1000 AS INTEGER) % 1000)"]
  | .part .dayOfWeek => some ["STRFTIME('%w', ", 0, ")"]
  | .part .dayOfYear => some ["STRFTIME('%j', ", 0, ")"]

/-- Forms of string methods. -/
def stringMethod (m : StringMethod) (args : Nat) : Option Template :=
  match m, args with
  | .startsWith, _ => some ["LIKE(", 1, " || '%', ", 0, ")"]
  | .endsWith, _ => some ["LIKE('%' || ", 1, ", ", 0, ")"]
  | .contains, _ => some ["LIKE('%' || ", 1, " || '%', ", 0, ")"]
  | .substring, 1 => some ["SUBSTR(", 0, ", ", 1, " + 1)"]
  | .substring, _ => some ["SUBSTR(", 0, ", ", 1, " + 1, ", 2, ")"]
  | .indexOf, 1 => some ["(INSTR(", 0, ", ", 1, ") - 1)"]
  | .indexOf, _ => none
  | .remove, 1 => some ["SUBSTR(", 0, ", 1, ", 1, ")"]
  | .remove, _ => some ["(SUBSTR(", 0, ", 1, ", 1, ") || SUBSTR(", 0, ", ", 1, " + ", 2, " + 1))"]
  | m, args => Generic.stringMethod m args

/-- Forms of moving a date. -/
def shift : DateUnit → Template
  | .years => ["DATETIME(", 0, ", ", 1, " || ' years')"]
  | .months => ["DATETIME(", 0, ", ", 1, " || ' months')"]
  | .days => ["DATETIME(", 0, ", ", 1, " || ' days')"]
  | .hours => ["DATETIME(", 0, ", ", 1, " || ' hours')"]
  | .minutes => ["DATETIME(", 0, ", ", 1, " || ' minutes')"]
  | .seconds => ["DATETIME(", 0, ", ", 1, " || ' seconds')"]
  | .milliseconds => ["DATETIME(", 0, ", (", 1, " / 1000.0) || ' seconds')"]

/-- Forms of methods. -/
def method (m : Method) (args : Nat) : Option Template :=
  match m with
  | .string m => stringMethod m args
  | .shift unit => some (shift unit)
  | .rounding .truncate => some ["CAST(", 0, " AS INTEGER)"]
  | .rounding .ceiling => some ["(CAST(", 0, " AS INTEGER) + (", 0, " > CAST(", 0, " AS INTEGER)))"]
  | .rounding .floor => some ["(CAST(", 0, " AS INTEGER) - (", 0, " < CAST(", 0, " AS INTEGER)))"]
  | .toText => some ["CAST(", 0, " AS TEXT)"]
  | m => Generic.method m args

/-- Forms of operators that are not infix. -/
def binary (op : BinaryOp) (left right : ValueKind) : Option Template :=
  match op with
  | .power => some ["POWER(", 0, ", ", 1, ")"]
  | _ => Generic.binary op left right

/-- Forms of constructors. -/
def construct (type : HostKind) (args : Nat) : Option Template :=
  match type, args with
  | .dateTime, 3 => some ["DATE(printf('%04d-%02d-%02d', ", 0, ", ", 1, ", ", 2, "))"]
  | .dateTime, 6 =>
    some ["DATETIME(printf('%04d-%02d-%02d %02d:%02d:%02d', ", 0, ", ", 1, ", ", 2, ", ", 3,
      ", ", 4, ", ", 5, "))"]
  | _, _ => none

/-- Literals of values. -/
def literal : Value → Option String
  | .dateTime dt => some (Generic.quoted dt.milliText)
  | .dateTimeOffset m => some (Generic.quoted m.internetText)
  | .time t => some (Generic.quoted t.milliText)
  | v => Generic.literal v

/-- The dialect. -/
def rules : Rules :=
  { Generic.rules with
    name := "sqlite"
    property := property
    method := method
    binary := binary
    construct := construct
    literal := literal
    dateDiff := ["CAST(JULIANDAY(", 0, ") - JULIANDAY(", 1, ") AS INTEGER)"] }

end Sqlite

end WhereClause
