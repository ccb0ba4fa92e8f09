import WhereClause.Dialect.Rules
import WhereClause.Text.Quoted

namespace WhereClause

/-!
# The generic dialect

Forms close to the SQL standard, from which every other dialect starts.

- `Generic.rules`: the dialect
- `Generic.quoted`, `Generic.hex`: parts of literals that other dialects share
-/

namespace Generic

/-- Forms of properties. -/
def property : Property → Option Template
  | .length => some ["CHAR_LENGTH(", 0, ")"]
  | .part .year => some ["EXTRACT(year from ", 0, ")"]
  | .part .month => some ["EXTRACT(month from ", 0, ")"]
  | .part .day => some ["EXTRACT(day from ", 0, ")"]
  | .part .hour => some ["EXTRACT(hour from ", 0, ")"]
  | .part .minute => some ["EXTRACT(minute from ", 0, ")"]
  | .part .second => some ["EXTRACT(second from ", 0, ")"]
  | .part .millisecond => some ["MOD(CAST(EXTRACT(second from ", 0, ") * 1000 AS INTEGER), 1000)"]
  | .part .dayOfWeek => some ["EXTRACT(dow from ", 0, ")"]
  | .part .dayOfYear => some ["EXTRACT(doy from ", 0, ")"]

/-- Forms of string methods. -/
def stringMethod (m : StringMethod) (args : Nat) : Option Template :=
  match m, args with
  | .startsWith, _ => some ["(", 0, " like ", 1, " || '%')"]
  | .endsWith, _ => some ["(", 0, " like '%' || ", 1, ")"]
  | .contains, _ => some ["(", 0, " like '%' || ", 1, " || '%')"]
  | .toUpper, _ => some ["UPPER(", 0, ")"]
  | .toLower, _ => some ["LOWER(", 0, ")"]
  | .trim, _ => some ["TRIM(", 0, ")"]
  | .substring, 1 => some ["SUBSTRING(", 0, " FROM ", 1, " + 1)"]
  | .substring, _ => some ["SUBSTRING(", 0, " FROM ", 1, " + 1 FOR ", 2, ")"]
  | .indexOf, 1 => some ["(POSITION(", 1, " IN ", 0, ") - 1)"]
  | .indexOf, _ =>
    some ["(case when POSITION(", 1, " IN SUBSTRING(", 0, " FROM ", 2, " + 1)) = 0 then -1 else ",
      "POSITION(", 1, " IN SUBSTRING(", 0, " FROM ", 2, " + 1)) + ", 2, " - 1 end)"]
  | .replace, _ => some ["REPLACE(", 0, ", ", 1, ", ", 2, ")"]
  | .remove, 1 => some ["SUBSTRING(", 0, " FROM 1 FOR ", 1, ")"]
  | .remove, _ =>
    some ["(SUBSTRING(", 0, " FROM 1 FOR ", 1, ") || SUBSTRING(", 0, " FROM ", 1, " + ", 2,
      " + 1))"]
  | .isNullOrEmpty, _ => some ["(", 0, " is null or ", 0, " = '')"]
  | .concat, _ => none

/-- Forms of moving a date. -/
def shift : DateUnit → Template
  | .years => ["TIMESTAMPADD(YEAR, ", 1, ", ", 0, ")"]
  | .months => ["TIMESTAMPADD(MONTH, ", 1, ", ", 0, ")"]
  | .days => ["TIMESTAMPADD(DAY, ", 1, ", ", 0, ")"]
  | .hours => ["TIMESTAMPADD(HOUR, ", 1, ", ", 0, ")"]
  | .minutes => ["TIMESTAMPADD(MINUTE, ", 1, ", ", 0, ")"]
  | .seconds => ["TIMESTAMPADD(SECOND, ", 1, ", ", 0, ")"]
  | .milliseconds => ["TIMESTAMPADD(MICROSECOND, ", 1, " * 1000, ", 0, ")"]

/-- Forms of decimal arithmetic. -/
def decimalMethod : DecimalMethod → Template
  | .add => ["(", 0, " + ", 1, ")"]
  | .subtract => ["(", 0, " - ", 1, ")"]
  | .multiply => ["(", 0, " * ", 1, ")"]
  | .divide => ["(", 0, " / ", 1, ")"]
  | .remainder => ["(", 0, " % ", 1, ")"]
  | .negate => ["(-", 0, ")"]

/-- Forms of functions on floating-point numbers. -/
def mathMethod (m : MathMethod) (args : Nat) : Template :=
  match m, args with
  | .abs, _ => ["ABS(", 0, ")"]
  | .acos, _ => ["ACOS(", 0, ")"]
  | .asin, _ => ["ASIN(", 0, ")"]
  | .atan, _ => ["ATAN(", 0, ")"]
  | .atan2, _ => ["ATAN2(", 0, ", ", 1, ")"]
  | .cos, _ => ["COS(", 0, ")"]
  | .exp, _ => ["EXP(", 0, ")"]
  | .sin, _ => ["SIN(", 0, ")"]
  | .tan, _ => ["TAN(", 0, ")"]
  | .sqrt, _ => ["SQRT(", 0, ")"]
  | .sign, _ => ["SIGN(", 0, ")"]
  | .pow, _ => ["POWER(", 0, ", ", 1, ")"]
  | .log, 1 => ["LN(", 0, ")"]
  | .log, _ => ["(LN(", 0, ") / LN(", 1, "))"]
  | .log10, _ => ["LOG10(", 0, ")"]

/-- Forms of rounding. -/
def rounding (r : Rounding) (args : Nat) : Template :=
  match r, args with
  | .round, 1 => ["ROUND(", 0, ", 0)"]
  | .round, _ => ["ROUND(", 0, ", ", 1, ")"]
  | .truncate, _ => ["TRUNC(", 0, ")"]
  | .ceiling, _ => ["CEILING(", 0, ")"]
  | .floor, _ => ["FLOOR(", 0, ")"]

/-- Forms of methods. Comparisons, concatenation, membership and the days between two dates have
    forms of their own. -/
def method (m : Method) (args : Nat) : Option Template :=
  match m with
  | .string m => stringMethod m args
  | .shift unit => some (shift unit)
  | .decimal m => some (decimalMethod m)
  | .math m => some (mathMethod m args)
  | .rounding r => some (rounding r args)
  | .toText => some ["CAST(", 0, " AS VARCHAR)"]
  | .daysBetween | .membership | .compare | .compareTo => none

/-- Forms of operators that are not infix. -/
def binary (op : BinaryOp) (left _right : ValueKind) : Option Template :=
  match op with
  | .power => some ["(", 0, " ^ ", 1, ")"]
  | .leftShift => some ["(", 0, " * POWER(2, ", 1, "))"]
  | .rightShift => some ["(", 0, " / POWER(2, ", 1, "))"]
  | .exclusiveOr =>
    if left = .boolean then some ["(", 0, " <> ", 1, ")"]
    else some ["((", 0, " | ", 1, ") - (", 0, " & ", 1, "))"]
  | _ => none

/-- Infix tokens. -/
def operator (op : BinaryOp) (boolean : Bool) : Option String :=
  match op with
  | .equal => some "="
  | .notEqual => some "<>"
  | .lessThan => some "<"
  | .lessThanOrEqual => some "<="
  | .greaterThan => some ">"
  | .greaterThanOrEqual => some ">="
  | .andAlso => some "and"
  | .orElse => some "or"
  | .and => some (if boolean then "and" else "&")
  | .or => some (if boolean then "or" else "|")
  | .add => some "+"
  | .subtract => some "-"
  | .multiply => some "*"
  | .divide => some "/"
  | .modulo => some "%"
  | .exclusiveOr | .power | .coalesce | .leftShift | .rightShift => none

/-- Texts before the operand of a unary operator. -/
def unary (op : UnaryOp) (operand : ValueKind) : Option String :=
  match op with
  | .not => some (if operand = .boolean then "not " else "~")
  | .negate => some "-"
  | .plus | .convert => some ""

/-- Forms of constructors: a date from three parts, a moment from six. -/
def construct (type : HostKind) (args : Nat) : Option Template :=
  match type, args with
  | .dateTime, 3 => some ["CAST(", 0, " || '-' || ", 1, " || '-' || ", 2, " AS DATE)"]
  | .dateTime, 6 =>
    some ["CAST(", 0, " || '-' || ", 1, " || '-' || ", 2, " || ' ' || ", 3, " || ':' || ", 4,
      " || ':' || ", 5, " AS TIMESTAMP)"]
  | _, _ => none

/-! ### Literals -/

/-- A text as a string literal. -/
def quoted (cs : List Char) : String :=
  String.ofList (Text.quote cs)

/-- Bytes as pairs of hexadecimal digits. -/
def hex (bs : List UInt8) : String :=
  String.ofList (bs.flatMap Text.hexByte)

/-- A local time and its offset, with milliseconds where there is anything below the second. -/
def offsetText (m : OffsetDateTime) : List Char :=
  m.localTime.milliText ++ ' ' :: m.offsetText

/-- Literals of values. Numbers that are not finite have none. -/
def literal : Value → Option String
  | .null => some "NULL"
  | .bool b => some (if b then "1" else "0")
  | .int n => some n.val.repr
  | .float p x => if x.isFinite then some (x.text p) else none
  | .decimal d => some d.text
  | .string s => some (quoted s.toList)
  | .char c => some (quoted [c])
  | .dateTime dt => some ("TIMESTAMP '" ++ String.ofList dt.milliText ++ "'")
  | .dateTimeOffset m => some ("TIMESTAMP '" ++ String.ofList (offsetText m) ++ "'")
  | .time t => some ("TIME '" ++ String.ofList t.milliText ++ "'")
  | .bytes bs => some ("X'" ++ hex bs ++ "'")
  | .guid g => some (quoted g.text.toList)

/-- The generic dialect. -/
def rules : Rules where
  name := "generic"
  paramMark := "@"
  types := .unbounded
  property := property
  method := method
  binary := binary
  operator := operator
  unary := unary
  construct := construct
  literal := literal
  dateDiff := ["TIMESTAMPDIFF(DAY, ", 1, ", ", 0, ")"]
  compare := ["(case when ", 0, " = ", 1, " then 0 when ", 0, " < ", 1, " then -1 else 1 end)"]
  valueCoercion := ["(case when ", 0, " then 1 else 0 end)"]
  predicateCoercion := ["(", 0, " <> 0)"]
  concat := .infixed " || "
  coalesce := .flatten
  conditional := .case

end Generic

end WhereClause
