import WhereClause.Dialect.Generic

namespace WhereClause

/-!
# Oracle

Parameters are marked by a colon, integer division is cut to a whole number, and bits are combined
by arithmetic on `BITAND`. There is no complement of bits.
-/

namespace Oracle

/-- Forms of properties. The day of the week counts from one on Sunday. -/
def property : Property → Option Template
  | .length => some ["LENGTH(", 0, ")"]
  | .part .millisecond => some ["TO_NUMBER(TO_CHAR(", 0, ", 'FF3'))"]
  | .part .dayOfWeek => some ["(TO_CHAR(", 0, ", 'D') - 1)"]
  | .part .dayOfYear => some ["TO_NUMBER(TO_CHAR(", 0, ", 'DDD'))"]
  | p => Generic.property p

/-- Forms of string methods. -/
def stringMethod (m : StringMethod) (args : Nat) : Option Template :=
  match m, args with
  | .startsWith, _ => some ["(", 0, " like (", 1, " || '%'))"]
  | .endsWith, _ => some ["(", 0, " like ('%' || ", 1, "))"]
  | .contains, _ => some ["(", 0, " like ('%' || ", 1, " || '%'))"]
  | .trim, _ => some ["RTRIM(LTRIM(", 0, "))"]
  | .substring, 1 => some ["SUBSTR(", 0, ", ", 1, " + 1)"]
  | .substring, _ => some ["SUBSTR(", 0, ", ", 1, " + 1, ", 2, ")"]
  | .indexOf, 1 => some ["(INSTR(", 0, ", ", 1, ") - 1)"]
  | .indexOf, _ => some ["(INSTR(", 0, ", ", 1, ", ", 2, " + 1) - 1)"]
  | .remove, 1 => some ["SUBSTR(", 0, ", 1, ", 1, ")"]
  | .remove, _ => some ["(SUBSTR(", 0, ", 1, ", 1, ") || SUBSTR(", 0, ", ", 1, " + ", 2, " + 1))"]
  | m, args => Generic.stringMethod m args

/-- Forms of moving a date. Adding a number to a date adds days. -/
def shift : DateUnit → Template
  | .years => ["ADD_MONTHS(", 0, ", ", 1, " * 12)"]
  | .months => ["ADD_MONTHS(", 0, ", ", 1, ")"]
  | .days => ["(", 0, " + ", 1, ")"]
  | .hours => ["(", 0, " + ", 1, " / 24)"]
  | .minutes => ["(", 0, " + ", 1, " / 1440)"]
  | .seconds => ["(", 0, " + ", 1, " / 86400)"]
  | .milliseconds => ["(", 0, " + ", 1, " / 86400000)"]

/-- Forms of methods. -/
def method (m : Method) (args : Nat) : Option Template :=
  match m, args with
  | .string m, args => stringMethod m args
  | .shift unit, _ => some (shift unit)
  | .decimal .remainder, _ => some ["MOD(", 0, ", ", 1, ")"]
  | .rounding .round, 1 => some ["ROUND(", 0, ")"]
  | .rounding .ceiling, _ => some ["CEIL(", 0, ")"]
  | .math .log, 2 => some ["LOG(", 1, ", ", 0, ")"]
  | .math .log10, _ => some ["LOG(10, ", 0, ")"]
  | .toText, _ => some ["TO_CHAR(", 0, ")"]
  | m, args => Generic.method m args

/-- Forms of operators that are not infix. -/
def binary (op : BinaryOp) (left right : ValueKind) : Option Template :=
  match op with
  | .power => some ["POWER(", 0, ", ", 1, ")"]
  | .divide =>
    if left = .integer ∧ right = .integer then some ["TRUNC(", 0, " / ", 1, ")"]
    else Generic.binary op left right
  | .rightShift => some ["TRUNC(", 0, " / POWER(2, ", 1, "))"]
  | .modulo => some ["MOD(", 0, ", ", 1, ")"]
  | .and =>
    if left = .boolean then Generic.binary op left right else some ["BITAND(", 0, ", ", 1, ")"]
  | .or =>
    if left = .boolean then Generic.binary op left right
    else some ["(", 0, " + ", 1, " - BITAND(", 0, ", ", 1, "))"]
  | .exclusiveOr =>
    if left = .boolean then Generic.binary op left right
    else some ["(", 0, " + ", 1, " - 2 * BITAND(", 0, ", ", 1, "))"]
  | _ => Generic.binary op left right

/-- Texts before the operand of a unary operator. -/
def unary (op : UnaryOp) (operand : ValueKind) : Option String :=
  match op with
  | .not => if operand = .boolean then Generic.unary op operand else none
  | _ => Generic.unary op operand

/-- Forms of constructors. -/
def construct (type : HostKind) (args : Nat) : Option Template :=
  match type, args with
  | .dateTime, 3 => some ["TO_DATE(", 0, " || '-' || ", 1, " || '-' || ", 2, ", 'yyyy-mm-dd')"]
  | .dateTime, 6 =>
    some ["TO_DATE(", 0, " || '-' || ", 1, " || '-' || ", 2, " || ' ' || ", 3, " || ':' || ", 4,
      " || ':' || ", 5, ", 'yyyy-mm-dd hh24:mi:ss')"]
  | _, _ => none

/-- Literals of values. Fractions of a second are cut off. -/
def literal : Value → Option String
  | .dateTime dt =>
    some ("TO_DATE('" ++ String.ofList dt.clockText ++ "', 'yyyy-mm-dd hh24:mi:ss')")
  | .dateTimeOffset m =>
    some ("TO_TIMESTAMP_TZ('" ++ String.ofList (m.localTime.clockText ++ ' ' :: m.offsetText) ++
      "', 'yyyy-mm-dd hh24:mi:ss tzh:tzm')")
  | .time t => some ("TO_DATE('" ++ String.ofList t.clock ++ "', 'hh24:mi:ss')")
  | .bytes bs => some ("HEXTORAW('" ++ Generic.hex bs ++ "')")
  | v => Generic.literal v

/-- The dialect. -/
def rules : Rules :=
  { Generic.rules with
    name := "oracle"
    paramMark := ":"
    property := property
    method := method
    binary := binary
    unary := unary
    construct := construct
    literal := literal
    dateDiff := ["TRUNC(", 0, " - ", 1, ")"] }

end Oracle

end WhereClause
