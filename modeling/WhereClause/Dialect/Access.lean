import WhereClause.Dialect.Generic

namespace WhereClause

/-!
# Microsoft Access

Function names of Basic, `IIF` in place of `case`, and -1 for true. Comparisons already are such
numbers, so a condition needs no coercion to be used as a value.
-/

namespace Access

/-- Forms of properties. The weekday counts from one on Sunday; there are no milliseconds. -/
def property : Property → Option Template
  | .length => some ["Len(", 0, ")"]
  | .part .year => some ["Year(", 0, ")"]
  | .part .month => some ["Month(", 0, ")"]
  | .part .day => some ["Day(", 0, ")"]
  | .part .hour => some ["Hour(", 0, ")"]
  | .part .minute => some ["Minute(", 0, ")"]
  | .part .second => some ["Second(", 0, ")"]
  | .part .millisecond => none
  | .part .dayOfWeek => some ["(Weekday(", 0, ") - 1)"]
  | .part .dayOfYear => some ["DatePart(\"y\", ", 0, ")"]

/-- Forms of string methods. -/
def stringMethod (m : StringMethod) (args : Nat) : Option Template :=
  match m, args with
  | .startsWith, _ => some ["(", 0, " like ", 1, " + '%')"]
  | .endsWith, _ => some ["(", 0, " like '%' + ", 1, ")"]
  | .contains, _ => some ["(", 0, " like '%' + ", 1, " + '%')"]
  | .toUpper, _ => some ["UCase(", 0, ")"]
  | .toLower, _ => some ["LCase(", 0, ")"]
  | .trim, _ => some ["Trim(", 0, ")"]
  | .substring, 1 => some ["Mid(", 0, ", ", 1, " + 1)"]
  | .substring, _ => some ["Mid(", 0, ", ", 1, " + 1, ", 2, ")"]
  | .indexOf, 1 => some ["(InStr(", 0, ", ", 1, ") - 1)"]
  | .indexOf, _ => some ["(InStr(", 2, " + 1, ", 0, ", ", 1, ") - 1)"]
  | .replace, _ => some ["Replace(", 0, ", ", 1, ", ", 2, ")"]
  | .remove, 1 => some ["Left(", 0, ", ", 1, ")"]
  | .remove, _ => some ["(Left(", 0, ", ", 1, ") + Mid(", 0, ", ", 1, " + ", 2, " + 1))"]
  | m, args => Generic.stringMethod m args

/-- Forms of moving a date. -/
def shift : DateUnit → Option Template
  | .years => some ["DateAdd(\"yyyy\", ", 1, ", ", 0, ")"]
  | .months => some ["DateAdd(\"m\", ", 1, ", ", 0, ")"]
  | .days => some ["DateAdd(\"d\", ", 1, ", ", 0, ")"]
  | .hours => some ["DateAdd(\"h\", ", 1, ", ", 0, ")"]
  | .minutes => some ["DateAdd(\"n\", ", 1, ", ", 0, ")"]
  | .seconds => some ["DateAdd(\"s\", ", 1, ", ", 0, ")"]
  | .milliseconds => none

/-- Forms of functions on floating-point numbers. -/
def mathMethod (m : MathMethod) (args : Nat) : Option Template :=
  match m, args with
  | .abs, _ => some ["Abs(", 0, ")"]
  | .atan, _ => some ["Atn(", 0, ")"]
  | .cos, _ => some ["Cos(", 0, ")"]
  | .exp, _ => some ["Exp(", 0, ")"]
  | .sin, _ => some ["Sin(", 0, ")"]
  | .tan, _ => some ["Tan(", 0, ")"]
  | .sqrt, _ => some ["Sqr(", 0, ")"]
  | .sign, _ => some ["Sgn(", 0, ")"]
  | .pow, _ => some ["(", 0, "^", 1, ")"]
  | .log, 1 => some ["Log(", 0, ")"]
  -- There is the natural logarithm only.
  | .log, _ => some ["(Log(", 0, ") / Log(", 1, "))"]
  | .log10, _ => some ["(Log(", 0, ") / Log(10))"]
  | .acos, _ | .asin, _ | .atan2, _ => none

/-- Forms of rounding. The ceiling is the floor of the opposite, negated. -/
def rounding (r : Rounding) (args : Nat) : Template :=
  match r, args with
  | .round, 1 => ["Round(", 0, ", 0)"]
  | .round, _ => ["Round(", 0, ", ", 1, ")"]
  | .truncate, _ => ["Fix(", 0, ")"]
  | .ceiling, _ => ["(-Int(-", 0, "))"]
  | .floor, _ => ["Int(", 0, ")"]

/-- Forms of methods. -/
def method (m : Method) (args : Nat) : Option Template :=
  match m with
  | .string m => stringMethod m args
  | .shift unit => shift unit
  | .decimal .remainder => some ["(", 0, " MOD ", 1, ")"]
  | .math m => mathMethod m args
  | .rounding r => some (rounding r args)
  | .toText => some ["CStr(", 0, ")"]
  | m => Generic.method m args

/-- Forms of operators that are not infix. -/
def binary (op : BinaryOp) (left right : ValueKind) : Option Template :=
  match op with
  | .power => some ["(", 0, "^", 1, ")"]
  | .leftShift => some ["(", 0, " * (2^", 1, "))"]
  | .rightShift => some ["(", 0, " \\ (2^", 1, "))"]
  | .divide =>
    if left = .integer ∧ right = .integer then some ["Fix(", 0, " / ", 1, ")"]
    else Generic.binary op left right
  | .exclusiveOr => if left = .boolean then Generic.binary op left right else none
  | _ => Generic.binary op left right

/-- Infix tokens. -/
def operator (op : BinaryOp) (boolean : Bool) : Option String :=
  match op with
  | .and => if boolean then Generic.operator op boolean else some "BAND"
  | .or => if boolean then Generic.operator op boolean else some "BOR"
  | .exclusiveOr => some "XOR"
  | .modulo => some "MOD"
  | _ => Generic.operator op boolean

/-- Texts before the operand of a unary operator. -/
def unary (op : UnaryOp) (operand : ValueKind) : Option String :=
  match op with
  | .not => some "not "
  | _ => Generic.unary op operand

/-- Forms of constructors. -/
def construct (type : HostKind) (args : Nat) : Option Template :=
  match type, args with
  | .dateTime, 3 => some ["DateSerial(", 0, ", ", 1, ", ", 2, ")"]
  | .dateTime, 6 =>
    some ["(DateSerial(", 0, ", ", 1, ", ", 2, ") + TimeSerial(", 3, ", ", 4, ", ", 5, "))"]
  | _, _ => none

/-- Literals of values. Moments are in universal time, fractions of a second are cut off, and bytes
    have no literal. -/
def literal : Value → Option String
  | .bool b => some (if b then "-1" else "0")
  | .dateTime dt => some ("#" ++ String.ofList dt.clockText ++ "#")
  | .dateTimeOffset m => some ("#" ++ String.ofList m.utc.clockText ++ "#")
  | .time t => some ("#" ++ String.ofList t.clock ++ "#")
  | .bytes _ => none
  | v => Generic.literal v

/-- The dialect. -/
def rules : Rules :=
  { Generic.rules with
    name := "access"
    types := ⟨2000, 4000⟩
    property := property
    method := method
    binary := binary
    operator := operator
    unary := unary
    construct := construct
    literal := literal
    dateDiff := ["DateDiff(\"d\", ", 1, ", ", 0, ")"]
    compare := ["IIF(", 0, " = ", 1, ", 0, IIF(", 0, " < ", 1, ", -1, 1))"]
    valueCoercion := [0]
    concat := .infixed " + "
    coalesce := .nested ["IIF(", 0, " is not null, ", 0, ", ", 1, ")"]
    conditional := .nested ["IIF(", 0, ", ", 1, ", ", 2, ")"] }

end Access

end WhereClause
