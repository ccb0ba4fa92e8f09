namespace WhereClause

/-!
# Methods and properties

The methods and properties that predicates may use, by the family of the type that declares them. A
predicate names them by text, and only names known to their family have a meaning.

- `Family`: where a method or property is declared
- `Method`, `Family.method?`: the known methods, and their lookup by name
- `Method.signature`: whether a method has a receiver, and how many arguments it takes
- `Property`, `Family.property?`: the known properties, and their lookup by name
-/

/-- The family of types that declares a method or property. -/
inductive Family where
  | string
  | date
  | decimal
  | math
  | other
  deriving DecidableEq

namespace Family

/-- All families. -/
def all : List Family := [string, date, decimal, math, other]

/-- The name of a family in documents. -/
def name : Family → String
  | string => "StringOps"
  | date => "DateOps"
  | decimal => "DecimalOps"
  | math => "MathOps"
  | other => "Other"

/-- The name of a family in messages. -/
def text : Family → String
  | string => "string"
  | date => "DateTime"
  | decimal => "decimal"
  | math => "Math"
  | other => "object"

end Family

/-! ### Methods -/

/-- Units by which a date is moved. -/
inductive DateUnit where
  | years
  | months
  | days
  | hours
  | minutes
  | seconds
  | milliseconds
  deriving DecidableEq

/-- Ways to round, shared by decimals and floating-point numbers. -/
inductive Rounding where
  | round
  | truncate
  | ceiling
  | floor
  deriving DecidableEq

/-- Methods of strings. -/
inductive StringMethod where
  | startsWith
  | endsWith
  | contains
  | toUpper
  | toLower
  | trim
  | substring
  | indexOf
  | replace
  | remove
  | isNullOrEmpty
  | concat
  deriving DecidableEq

/-- Arithmetic on decimals. -/
inductive DecimalMethod where
  | add
  | subtract
  | multiply
  | divide
  | remainder
  | negate
  deriving DecidableEq

/-- Functions on floating-point numbers. -/
inductive MathMethod where
  | abs
  | acos
  | asin
  | atan
  | atan2
  | cos
  | exp
  | sin
  | tan
  | sqrt
  | sign
  | pow
  | log
  | log10
  deriving DecidableEq

/-- The known methods. `membership` asks whether an array holds a value; `compare` and `compareTo`
    order two values; `toText` is known to every family. -/
inductive Method where
  | string (m : StringMethod)
  | shift (unit : DateUnit)
  | daysBetween
  | decimal (m : DecimalMethod)
  | math (m : MathMethod)
  | rounding (r : Rounding)
  | membership
  | compare
  | compareTo
  | toText
  deriving DecidableEq

/-- The shape of a method: with a receiver or without, and the least and greatest number of
    arguments, the latter absent if there is no limit. -/
structure Signature where
  hasReceiver : Bool
  minArgs : Nat
  maxArgs : Option Nat
  deriving DecidableEq

namespace Signature

/-- A number of arguments that fits. -/
def admits (s : Signature) (args : Nat) : Bool :=
  s.minArgs ≤ args && (match s.maxArgs with | some n => args ≤ n | none => true)

/-- The numbers of arguments that fit, in messages. -/
def arityText (s : Signature) : String :=
  match s.maxArgs with
  | none => "at least " ++ s.minArgs.repr
  | some n => if s.minArgs = n then n.repr else s.minArgs.repr ++ "..=" ++ n.repr

end Signature

namespace Method

/-- A method of a receiver. -/
def onReceiver (least most : Nat) : Signature := ⟨true, least, some most⟩

/-- A method without receiver. -/
def standalone (least most : Nat) : Signature := ⟨false, least, some most⟩

/-- The shape of a string method. -/
def stringSignature : StringMethod → Signature
  | .startsWith | .endsWith | .contains => onReceiver 1 1
  | .toUpper | .toLower | .trim => onReceiver 0 0
  | .substring | .indexOf | .remove => onReceiver 1 2
  | .replace => onReceiver 2 2
  | .isNullOrEmpty => standalone 1 1
  | .concat => ⟨false, 1, none⟩

/-- The shape of decimal arithmetic. -/
def decimalSignature : DecimalMethod → Signature
  | .negate => standalone 1 1
  | _ => standalone 2 2

/-- The shape of a function on floating-point numbers. -/
def mathSignature : MathMethod → Signature
  | .atan2 | .pow => standalone 2 2
  | .log => standalone 1 2
  | _ => standalone 1 1

/-- The shape of a method. -/
def signature : Method → Signature
  | string m => stringSignature m
  | shift _ => onReceiver 1 1
  | daysBetween => standalone 2 2
  | decimal m => decimalSignature m
  | math m => mathSignature m
  | rounding .round => standalone 1 2
  | rounding _ => standalone 1 1
  | membership => onReceiver 1 1
  | compare => standalone 2 2
  | compareTo => onReceiver 1 1
  | toText => onReceiver 0 0

end Method

namespace Family

/-- Names of the string methods. -/
def stringMethod? : String → Option Method
  | "StartsWith" => some (.string .startsWith)
  | "EndsWith" => some (.string .endsWith)
  | "Contains" => some (.string .contains)
  | "ToUpper" => some (.string .toUpper)
  | "ToLower" => some (.string .toLower)
  | "Trim" => some (.string .trim)
  | "Substring" => some (.string .substring)
  | "IndexOf" => some (.string .indexOf)
  | "Replace" => some (.string .replace)
  | "Remove" => some (.string .remove)
  | "IsNullOrEmpty" => some (.string .isNullOrEmpty)
  | "Concat" => some (.string .concat)
  | "Compare" => some .compare
  | _ => none

/-- Names of the date methods. -/
def dateMethod? : String → Option Method
  | "AddYears" => some (.shift .years)
  | "AddMonths" => some (.shift .months)
  | "AddDays" => some (.shift .days)
  | "AddHours" => some (.shift .hours)
  | "AddMinutes" => some (.shift .minutes)
  | "AddSeconds" => some (.shift .seconds)
  | "AddMilliseconds" => some (.shift .milliseconds)
  | "Subtract" => some .daysBetween
  | "Compare" => some .compare
  | _ => none

/-- Names of the ways to round. -/
def rounding? : String → Option Method
  | "Round" => some (.rounding .round)
  | "Truncate" => some (.rounding .truncate)
  | "Ceiling" => some (.rounding .ceiling)
  | "Floor" => some (.rounding .floor)
  | _ => none

/-- Names of the decimal methods. -/
def decimalMethod? : String → Option Method
  | "Add" => some (.decimal .add)
  | "Subtract" => some (.decimal .subtract)
  | "Multiply" => some (.decimal .multiply)
  | "Divide" => some (.decimal .divide)
  | "Remainder" => some (.decimal .remainder)
  | "Negate" => some (.decimal .negate)
  | "Compare" => some .compare
  | name => rounding? name

/-- Names of the functions on floating-point numbers. -/
def mathMethod? : String → Option Method
  | "Abs" => some (.math .abs)
  | "Acos" => some (.math .acos)
  | "Asin" => some (.math .asin)
  | "Atan" => some (.math .atan)
  | "Atan2" => some (.math .atan2)
  | "Cos" => some (.math .cos)
  | "Exp" => some (.math .exp)
  | "Sin" => some (.math .sin)
  | "Tan" => some (.math .tan)
  | "Sqrt" => some (.math .sqrt)
  | "Sign" => some (.math .sign)
  | "Pow" => some (.math .pow)
  | "Log" => some (.math .log)
  | "Log10" => some (.math .log10)
  | name => rounding? name

/-- Names of the methods of all other types. -/
def otherMethod? : String → Option Method
  | "Contains" => some .membership
  | "Compare" => some .compare
  | _ => none

/-- Names that every family knows. -/
def universalMethod? : String → Option Method
  | "ToString" => some .toText
  | "CompareTo" => some .compareTo
  | _ => none

/-- The method that a family knows by a name. -/
def method? (family : Family) (name : String) : Option Method :=
  let own := match family with
    | string => stringMethod? name
    | date => dateMethod? name
    | decimal => decimalMethod? name
    | math => mathMethod? name
    | other => otherMethod? name
  match own with
  | some m => some m
  | none => universalMethod? name

end Family

/-! ### Properties -/

/-- Parts of a date. -/
inductive DatePart where
  | year
  | month
  | day
  | hour
  | minute
  | second
  | millisecond
  | dayOfWeek
  | dayOfYear
  deriving DecidableEq

/-- The known properties: the length of a string and the parts of a date. -/
inductive Property where
  | length
  | part (p : DatePart)
  deriving DecidableEq

namespace Family

/-- Names of the parts of a date. -/
def datePart? : String → Option DatePart
  | "Year" => some .year
  | "Month" => some .month
  | "Day" => some .day
  | "Hour" => some .hour
  | "Minute" => some .minute
  | "Second" => some .second
  | "Millisecond" => some .millisecond
  | "DayOfWeek" => some .dayOfWeek
  | "DayOfYear" => some .dayOfYear
  | _ => none

/-- The property that a family knows by a name. -/
def property? (family : Family) (name : String) : Option Property :=
  match family with
  | string => if name = "Length" then some .length else none
  | date => (datePart? name).map .part
  | _ => none

end Family

end WhereClause
