import WhereClause.Dialect

namespace WhereClause

/-!
# Enumerations

Lists of everything there is of a kind: methods, properties, operators, kinds and dialects. With
them a statement about all of these can be decided. Each method goes by one name, so that what is
known of a method is known of its name.

* `Method.all`, `Method.mem_all` — the methods, and likewise for the other kinds;
* `Method.args_lt_three` — calls have few arguments, so that these can be listed too;
* `Family.name_of_method?` — what a name that a family knows says of the method.
-/

namespace StringMethod

/-- All string methods. -/
def all : List StringMethod :=
  [startsWith, endsWith, contains, toUpper, toLower, trim, substring, indexOf, replace, remove,
    isNullOrEmpty, concat]

/-- No method on strings is left out. -/
theorem mem_all (m : StringMethod) : m ∈ all := by cases m <;> decide

end StringMethod

namespace DateUnit

/-- All units. -/
def all : List DateUnit := [years, months, days, hours, minutes, seconds, milliseconds]

/-- No unit of dates is left out. -/
theorem mem_all (u : DateUnit) : u ∈ all := by cases u <;> decide

end DateUnit

namespace DecimalMethod

/-- All decimal methods. -/
def all : List DecimalMethod := [add, subtract, multiply, divide, remainder, negate]

/-- No method on decimals is left out. -/
theorem mem_all (m : DecimalMethod) : m ∈ all := by cases m <;> decide

end DecimalMethod

namespace MathMethod

/-- All functions on floating-point numbers. -/
def all : List MathMethod :=
  [abs, acos, asin, atan, atan2, cos, exp, sin, tan, sqrt, sign, pow, log, log10]

/-- No method on numbers is left out. -/
theorem mem_all (m : MathMethod) : m ∈ all := by cases m <;> decide

end MathMethod

namespace Rounding

/-- All ways to round. -/
def all : List Rounding := [round, truncate, ceiling, floor]

/-- No way to round is left out. -/
theorem mem_all (r : Rounding) : r ∈ all := by cases r <;> decide

end Rounding

namespace Method

/-- All methods. -/
def all : List Method :=
  StringMethod.all.map string ++ DateUnit.all.map shift ++ DecimalMethod.all.map decimal ++
    MathMethod.all.map math ++ Rounding.all.map rounding ++
    [daysBetween, membership, compare, compareTo, toText]

/-- No method is left out, of any family. -/
theorem mem_all (m : Method) : m ∈ all := by
  cases m with
  | string m => simp [all, StringMethod.mem_all]
  | shift u => simp [all, DateUnit.mem_all]
  | decimal m => simp [all, DecimalMethod.mem_all]
  | math m => simp [all, MathMethod.mem_all]
  | rounding r => simp [all, Rounding.mem_all]
  | daysBetween => simp [all]
  | membership => simp [all]
  | compare => simp [all]
  | compareTo => simp [all]
  | toText => simp [all]

/-- Only a concatenation takes more than two arguments. -/
theorem args_lt_three {m : Method} {n : Nat} (hm : m ≠ .string .concat)
    (h : m.signature.admits n) : n < 3 := by
  have hall : ∀ m ∈ all, m ≠ .string .concat → ∃ k < 3, m.signature.maxArgs = some k := by decide
  obtain ⟨k, hk, hmax⟩ := hall m m.mem_all hm
  simp only [Signature.admits, hmax, Bool.and_eq_true, decide_eq_true_eq] at h
  omega

end Method

namespace DatePart

/-- All parts of a date. -/
def all : List DatePart :=
  [year, month, day, hour, minute, second, millisecond, dayOfWeek, dayOfYear]

/-- No part of a date is left out. -/
theorem mem_all (p : DatePart) : p ∈ all := by cases p <;> decide

end DatePart

namespace Property

/-- All properties. -/
def all : List Property := length :: DatePart.all.map part

/-- No property is left out. -/
theorem mem_all (p : Property) : p ∈ all := by
  cases p with
  | length => simp [all]
  | part p => simp [all, DatePart.mem_all]

end Property

/-- No binary operator is left out. -/
theorem BinaryOp.mem_all (op : BinaryOp) : op ∈ BinaryOp.all := by cases op <;> decide

/-- No unary operator is left out. -/
theorem UnaryOp.mem_all (op : UnaryOp) : op ∈ UnaryOp.all := by cases op <;> decide

/-- No kind is left out. -/
theorem ValueKind.mem_all (k : ValueKind) : k ∈ ValueKind.all := by cases k <;> decide

/-- No dialect is left out. -/
theorem Dialect.mem_all (d : Dialect) : d ∈ Dialect.all := by cases d <;> decide

/-! ### Names of methods -/

/-- The name of a string method. -/
def StringMethod.name : StringMethod → String
  | startsWith => "StartsWith"
  | endsWith => "EndsWith"
  | contains => "Contains"
  | toUpper => "ToUpper"
  | toLower => "ToLower"
  | trim => "Trim"
  | substring => "Substring"
  | indexOf => "IndexOf"
  | replace => "Replace"
  | remove => "Remove"
  | isNullOrEmpty => "IsNullOrEmpty"
  | concat => "Concat"

/-- The name of moving a date by a unit. -/
def DateUnit.name : DateUnit → String
  | years => "AddYears"
  | months => "AddMonths"
  | days => "AddDays"
  | hours => "AddHours"
  | minutes => "AddMinutes"
  | seconds => "AddSeconds"
  | milliseconds => "AddMilliseconds"

/-- The name of a decimal method. -/
def DecimalMethod.name : DecimalMethod → String
  | add => "Add"
  | subtract => "Subtract"
  | multiply => "Multiply"
  | divide => "Divide"
  | remainder => "Remainder"
  | negate => "Negate"

/-- The name of a function on floating-point numbers. -/
def MathMethod.name : MathMethod → String
  | abs => "Abs"
  | acos => "Acos"
  | asin => "Asin"
  | atan => "Atan"
  | atan2 => "Atan2"
  | cos => "Cos"
  | exp => "Exp"
  | sin => "Sin"
  | tan => "Tan"
  | sqrt => "Sqrt"
  | sign => "Sign"
  | pow => "Pow"
  | log => "Log"
  | log10 => "Log10"

/-- The name of a way to round. -/
def Rounding.name : Rounding → String
  | round => "Round"
  | truncate => "Truncate"
  | ceiling => "Ceiling"
  | floor => "Floor"

namespace Method

/-- The name of a method, which is the same in all families that know it. -/
def name : Method → String
  | string m => m.name
  | shift unit => unit.name
  | decimal m => m.name
  | math m => m.name
  | rounding r => r.name
  | daysBetween => "Subtract"
  | membership => "Contains"
  | compare => "Compare"
  | compareTo => "CompareTo"
  | toText => "ToString"

/-- The families that know a method. -/
def isKnownTo (family : Family) : Method → Bool
  | string _ => family = .string
  | shift _ | daysBetween => family = .date
  | decimal _ => family = .decimal
  | math _ => family = .math
  | rounding _ => family = .decimal || family = .math
  | membership => family = .other
  | compare => family ≠ .math
  | compareTo | toText => true

end Method

namespace Family

/-- A way to round is known by its name, to decimals and to other numbers alike. -/
theorem name_of_rounding? {name : String} {m : Method} (h : rounding? name = some m) :
    name = m.name ∧ m.isKnownTo .decimal ∧ m.isKnownTo .math := by
  unfold rounding? at h
  split at h <;> cases h <;> exact ⟨rfl, rfl, rfl⟩

/-- A method of all families is known by its name to each of them. -/
theorem name_of_universalMethod? {name : String} {m : Method} (h : universalMethod? name = some m)
    (family : Family) : name = m.name ∧ m.isKnownTo family := by
  unfold universalMethod? at h
  split at h <;> cases h <;> exact ⟨rfl, rfl⟩

/-- A family knows a method by its name only. -/
theorem name_of_method? {family : Family} {name : String} {m : Method}
    (h : family.method? name = some m) : name = m.name ∧ m.isKnownTo family := by
  simp only [method?] at h
  split at h
  case h_2 => exact name_of_universalMethod? h family
  case h_1 own hown =>
    -- The method is in the table of the family itself.
    obtain rfl := Option.some.inj h
    cases family with
    | string =>
      have htable : stringMethod? name = some own := hown
      unfold stringMethod? at htable
      split at htable <;> cases htable <;> exact ⟨rfl, rfl⟩
    | date =>
      have htable : dateMethod? name = some own := hown
      unfold dateMethod? at htable
      split at htable <;> cases htable <;> exact ⟨rfl, rfl⟩
    | decimal =>
      have htable : decimalMethod? name = some own := hown
      unfold decimalMethod? at htable
      split at htable
      case h_8 =>
        obtain ⟨hname, hdecimal, -⟩ := name_of_rounding? htable
        exact ⟨hname, hdecimal⟩
      all_goals cases htable; exact ⟨rfl, rfl⟩
    | math =>
      have htable : mathMethod? name = some own := hown
      unfold mathMethod? at htable
      split at htable
      case h_15 =>
        obtain ⟨hname, -, hmath⟩ := name_of_rounding? htable
        exact ⟨hname, hmath⟩
      all_goals cases htable; exact ⟨rfl, rfl⟩
    | other =>
      have htable : otherMethod? name = some own := hown
      unfold otherMethod? at htable
      split at htable <;> cases htable <;> exact ⟨rfl, rfl⟩

end Family

end WhereClause
