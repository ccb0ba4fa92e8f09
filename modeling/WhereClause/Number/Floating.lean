import WhereClause.Text.Digits

namespace WhereClause

/-!
# Binary floating-point values

The two interchange formats, and their values as a sign, a whole significand and a power of two. All
rounding is to nearest with ties to even, done in exact arithmetic on quotients of natural numbers.

- `Floating`: a value of either format
- `Floating.nearest`: the value nearest to a quotient
- `Floating.ofInt`, `Floating.convert`, `Floating.mul`, `Floating.div`: rounded operations
- `Floating.parse?`: the value nearest to a written number
-/

/-- The binary interchange formats of 32 and 64 bits. -/
inductive Precision where
  | single
  | double
  deriving DecidableEq

namespace Precision

/-- Number of significand bits. -/
def bits : Precision → Nat
  | single => 24
  | double => 53

/-- Exponent of the last significand bit of the smallest values. -/
def minExponent : Precision → Int
  | single => -149
  | double => -1074

/-- Exponent of the last significand bit of the largest values. -/
def maxExponent : Precision → Int
  | single => 104
  | double => 971

end Precision

/-- A floating-point value. A finite one is `significand * 2 ^ exponent`, with its sign apart so
    that zero keeps one; its significand fills the format's bits unless the exponent is the least
    one. -/
inductive Floating where
  | nan
  | infinite (negative : Bool)
  | finite (negative : Bool) (significand : Nat) (exponent : Int)
  deriving DecidableEq

namespace Floating

/-- Neither infinite nor not a number. -/
def isFinite : Floating → Bool
  | finite _ _ _ => true
  | _ => false

/-- `num / den` as a multiple of `2 ^ e`: the quotient rounded down, and the remainder with its
    divisor. -/
def scaledQuotient (num den : Nat) (e : Int) : Nat × Nat × Nat :=
  let n := num * Nat.pow 2 (-e).toNat
  let d := den * Nat.pow 2 e.toNat
  (n / d, n % d, d)

/-- The value of format `p` nearest to `± num / den`, where `den` is positive. -/
def nearest (p : Precision) (negative : Bool) (num den : Nat) : Floating :=
  if num = 0 then
    finite negative 0 p.minExponent
  else
    -- The quotient lies strictly between `2 ^ (bits - 1)` and `2 ^ (bits + 1)` units of `2 ^ e`.
    let e : Int := (num.log2 : Int) - den.log2 - p.bits
    let e := if Nat.pow 2 p.bits ≤ (scaledQuotient num den e).1 then e + 1 else e
    let e := if e < p.minExponent then p.minExponent else e
    let (q, r, d) := scaledQuotient num den e
    let q := if d < 2 * r ∨ (2 * r = d ∧ q % 2 = 1) then q + 1 else q
    let (q, e) := if q = Nat.pow 2 p.bits then (Nat.pow 2 (p.bits - 1), e + 1) else (q, e)
    if p.maxExponent < e then infinite negative else finite negative q e

/-- The value nearest to an integer. -/
def ofInt (p : Precision) (n : Int) : Floating :=
  nearest p (n < 0) n.natAbs 1

/-- The magnitude of a finite value as a quotient. -/
def ratio (significand : Nat) (exponent : Int) : Nat × Nat :=
  (significand * Nat.pow 2 exponent.toNat, Nat.pow 2 (-exponent).toNat)

/-- A value in another format, rounded if it has too many bits. -/
def convert (p : Precision) : Floating → Floating
  | finite negative m e => let (num, den) := ratio m e; nearest p negative num den
  | x => x

/-- The opposite value. -/
def neg : Floating → Floating
  | nan => nan
  | infinite negative => infinite !negative
  | finite negative m e => finite (!negative) m e

/-- Rounded product of finite values; anything else gives no number. -/
def mul (p : Precision) : Floating → Floating → Floating
  | finite s m e, finite t n f =>
    let (a, b) := ratio m e
    let (c, d) := ratio n f
    nearest p (s != t) (a * c) (b * d)
  | _, _ => nan

/-- Rounded quotient of a finite value by a finite one other than zero; anything else gives no
    number. -/
def div (p : Precision) : Floating → Floating → Floating
  | finite s m e, finite t n f =>
    let (a, b) := ratio m e
    let (c, d) := ratio n f
    if c = 0 then nan else nearest p (s != t) (a * d) (b * c)
  | _, _ => nan

/-- Ten to a natural power, rounded. -/
def powTen (p : Precision) (k : Nat) : Floating :=
  nearest p false (Nat.pow 10 k) 1

/-- The value nearest to `± digits * 10 ^ exponent`. Beyond the range of the format the answer does
    not depend on the power any more, so large powers are not computed. -/
def ofScientific (p : Precision) (negative : Bool) (digits : Nat) (exponent : Int) : Floating :=
  if digits = 0 then nearest p negative 0 1
  else if 400 < exponent then infinite negative
  else if exponent < -400 - (Text.decimal digits).length then nearest p negative 0 1
  else nearest p negative (digits * Nat.pow 10 exponent.toNat) (Nat.pow 10 (-exponent).toNat)

/-! ### Reading -/

/-- An exponent mark with its sign and digits, or nothing. `none` for a mark without digits. -/
def readExponent : List Char → Option (Int × List Char)
  | c :: rest =>
    if c = 'e' ∨ c = 'E' then
      let (negative, rest) := match rest with
        | '+' :: r => (false, r)
        | '-' :: r => (true, r)
        | r => (false, r)
      match Text.spanDigits rest with
      | ([], _) => none
      | (ds, r) =>
        let n : Int := Text.ofDigits 10 ds
        some (if negative then -n else n, r)
    else some (0, c :: rest)
  | [] => some (0, [])

/-- A number written with digits, a point and an exponent; digits stand on at least one side of the
    point. -/
def parseDigits? (p : Precision) (negative : Bool) (cs : List Char) : Option Floating :=
  let (whole, rest) := Text.spanDigits cs
  let (fraction, rest) := match rest with
    | '.' :: r => Text.spanDigits r
    | r => ([], r)
  if whole.isEmpty && fraction.isEmpty then none
  else match readExponent rest with
    | some (e, []) =>
      some (ofScientific p negative (Text.ofDigits 10 (whole ++ fraction)) (e - fraction.length))
    | _ => none

/-- The value that a text names: a sign, then digits, `inf`, `infinity` or `nan` in any case. -/
def parse? (p : Precision) (text : String) : Option Floating :=
  let (negative, cs) := match text.toList with
    | '-' :: r => (true, r)
    | '+' :: r => (false, r)
    | r => (false, r)
  match String.ofList (cs.map Char.toLower) with
  | "inf" => some (infinite negative)
  | "infinity" => some (infinite negative)
  | "nan" => some nan
  | _ => parseDigits? p negative cs

end Floating

end WhereClause
