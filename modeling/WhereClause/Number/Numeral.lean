import WhereClause.Number.Floating

namespace WhereClause

/-!
# Numerals

Numbers as they are spelled: a sign, digits before and after a point, and a power of ten.

- `Numeral`: the spelled numbers
- `Numeral.text`: the spelling
- `Numeral.floating?`: the value that a reader gives which keeps as many digits as fit into 64 bits
  and then scales by a power of ten
-/

/-- A spelled number. Without digits after the point there is no point, and an exponent of zero is
    not written. -/
structure Numeral where
  negative : Bool
  whole : List Nat
  fraction : List Nat
  exponent : Int
  deriving DecidableEq

namespace Numeral

/-- An exponent with its mark and its sign, which is written also if it is positive. -/
def exponentText (e : Int) : List Char :=
  if e = 0 then [] else 'e' :: (if e < 0 then '-' else '+') :: Text.decimal e.natAbs

/-- A numeral as text. -/
def text (n : Numeral) : List Char :=
  (if n.negative then ['-'] else []) ++ n.whole.map Nat.digitChar ++
    (if n.fraction.isEmpty then [] else '.' :: n.fraction.map Nat.digitChar) ++
    exponentText n.exponent

/-! ### Reading by accumulation -/

/-- Greatest number that fits into 64 bits. -/
def wordMax : Nat := 0xffffffffffffffff

/-- Digits taken into a number as long as it fits, and how many of them were taken. -/
def accumulate : Nat → List Nat → Nat × Nat
  | n, [] => (n, 0)
  | n, d :: ds =>
    if n * 10 + d ≤ wordMax then
      let (m, taken) := accumulate (n * 10 + d) ds
      (m, taken + 1)
    else (n, 0)

/-- The digits of a numeral as a number of 64 bits, and the power of ten that it lacks. Whole digits
    that do not fit count as zeros; those after the point are left out. -/
def accumulated (n : Numeral) : Nat × Int :=
  let (whole, taken) := accumulate 0 n.whole
  let (all, places) := accumulate whole n.fraction
  (all, ((n.whole.length - taken : Nat) : Int) - places + n.exponent)

/-- Greatest power of ten in the double format. -/
def maxPower : Nat := 308

/-- A value divided by a power of ten, in steps of the greatest power that the format has. At most
    `fuel` steps are made. -/
def divideByPower : (fuel : Nat) → Floating → (power : Nat) → Floating
  | 0, x, _ => x
  | fuel + 1, x, power =>
    if power ≤ maxPower then x.div .double (.powTen .double power)
    else divideByPower fuel (x.div .double (.powTen .double maxPower)) (power - maxPower)

/-- The value of a numeral in the double format; absent if it is too large. Three divisions take
    every number of 64 bits to zero. -/
def floating? (n : Numeral) : Option Floating :=
  let (digits, e) := n.accumulated
  let x := Floating.nearest .double n.negative digits 1
  if digits = 0 then some x
  else if e < 0 then some (divideByPower 3 x (-e).toNat)
  else if maxPower < e then none
  else
    let y := x.mul .double (.powTen .double e.toNat)
    if y.isFinite then some y else none

end Numeral

end WhereClause
