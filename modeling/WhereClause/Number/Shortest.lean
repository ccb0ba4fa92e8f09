import WhereClause.Number.Floating
import WhereClause.Number.Numeral

namespace WhereClause

/-!
# Shortest decimals

The decimal with the fewest digits that reads back as a given floating-point value, and among those
the nearest one. The search runs over decimal grids of 1, 2, ... 17 digits in exact arithmetic; how
the digits are laid out as text is a separate matter.

- `Shortest.digits`: the digits and the power of ten
- `Shortest.positional`: the layout without an exponent
- `Shortest.numeral`: the layout that turns to an exponent far from one
-/

namespace Shortest

/-- Which of two equally near decimals is taken. -/
inductive Tie where
  | up
  | even
  deriving DecidableEq

/-- A decimal `digits * 10 ^ exponent`. -/
structure Scaled where
  digits : Nat
  exponent : Int
  deriving DecidableEq

/-- The power of ten of the leading digit of `num / den`. -/
def leadingExponent (num den : Nat) : Int :=
  let e : Int := ((Text.decimal num).length : Int) - (Text.decimal den).length
  if den * Nat.pow 10 e.toNat ≤ num * Nat.pow 10 (-e).toNat then e else e - 1

/-- The decimal of the grid `10 ^ k` that reads back as `m * 2 ^ q`, if there is one. All
    comparisons are in quarters of the last significand bit, so that the ends of the interval are
    whole. -/
def onGrid? (tie : Tie) (m : Nat) (q : Int) (lowerGap : Nat) (k : Int) : Option Nat :=
  -- A decimal `c` on the grid and `x` quarters compare like `c * p` and `x * r`.
  let p := Nat.pow 10 k.toNat * Nat.pow 2 (2 - q).toNat
  let r := Nat.pow 2 (q - 2).toNat * Nat.pow 10 (-k).toNat
  let value := 4 * m * r
  let low := (4 * m - lowerGap) * r
  let high := (4 * m + 2) * r
  let closed := m % 2 = 0
  let below := value / p
  let above := below + 1
  let belowIn := low < below * p ∨ (closed ∧ low = below * p)
  let aboveIn := above * p < high ∨ (closed ∧ above * p = high)
  let downGap := value - below * p
  let upGap := above * p - value
  if belowIn ∧ aboveIn then
    if downGap < upGap then some below
    else if upGap < downGap then some above
    else match tie with
      | .up => some above
      | .even => some (if below % 2 = 0 then below else above)
  else if belowIn then some below
  else if aboveIn then some above
  else none

/-- Trailing zeros moved into the exponent, at most `fuel` of them. -/
def stripZeros : (fuel : Nat) → Scaled → Scaled
  | 0, s => s
  | fuel + 1, s =>
    if s.digits ≠ 0 ∧ s.digits % 10 = 0 then stripZeros fuel ⟨s.digits / 10, s.exponent + 1⟩ else s

/-- The shortest decimal of `m * 2 ^ q` in format `p`. Below a power of two the next value is only
    half as far away as above it. -/
def digits (p : Precision) (tie : Tie) (m : Nat) (q : Int) : Scaled :=
  if m = 0 then ⟨0, 0⟩
  else
    let (num, den) := Floating.ratio m q
    let lead := leadingExponent num den
    let lowerGap := if m = Nat.pow 2 (p.bits - 1) ∧ p.minExponent < q then 1 else 2
    let found := (List.range 17).findSome? fun (n : Nat) =>
      let k : Int := lead - n
      (onGrid? tie m q lowerGap k).map fun c => (⟨c, k⟩ : Scaled)
    stripZeros 18 (found.getD ⟨0, 0⟩)

/-- Digits with a point at the right place and zeros as far as needed, never an exponent. -/
def positional (s : Scaled) : List Char :=
  let ds := Text.decimal s.digits
  if 0 ≤ s.exponent then
    if s.digits = 0 then ds else ds ++ List.replicate s.exponent.toNat '0'
  else
    let places := (-s.exponent).toNat
    if places < ds.length then
      ds.take (ds.length - places) ++ '.' :: ds.drop (ds.length - places)
    else
      '0' :: '.' :: List.replicate (places - ds.length) '0' ++ ds

/-- Where a numeral stays positional: the greatest number of digits before the point, and the
    greatest number of zeros after it. -/
structure Window where
  whole : Int
  zeros : Int

/-- Positional inside the window, with one zero after the point of a whole number; outside it one
    digit before the point, and an exponent. -/
def numeral (w : Window) (negative : Bool) (s : Scaled) : Numeral :=
  let ds := (Text.decimal s.digits).filterMap Text.digit?
  let lead := (ds.length : Int) + s.exponent
  if 0 ≤ s.exponent ∧ lead ≤ w.whole then
    ⟨negative, ds ++ List.replicate s.exponent.toNat 0, [0], 0⟩
  else if 0 < lead ∧ lead ≤ w.whole then
    ⟨negative, ds.take lead.toNat, ds.drop lead.toNat, 0⟩
  else if -w.zeros ≤ lead ∧ lead ≤ 0 then
    ⟨negative, [0], List.replicate (-lead).toNat 0 ++ ds, 0⟩
  else
    ⟨negative, ds.take 1, ds.drop 1, lead - 1⟩

end Shortest

namespace Floating

/-- A value as plain text: shortest digits, no exponent, no `.0`, the sign of zero kept, halves
    rounded up. -/
def text (p : Precision) : Floating → String
  | nan => "NaN"
  | infinite negative => if negative then "-inf" else "inf"
  | finite negative m q =>
    String.ofList ((if negative then ['-'] else []) ++
      Shortest.positional (Shortest.digits p .up m q))

end Floating

end WhereClause
