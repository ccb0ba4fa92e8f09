import WhereClause.Text.Digits

namespace WhereClause

/-!
# Fixed-point decimals

Decimals with a magnitude of 96 bits and up to 28 places. The scale is part of the value, so `1.50`
and `1.5` differ as texts. So is the sign: a zero that is written without an exponent has none, but
a negative number keeps its sign if an exponent makes it so small that it rounds to zero.

- `Decimal`: the type, with its bounds
- `Decimal.parse?`: a written decimal, plain or with an exponent
- `Decimal.text`: the text with exactly as many places as the scale says
-/

/-- The number `magnitude / 10 ^ scale` with its sign. -/
structure Decimal where
  negative : Bool
  magnitude : Nat
  scale : Nat
  magnitude_lt : magnitude < 0x1000000000000000000000000
  scale_le : scale ≤ 28
  deriving DecidableEq

namespace Decimal

/-- Bound of the magnitudes. -/
def limit : Nat := 0x1000000000000000000000000

/-- Greatest scale. -/
def maxScale : Nat := 28

/-- A decimal from its sign, magnitude and scale, if they are in range. -/
def make? (negative : Bool) (magnitude scale : Nat) : Option Decimal :=
  if h : magnitude < 0x1000000000000000000000000 ∧ scale ≤ 28 then
    some ⟨negative, magnitude, scale, h.1, h.2⟩
  else none

/-- A whole number, if it is in range. -/
def ofInt? (n : Int) : Option Decimal :=
  make? (n < 0) n.natAbs 0

/-! ### Reading -/

/-- Magnitude and scale rounded at the first digit that is dropped: half a unit or more rounds up,
    and a magnitude that then no longer fits gives up its last place. -/
def roundAt (digit magnitude scale : Nat) : Option (Nat × Nat) :=
  if digit < 5 then some (magnitude, scale)
  else if magnitude + 1 < limit then some (magnitude + 1, scale)
  else if scale = 0 then none
  else some ((magnitude + 5) / 10, scale - 1)

/-- Bound of the magnitudes that are narrow before their last digit. -/
def narrowLimit : Nat := 0xFFFFFFFFFFFFFFFF / 10 - 0xFF

/-- Magnitude and scale once no more places fit, before a rest of digits and underscores. The first
    digit of the rest rounds, except that after a narrow magnitude an underscore in front of it
    stands for a zero. -/
def roundOff (rest : List Char) (magnitude scale : Nat) : Option (Nat × Nat) :=
  let ds := rest.filterMap Text.digit?
  if rest.all (fun c => c = '_' || (Text.digit? c).isSome) then
    if magnitude / 10 < narrowLimit && rest.head? = some '_' then some (magnitude, scale)
    else roundAt (ds.head?.getD 0) magnitude scale
  else none

/-- Magnitude and scale of the digits of a decimal. `point` says that the point has been passed and
    `started` that a digit has been read; underscores may stand anywhere after the first digit. -/
def readDigits : List Char → (point started : Bool) → (magnitude scale : Nat) → Option (Nat × Nat)
  | [], _, started, m, s => if started then some (m, s) else none
  | c :: rest, point, started, m, s =>
    if point ∧ maxScale ≤ s then roundOff (c :: rest) m s
    else if c = '.' ∧ ¬ point then readDigits rest true started m s
    else if c = '_' ∧ started then readDigits rest point started m s
    else match Text.digit? c with
      | none => none
      | some d =>
        let m' := m * 10 + d
        -- A digit that does not fit is rounded away after the point, and an overflow before it.
        if m' < limit then readDigits rest point true m' (if point then s + 1 else 0)
        else if point then roundOff (c :: rest) m s
        else none

/-- A decimal without exponent, whose zero has no sign. -/
def parsePlain? (cs : List Char) : Option Decimal :=
  let (negative, cs) := match cs with
    | '-' :: r => (true, r)
    | '+' :: r => (false, r)
    | r => (false, r)
  match readDigits cs false false 0 0 with
  | some (m, s) => make? (negative && m != 0) m s
  | none => none

/-- A natural number below `2 ^ 32`, with an optional plus sign. -/
def exponent? (cs : List Char) : Option Nat :=
  let cs := match cs with
    | '+' :: r => r
    | r => r
  match Text.spanDigits cs with
  | ([], _) => none
  | (ds, []) => let n := Text.ofDigits 10 ds; if n < 0x100000000 then some n else none
  | _ => none

/-- A decimal with the point moved left by at most as many places as there may be. Digits that move
    out of the last place are dropped, where half a unit or more rounds up. -/
def shiftLeft? (d : Decimal) (places : Nat) : Option Decimal :=
  if maxScale < places then none
  else if d.scale + places ≤ maxScale then make? d.negative d.magnitude (d.scale + places)
  else
    let dropped := d.scale + places - maxScale
    let half := 5 * Nat.pow 10 (dropped - 1)
    make? d.negative ((d.magnitude + half) / Nat.pow 10 dropped) maxScale

/-- A decimal with the point moved right; past the last digit zeros are filled in. -/
def shiftRight? (d : Decimal) (places : Nat) : Option Decimal :=
  if places ≤ d.scale then make? d.negative d.magnitude (d.scale - places)
  else if maxScale < places then none
  else make? d.negative (d.magnitude * Nat.pow 10 (places - d.scale)) 0

/-- A decimal with an exponent after `e` or `E`. -/
def parseScientific? (cs : List Char) : Option Decimal :=
  let isMark (c : Char) : Bool := c = 'e' || c = 'E'
  match cs.dropWhile (fun c => !isMark c) with
  | [] => none
  | _ :: power => do
    let base ← parsePlain? (cs.takeWhile fun c => !isMark c)
    match power with
    | '-' :: r => base.shiftLeft? (← exponent? r)
    | r => base.shiftRight? (← exponent? r)

/-- The decimal that a text writes. -/
def parse? (text : String) : Option Decimal :=
  match parsePlain? text.toList with
  | some d => some d
  | none => parseScientific? text.toList

/-! ### Writing -/

/-- A decimal as text, with as many places as its scale. -/
def text (d : Decimal) : String :=
  let ds := Text.padded (d.scale + 1) d.magnitude
  let whole := ds.take (ds.length - d.scale)
  let fraction := ds.drop (ds.length - d.scale)
  String.ofList ((if d.negative then ['-'] else []) ++ whole ++
    (if d.scale = 0 then [] else '.' :: fraction))

end Decimal

end WhereClause
