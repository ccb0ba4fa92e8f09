import Mathlib.Tactic.Linarith
import Mathlib.Tactic.Ring
import WhereClause.Dialect
import WhereClause.Expr.Build
import WhereClause.Proofs.Meaning

namespace WhereClause

/-!
# Arithmetic in place of missing operators

Some dialects lack operators on bits, shifts or ways to round, and write arithmetic in their place.
On whole numbers of any size, in two's complement, this gives the same results.

* `Bits.induction` — pairs of whole numbers, bit by bit;
* `Bits.lor_add_land`, `Bits.lor_sub_land` — operations on bits in terms of each other;
* `Datum.truncate_add`, `Datum.truncate_sub` — ways to round, from the number without its fraction;
* `Expr.computes_arithmetic` — the operators and functions, with their forms read as SQL.
-/

/-! ### Bits -/

namespace Bits

/-- Two whole numbers are made of their bits, from the sign down. -/
theorem induction {P : Int → Int → Prop}
    (sign : ∀ a b, a = 0 ∨ a = -1 → b = 0 ∨ b = -1 → P a b)
    (bit : ∀ x a y b, P a b → P (Int.bit x a) (Int.bit y b)) (a b : Int) : P a b := by
  -- Halving makes a number smaller unless all its bits are the same.
  induction hsize : a.natAbs + b.natAbs using Nat.strong_induction_on generalizing a b with
  | _ size ih =>
    by_cases hsigns : (a = 0 ∨ a = -1) ∧ (b = 0 ∨ b = -1)
    · exact sign a b hsigns.1 hsigns.2
    · have hsmaller : (Int.div2 a).natAbs + (Int.div2 b).natAbs < size := by
        rw [Int.div2_val, Int.div2_val]
        omega
      rw [← Int.bit_decomp a, ← Int.bit_decomp b]
      exact bit _ _ _ _ (ih _ hsmaller _ _ rfl)

/-- A bit is in both numbers and in either of them as often as it is in one and in the other. -/
theorem lor_add_land (a b : Int) : a.lor b + a.land b = a + b := by
  induction a, b using induction with
  | sign a b ha hb =>
    rcases ha with rfl | rfl <;> rcases hb with rfl | rfl <;> decide +kernel
  | bit x a y b ih =>
    rw [Int.lor_bit, Int.land_bit]
    simp only [Int.bit_val]
    cases x <;> cases y <;> simp <;> linarith

/-- What is in either number and not in both of them. -/
theorem lor_sub_land (a b : Int) : a.lor b - a.land b = a.xor b := by
  induction a, b using induction with
  | sign a b ha hb =>
    rcases ha with rfl | rfl <;> rcases hb with rfl | rfl <;> decide +kernel
  | bit x a y b ih =>
    rw [Int.lor_bit, Int.land_bit, Int.lxor_bit]
    simp only [Int.bit_val]
    cases x <;> cases y <;> simp <;> linarith

end Bits

/-! ### Rounding -/

namespace Datum

/-- Without its fraction a number differs from itself by less than one. -/
theorem truncate_near (q : ℚ) : (truncate q : ℚ) - 1 < q ∧ q < truncate q + 1 := by
  rw [truncate]
  split
  · have hle := Int.floor_le q
    exact ⟨by linarith, Int.lt_floor_add_one q⟩
  · have hle := Int.le_ceil q
    have hlt := Int.ceil_lt_add_one q
    exact ⟨by linarith, by linarith⟩

/-- One more than a number without its fraction is the ceiling if the number is greater. -/
theorem truncate_add (q : ℚ) : (truncate q : ℚ) + (if q > truncate q then 1 else 0) = ⌈q⌉ := by
  -- Either the fraction was cut off downward, or there was none, or it was cut off upward.
  obtain ⟨hlow, hhigh⟩ := truncate_near q
  by_cases h : q > truncate q
  · have hceil : ⌈q⌉ = truncate q + 1 := by
      rw [Int.ceil_eq_iff]
      push_cast
      exact ⟨by linarith, hhigh.le⟩
    rw [if_pos h, hceil]
    push_cast
    rfl
  · rw [if_neg h, add_zero, Int.ceil_eq_iff.mpr ⟨hlow, not_lt.mp h⟩]

/-- One less than a number without its fraction is the floor if the number is less. -/
theorem truncate_sub (q : ℚ) : (truncate q : ℚ) - (if q < truncate q then 1 else 0) = ⌊q⌋ := by
  obtain ⟨hlow, hhigh⟩ := truncate_near q
  by_cases h : q < truncate q
  · have hfloor : ⌊q⌋ = truncate q - 1 := by
      rw [Int.floor_eq_iff]
      push_cast
      exact ⟨hlow.le, by linarith⟩
    rw [if_pos h, hfloor]
    push_cast
    rfl
  · rw [if_neg h, sub_zero, Int.floor_eq_iff.mpr ⟨not_lt.mp h, hhigh⟩]

/-! ### Whole numbers -/

/-- Operations on bits are those on whole numbers. -/
theorem bitwise_intCast (f : Int → Int → Int) (a b : Int) :
    bitwise f a b = some (number (f a b)) := by
  rw [bitwise, if_pos ⟨Rat.den_intCast a, Rat.den_intCast b⟩, Rat.num_intCast, Rat.num_intCast]

/-- A power with an exponent that is not negative is the usual one. -/
theorem power_natCast (a : ℚ) (n : Nat) : power a n = some (number (a ^ n)) := by
  rw [power, if_pos (Rat.den_natCast n), Rat.num_natCast, zpow_natCast]

/-- A shift to the left is a product. -/
theorem mul_pow_eq_shiftLeft (a : Int) (n : Nat) : (a : ℚ) * 2 ^ n = (a <<< n : Int) := by
  rw [Int.shiftLeft_eq]
  push_cast
  rfl

/-- A shift to the right is a quotient toward zero, unless the number is negative. -/
theorem truncate_div_pow {a : Int} (ha : 0 ≤ a) (n : Nat) :
    truncate ((a : ℚ) / 2 ^ n) = a >>> n := by
  have hquotient : (0 : ℚ) ≤ a / 2 ^ n := div_nonneg (by exact_mod_cast ha) (by positivity)
  rw [truncate, if_pos hquotient, Int.shiftRight_eq_div_pow, ← Rat.floor_intCast_div_natCast]
  push_cast
  rfl

end Datum

/-! ### Forms -/

namespace Computation

open WhereClause.Datum

section WholeNumbers

variable {operands : List Datum} {l r : Computation} {a b : Int} {n : Nat}

/-- The function for the common bits. -/
theorem eval_bitand (hl : l.eval operands = some (.number a))
    (hr : r.eval operands = some (.number b)) :
    (call "BITAND" [","] [l, r]).eval operands = some (.number (a.land b : Int)) := by
  rw [eval_call (by decide), evalList_cons hl (evalList_cons hr rfl), Option.bind_some]
  exact bitwise_intCast Int.land a b

/-- A power of two. -/
theorem eval_pow (hr : r.eval operands = some (.number n)) :
    (call "POWER" [","] [number 2, r]).eval operands = some (.number (2 ^ n)) := by
  rw [eval_call (by decide), evalList_cons rfl (evalList_cons hr rfl), Option.bind_some]
  exact power_natCast 2 n

/-- The bits that are in either number, less those that are in both. -/
theorem eval_lor_sub_land (hl : l.eval operands = some (.number a))
    (hr : r.eval operands = some (.number b)) :
    (binary "-" (binary "|" l r) (binary "&" l r)).eval operands =
      some (.number (a.xor b : Int)) := by
  have hor : (binary "|" l r).eval operands = some (.number (a.lor b : Int)) := by
    rw [eval_binary "|" hl hr]
    exact bitwise_intCast Int.lor a b
  have hand : (binary "&" l r).eval operands = some (.number (a.land b : Int)) := by
    rw [eval_binary "&" hl hr]
    exact bitwise_intCast Int.land a b
  rw [eval_binary "-" hor hand, ← Bits.lor_sub_land, Int.cast_sub]
  rfl

/-- The sum, less the bits that are in both numbers. -/
theorem eval_add_sub_bitand (hl : l.eval operands = some (.number a))
    (hr : r.eval operands = some (.number b)) :
    (binary "-" (binary "+" l r) (call "BITAND" [","] [l, r])).eval operands =
      some (.number (a.lor b : Int)) := by
  rw [eval_binary "-" (eval_binary "+" hl hr) (eval_bitand hl hr),
    eq_sub_of_add_eq (Bits.lor_add_land a b), Int.cast_sub, Int.cast_add]
  rfl

/-- The sum, less twice the bits that are in both numbers. -/
theorem eval_add_sub_two_bitand (hl : l.eval operands = some (.number a))
    (hr : r.eval operands = some (.number b)) :
    (binary "-" (binary "+" l r) (binary "*" (number 2) (call "BITAND" [","] [l, r]))).eval
      operands = some (.number (a.xor b : Int)) := by
  -- Common bits count twice in the sum, and not at all in the result.
  have hxor : a.xor b = a + b - 2 * a.land b := by
    have hsum := Bits.lor_add_land a b
    have hdifference := Bits.lor_sub_land a b
    omega
  have htwo : (number 2).eval operands = some (.number (2 : Int)) := rfl
  rw [eval_binary "-" (eval_binary "+" hl hr) (eval_binary "*" htwo (eval_bitand hl hr)), hxor,
    Int.cast_sub, Int.cast_add, Int.cast_mul]
  rfl

/-- A product with a power of two shifts to the left. -/
theorem eval_mul_pow (hl : l.eval operands = some (.number a))
    (hr : r.eval operands = some (.number n)) :
    (binary "*" l (call "POWER" [","] [number 2, r])).eval operands =
      some (.number (a <<< n : Int)) := by
  rw [eval_binary "*" hl (eval_pow hr), ← mul_pow_eq_shiftLeft]
  rfl

/-- A quotient by a power of two, without its fraction, shifts to the right. Below zero it would be
    rounded the other way. -/
theorem eval_trunc_div_pow (ha : 0 ≤ a) (hl : l.eval operands = some (.number a))
    (hr : r.eval operands = some (.number n)) :
    (call "TRUNC" [] [binary "/" l (call "POWER" [","] [number 2, r])]).eval operands =
      some (.number (a >>> n : Int)) := by
  have hquotient : (binary "/" l (call "POWER" [","] [number 2, r])).eval operands =
      some (.number (a / 2 ^ n)) := by
    rw [eval_binary "/" hl (eval_pow hr)]
    exact if_neg (by positivity)
  rw [eval_call (by decide), evalList_cons hquotient rfl, ← truncate_div_pow ha]
  rfl

end WholeNumbers

section Rounding

variable {operands : List Datum} {c : Computation} {q : ℚ}

/-- A cast drops the fraction. -/
theorem eval_cast (hc : c.eval operands = some (.number q)) :
    (call "CAST" ["AS"] [c, word "INTEGER"]).eval operands = some (.number (truncate q)) := by
  rw [eval, hc]
  rfl

/-- The ceiling is one more than the number without its fraction, where that is too small. -/
theorem eval_cast_add (hc : c.eval operands = some (.number q)) :
    (binary "+" (call "CAST" ["AS"] [c, word "INTEGER"])
      (binary ">" c (call "CAST" ["AS"] [c, word "INTEGER"]))).eval operands =
      some (.number ⌈q⌉) := by
  rw [eval_binary "+" (eval_cast hc) (eval_binary ">" hc (eval_cast hc)), ← truncate_add]
  rfl

/-- The floor is one less than the number without its fraction, where that is too great. -/
theorem eval_cast_sub (hc : c.eval operands = some (.number q)) :
    (binary "-" (call "CAST" ["AS"] [c, word "INTEGER"])
      (binary "<" c (call "CAST" ["AS"] [c, word "INTEGER"]))).eval operands =
      some (.number ⌊q⌋) := by
  rw [eval_binary "-" (eval_cast hc) (eval_binary "<" hc (eval_cast hc)), ← truncate_sub]
  rfl

/-- The floor of the opposite, negated. -/
theorem eval_neg_int_neg (hc : c.eval operands = some (.number q)) :
    (negate (call "Int" [] [negate c])).eval operands = some (.number ⌈q⌉) := by
  have hopposite : (negate c).eval operands = some (.number (-q)) := by
    rw [eval, hc]
    rfl
  have hfloor : (call "Int" [] [negate c]).eval operands = some (.number ⌊-q⌋) := by
    rw [eval_call (by decide), evalList_cons hopposite rfl]
    rfl
  rw [eval, hfloor, ← neg_neg ⌈q⌉, ← Int.floor_neg, Int.cast_neg]
  rfl

end Rounding

end Computation

namespace Expr

open WhereClause.Computation WhereClause.Datum

/-- An operator on bits between operands that are not Boolean is written by its template. -/
theorem computes_operator {d : Rules} {op : BinaryOp} {left right : Expr} {t : Template}
    {c : Computation} {operands : List Datum} {x : Datum}
    (hop : op ∈ [BinaryOp.or, .exclusiveOr, .leftShift, .rightShift])
    (hleft : left.kind ≠ .boolean) (ht : d.binary op left.kind right.kind = some t)
    (hfits : t.Fits 2) (hread : t.read? = some c) (heval : c.eval operands = some x)
    (kind : ValueKind) : (binary kind op left right).Computes d operands x := by
  refine computes_of_form rfl hfits (fun p => ?_) hread heval
  -- These operators are no part of a chain and compare nothing with null.
  have hboolean : left.isBoolean = false := decide_eq_false hleft
  have hbody : ((binary kind op left right).layout d p).natural =
      .level (Layout.operatorBody d (binary kind op left right) op left right
        (left.layout d (p.child 0)) (right.layout d (p.child 1))) ∧
      op.isLogical false = false := by
    simp only [List.mem_cons, List.not_mem_nil, or_false] at hop
    obtain rfl | rfl | rfl | rfl := hop <;> exact ⟨rfl, rfl⟩
  rw [hbody.1, Layout.operatorBody, ht, hboolean, hbody.2]
  rfl

/-- A way to round is written by its template, whatever numbers it is a method of. -/
theorem computes_rounding {d : Rules} {family : Family} {name : String} {r : Rounding}
    {t : Template} {c : Computation} {operands : List Datum} {x : Datum}
    (hname : family.method? name = some (.rounding r))
    (ht : d.method (.rounding r) 1 = some t) (hfits : t.Fits 1) (hread : t.read? = some c)
    (heval : c.eval operands = some x) (kind : ValueKind) (e : Expr) :
    (callStatic kind family name [e]).Computes d operands x := by
  refine computes_of_form rfl hfits (fun p => ?_) hread heval
  have hbody : ((callStatic kind family name [e]).layout d p).natural =
      .level (Layout.callBody d (callStatic kind family name [e]) family name false false 1
        (layoutList d p 0 [e])) := rfl
  rw [hbody, Layout.callBody, hname]
  cases r <;> exact congrArg Sql.level (congrArg (Layout.formOr d _ · _) ht)

/-- **Arithmetic in place of operators.** On whole numbers of any size, operations on bits and
    shifts that are written as arithmetic compute what the operators do; only a shift to the right
    asks for a number that is not negative. Ways to round that are written as arithmetic compute the
    ceiling and the floor of every number. -/
theorem computes_arithmetic (kind : ValueKind) {left : Expr} (hleft : left.kind ≠ .boolean)
    (right : Expr) (a b : Int) (n : Nat) (q : ℚ) :
    (∀ d ∈ [Dialect.generic, .sqlite, .oracle],
      (binary kind .exclusiveOr left right).Computes d.rules [.number a, .number b]
        (.number (a.xor b : Int))) ∧
    (binary kind .or left right).Computes Oracle.rules [.number a, .number b]
      (.number (a.lor b : Int)) ∧
    (∀ d, d ≠ Dialect.access →
      (binary kind .leftShift left right).Computes d.rules [.number a, .number n]
        (.number (a <<< n : Int))) ∧
    (0 ≤ a → (binary kind .rightShift left right).Computes Oracle.rules [.number a, .number n]
      (.number (a >>> n : Int))) ∧
    ∀ family ∈ [Family.decimal, .math], ∀ e,
      (callStatic kind family "Ceiling" [e]).Computes Sqlite.rules [.number q] (.number ⌈q⌉) ∧
      (callStatic kind family "Floor" [e]).Computes Sqlite.rules [.number q] (.number ⌊q⌋) ∧
      (callStatic kind family "Ceiling" [e]).Computes Access.rules [.number q] (.number ⌈q⌉) := by
  refine ⟨?_, ?_, ?_, ?_, ?_⟩
  · intro d hd
    simp only [List.mem_cons, List.not_mem_nil, or_false] at hd
    obtain rfl | rfl | rfl := hd
    · exact computes_operator (by decide) hleft (if_neg hleft) (by decide) rfl
        (eval_lor_sub_land rfl rfl) kind
    · exact computes_operator (by decide) hleft (if_neg hleft) (by decide) rfl
        (eval_lor_sub_land rfl rfl) kind
    · exact computes_operator (by decide) hleft (if_neg hleft) (by decide) rfl
        (eval_add_sub_two_bitand rfl rfl) kind
  · exact computes_operator (by decide) hleft (if_neg hleft) (by decide) rfl
      (eval_add_sub_bitand rfl rfl) kind
  · intro d hd
    -- Only one dialect has a form of its own.
    have ht : d.rules.binary .leftShift left.kind right.kind =
        some (["(", 0, " * POWER(2, ", 1, "))"] : Template) := by
      cases d <;> first | rfl | exact absurd rfl hd
    exact computes_operator (by decide) hleft ht (by decide) rfl (eval_mul_pow rfl rfl) kind
  · intro ha
    exact computes_operator (by decide) hleft rfl (by decide) rfl
      (eval_trunc_div_pow ha rfl rfl) kind
  · intro family hfamily e
    have hnames : family.method? "Ceiling" = some (.rounding .ceiling) ∧
        family.method? "Floor" = some (.rounding .floor) := by
      simp only [List.mem_cons, List.not_mem_nil, or_false] at hfamily
      obtain rfl | rfl := hfamily <;> exact ⟨rfl, rfl⟩
    obtain ⟨hceiling, hfloor⟩ := hnames
    exact ⟨computes_rounding hceiling rfl (by decide) rfl (eval_cast_add rfl) kind e,
      computes_rounding hfloor rfl (by decide) rfl (eval_cast_sub rfl) kind e,
      computes_rounding hceiling rfl (by decide) rfl (eval_neg_int_neg rfl) kind e⟩

/-- Negative numbers have all the bits of their sign, and are rounded up toward zero. -/
theorem computes_arithmetic_negative :
    let flags := Build.column "Flags" .integer
    let mask := Build.column "Mask" .integer
    flags.kind ≠ .boolean ∧ (0 : Int) ≤ 45 ∧
    (Build.binary .exclusiveOr flags mask).Computes Oracle.rules
      [.number (-6 : Int), .number (11 : Int)] (.number (-15 : Int)) ∧
    (Build.binary .leftShift flags mask).Computes MySql.rules
      [.number (-6 : Int), .number (3 : Nat)] (.number (-48 : Int)) ∧
    (Build.binary .rightShift flags mask).Computes Oracle.rules
      [.number (45 : Int), .number (3 : Nat)] (.number (5 : Int)) ∧
    (Build.callStatic .math "Ceiling" [flags]).Computes Sqlite.rules
      [.number (-7 / 2)] (.number (-3 : Int)) := by
  intro flags mask
  have hflags : flags.kind ≠ .boolean := by decide
  obtain ⟨hxor, -, hleft, -, -⟩ := computes_arithmetic .integer hflags mask (-6) 11 3 0
  obtain ⟨-, -, -, hright, -⟩ := computes_arithmetic .integer hflags mask 45 0 3 0
  obtain ⟨-, -, -, -, hround⟩ := computes_arithmetic .real hflags mask 0 0 0 (-7 / 2)
  have hbits : Int.xor (-6) 11 = -15 := by decide +kernel
  have hceil : ⌈(-7 / 2 : ℚ)⌉ = -3 := by decide +kernel
  obtain ⟨hceiling, -, -⟩ := hround .math (by decide) flags
  rw [hceil] at hceiling
  exact ⟨hflags, by decide, hbits ▸ hxor .oracle (by decide), hleft .mySql (by decide),
    hright (by decide), hceiling⟩

end Expr

end WhereClause
