import Mathlib.Algebra.Group.Nat.Defs
import WhereClause.Guid
import WhereClause.Number.Decimal
import WhereClause.Proofs.Literals

namespace WhereClause

/-!
# Digits that are read back

The digits of a number are read as that number, also with zeros in front of them and with more text
after them. From this follows that decimals and identifiers are read back from their texts.

* `Text.takeDigits_append`, `Text.spanDigits_append` — digits of a number;
* `Guid.parse?_text` — identifiers;
* `Decimal.parse?_text` — decimals, where a zero loses its sign.
-/

namespace Text

/-! ### Rows of digits -/

/-- The value of a character that is a digit. -/
def valueOf (c : Char) : Nat := c.toNat - '0'.toNat

/-- The reader of digits takes the characters that are digits. -/
theorem digit?_eq (c : Char) : digit? c = if c.isDigit then some (valueOf c) else none := by
  have hiff : ('0' ≤ c ∧ c ≤ '9') ↔ c.isDigit := by
    simp only [Char.isDigit, Bool.and_eq_true, decide_eq_true_eq]
    rfl
  simp only [digit?, hiff]
  rfl

/-- The digits lie between `0` and `9`. -/
theorem toNat_of_isDigit {c : Char} (h : c.isDigit) : 48 ≤ c.toNat ∧ c.toNat ≤ 57 := by
  simp only [Char.isDigit, Bool.and_eq_true, decide_eq_true_eq] at h
  exact h

/-- A text that does not begin with a digit. -/
def NoDigit (rest : List Char) : Prop := ∀ c ∈ rest.head?, c.isDigit = false

/-- The end of a text is no digit. -/
theorem noDigit_nil : NoDigit [] := by simp [NoDigit]

/-- Nor is any other character that ends the digits. -/
theorem noDigit_cons {c : Char} (h : c.isDigit = false) (rest : List Char) :
    NoDigit (c :: rest) := by
  simpa [NoDigit] using h

/-- Digits are taken up to the limit, or up to what follows them. -/
theorem takeDigits_append {limit : Nat} {cs rest : List Char} (hcs : ∀ c ∈ cs, c.isDigit)
    (hlength : cs.length ≤ limit) (hrest : cs.length = limit ∨ NoDigit rest) :
    takeDigits limit (cs ++ rest) = (cs.map valueOf, rest) := by
  induction cs generalizing limit with
  | nil =>
    rcases hrest with hrest | hrest
    · obtain rfl : 0 = limit := hrest
      simp [takeDigits]
    · cases rest with
      | nil => cases limit <;> rfl
      | cons c rest =>
        cases limit with
        | zero => rfl
        | succ limit => simp [takeDigits, digit?_eq, hrest c rfl]
  | cons c cs ih =>
    cases limit with
    | zero => simp at hlength
    | succ limit =>
      have hrec : takeDigits limit (cs ++ rest) = (cs.map valueOf, rest) :=
        ih (fun d hd => hcs d (List.mem_cons_of_mem _ hd)) (Nat.le_of_succ_le_succ hlength)
          (hrest.imp_left Nat.succ.inj)
      simp [takeDigits, digit?_eq, hcs c List.mem_cons_self, hrec]

/-- All digits are taken, up to what follows them. -/
theorem spanDigits_append {cs rest : List Char} (hcs : ∀ c ∈ cs, c.isDigit)
    (hrest : NoDigit rest) : spanDigits (cs ++ rest) = (cs.map valueOf, rest) :=
  takeDigits_append hcs (by simp) (.inr hrest)

/-- The values of digits make the number that the digits spell. -/
theorem ofDigits_values (cs : List Char) :
    ofDigits 10 (cs.map valueOf) = Nat.ofDigitChars 10 cs 0 := by
  rw [ofDigits, Nat.ofDigitChars_eq_foldl, List.foldl_map]
  simp only [valueOf, Nat.mul_comm]

/-! ### Digits of a number -/

/-- Zeros in front of a number are digits too. -/
theorem isDigit_of_mem_padded {width n : Nat} {c : Char} (hc : c ∈ padded width n) : c.isDigit := by
  have hspelled : SpelledWith [] (padded width n) := spelledWith_padded width n
  exact (hspelled c hc).resolve_right (by simp)

/-- Zeros in front do not change a number. -/
theorem ofDigits_padded (width n : Nat) : ofDigits 10 ((padded width n).map valueOf) = n := by
  rw [ofDigits_values, padded, Nat.ofDigitChars_append, Nat.ofDigitChars_replicate_zero,
    Nat.mul_zero, decimal, Nat.ofDigitChars_ten_toDigits]

/-- A number that fits is filled up to exactly the given width. -/
theorem length_padded {width n : Nat} (hwidth : 0 < width) (hn : n < 10 ^ width) :
    (padded width n).length = width := by
  have hlength : (decimal n).length ≤ width :=
    (Nat.length_toDigits_le_iff (by decide) hwidth).mpr hn
  simp only [padded, List.length_append, List.length_replicate]
  omega

end Text

/-! ### Identifiers -/

namespace Guid

/-- Five groups of the right lengths are put together again. -/
theorem ungroup?_groups {a b c d e : List Char} (ha : a.length = 8) (hb : b.length = 4)
    (hc : c.length = 4) (hd : d.length = 4) (he : e.length = 12) :
    ungroup? (a ++ '-' :: b ++ '-' :: c ++ '-' :: d ++ '-' :: e) =
      some (a ++ b ++ c ++ d ++ e) := by
  have hlength : (a ++ '-' :: b ++ '-' :: c ++ '-' :: d ++ '-' :: e).length = 36 := by
    simp [ha, hb, hc, hd, he]
  have hhyphens : [8, 13, 18, 23].all fun i =>
      (a ++ '-' :: b ++ '-' :: c ++ '-' :: d ++ '-' :: e)[i]? = some '-' := by
    simp [List.getElem?_append, ha, hb, hc, hd]
  rw [ungroup?, if_pos ⟨hlength, hhyphens⟩]
  simp (disch := omega) [List.drop_append, List.drop_of_length_le, ha, hb, hc, hd]

/-- A hexadecimal digit is read back. -/
theorem nibble?_digitChar (d : Fin 16) : nibble? (Nat.digitChar d.val) = some d := by
  decide +revert

/-- The digits of an identifier make that identifier. -/
theorem ofDigits?_digits (g : Guid) :
    ofDigits? (g.digits.map fun d => Nat.digitChar d.val) = some g := by
  -- The reader goes digit by digit, and loses none.
  have hdigits : ∀ ds : List (Fin 16),
      (ds.map fun d => Nat.digitChar d.val).mapM nibble? = some ds := by
    intro ds
    induction ds with
    | nil => rfl
    | cons d ds ih => simp [List.mapM_cons, nibble?_digitChar, ih]
  rw [ofDigits?, hdigits]
  simp [g.length_eq]

/-- An identifier is read back from its text. -/
theorem parse?_text (g : Guid) : parse? g.text = some g := by
  have hlength : (g.digits.map fun d => Nat.digitChar d.val).length = 32 := by
    rw [List.length_map, g.length_eq]
  have hread := ofDigits?_digits g
  rw [text]
  -- From here on only the number of the digits matters.
  generalize (g.digits.map fun d => Nat.digitChar d.val) = cs at hlength hread
  have hgroups := ungroup?_groups (a := cs.take 8) (b := (cs.drop 8).take 4)
    (c := (cs.drop 12).take 4) (d := (cs.drop 16).take 4) (e := cs.drop 20) (by simp; omega)
    (by simp; omega) (by simp; omega) (by simp; omega) (by simp; omega)
  have hcs : cs.take 8 ++ (cs.drop 8).take 4 ++ (cs.drop 12).take 4 ++ (cs.drop 16).take 4 ++
      cs.drop 20 = cs := by
    simp only [← List.take_add, List.take_append_drop]
  rw [hcs] at hgroups
  have htext : (cs.take 8 ++ '-' :: (cs.drop 8).take 4 ++ '-' :: (cs.drop 12).take 4 ++
      '-' :: (cs.drop 16).take 4 ++ '-' :: cs.drop 20).length = 36 := by
    simp
    omega
  simp only [parse?, String.toList_ofList, htext, hgroups]
  rw [if_neg (by decide), if_pos trivial, Option.bind_some, hread]

end Guid

/-! ### Decimals -/

namespace Decimal

open Text

/-- More digits make a number no smaller. -/
theorem le_ofDigitChars (ds : List Char) (m : Nat) : m ≤ Nat.ofDigitChars 10 ds m := by
  induction ds generalizing m with
  | nil => exact Nat.le_refl m
  | cons c ds ih =>
    rw [Nat.ofDigitChars_cons]
    exact Nat.le_trans (by omega) (ih _)

/-- One more digit, which is neither a point nor an underscore. -/
theorem readDigits_cons {c : Char} (hc : c.isDigit) (rest : List Char) {point : Bool}
    (started : Bool) {m s : Nat} (hs : point → s < maxScale)
    (hm : 10 * m + (c.toNat - '0'.toNat) < limit) :
    readDigits (c :: rest) point started m s =
      readDigits rest point true (10 * m + (c.toNat - '0'.toNat)) (if point then s + 1 else 0) := by
  have hpoint : c ≠ '.' := by
    rintro rfl
    exact absurd hc (by decide)
  have hunderscore : c ≠ '_' := by
    rintro rfl
    exact absurd hc (by decide)
  have hplaces : ¬ (point ∧ maxScale ≤ s) := fun h => absurd (hs h.1) (by omega)
  rw [Nat.mul_comm] at hm
  simp only [readDigits, if_neg hplaces, hpoint, hunderscore, false_and, if_false, digit?_eq, hc,
    if_true, valueOf, if_pos hm, Nat.mul_comm 10]

/-- Digits before the point, the first of which may be where the number starts. -/
theorem readDigits_whole {ds : List Char} (hds : ∀ c ∈ ds, c.isDigit) (rest : List Char)
    {started : Bool} (hstarted : started ∨ ds ≠ []) {m : Nat}
    (hm : Nat.ofDigitChars 10 ds m < limit) :
    readDigits (ds ++ rest) false started m 0 =
      readDigits rest false true (Nat.ofDigitChars 10 ds m) 0 := by
  induction ds generalizing started m with
  | nil =>
    obtain rfl : started = true := by simpa using hstarted
    rfl
  | cons c ds ih =>
    rw [Nat.ofDigitChars_cons] at hm ⊢
    rw [List.cons_append, readDigits_cons (hds c List.mem_cons_self) _ started (by simp)
      (Nat.lt_of_le_of_lt (le_ofDigitChars ds _) hm)]
    exact ih (fun d hd => hds d (List.mem_cons_of_mem _ hd)) (.inl rfl) hm

/-- Digits after the point, as many as there may be. -/
theorem readDigits_fraction {ds : List Char} (hds : ∀ c ∈ ds, c.isDigit) {m s : Nat}
    (hs : s + ds.length ≤ maxScale) (hm : Nat.ofDigitChars 10 ds m < limit) :
    readDigits ds true true m s = some (Nat.ofDigitChars 10 ds m, s + ds.length) := by
  induction ds generalizing m s with
  | nil => rfl
  | cons c ds ih =>
    rw [List.length_cons] at hs
    rw [Nat.ofDigitChars_cons] at hm ⊢
    rw [readDigits_cons (hds c List.mem_cons_self) _ true (fun _ => by omega)
      (Nat.lt_of_le_of_lt (le_ofDigitChars ds _) hm), if_pos rfl,
      ih (fun d hd => hds d (List.mem_cons_of_mem _ hd)) (by omega) hm, List.length_cons]
    congr 2
    omega

/-- The digits of a decimal, as they are written after its sign. -/
def digitText (d : Decimal) : List Char :=
  let ds := padded (d.scale + 1) d.magnitude
  ds.take (ds.length - d.scale) ++
    (if d.scale = 0 then [] else '.' :: ds.drop (ds.length - d.scale))

/-- There is at least one digit before the point. -/
theorem scale_lt_length (d : Decimal) :
    d.scale < (padded (d.scale + 1) d.magnitude).length := by
  simp only [padded, List.length_append, List.length_replicate]
  omega

/-- Magnitude and scale are read from the digits around the point. -/
theorem readDigits_digitText (d : Decimal) :
    readDigits d.digitText false false 0 0 = some (d.magnitude, d.scale) := by
  have hscale := d.scale_le
  have hvalue : Nat.ofDigitChars 10 (padded (d.scale + 1) d.magnitude) 0 = d.magnitude := by
    rw [← ofDigits_values, ofDigits_padded]
  have hlength := d.scale_lt_length
  have hdigits : ∀ c ∈ padded (d.scale + 1) d.magnitude, c.isDigit := fun _ =>
    isDigit_of_mem_padded
  simp only [digitText]
  generalize padded (d.scale + 1) d.magnitude = ds at hvalue hlength hdigits
  have hparts : Nat.ofDigitChars 10 (ds.drop (ds.length - d.scale))
      (Nat.ofDigitChars 10 (ds.take (ds.length - d.scale)) 0) = d.magnitude := by
    rw [← Nat.ofDigitChars_append, List.take_append_drop, hvalue]
  have hwhole : ds.take (ds.length - d.scale) ≠ [] :=
    List.ne_nil_of_length_pos (by rw [List.length_take]; omega)
  have hlimit : Nat.ofDigitChars 10 (ds.take (ds.length - d.scale)) 0 < limit :=
    Nat.lt_of_le_of_lt (hparts ▸ le_ofDigitChars _ _) d.magnitude_lt
  rw [readDigits_whole (fun c hc => hdigits c (List.mem_of_mem_take hc)) _ (.inr hwhole) hlimit]
  split
  · next hzero =>
    rw [hzero, Nat.sub_zero, List.take_length, hvalue]
    rfl
  · have hdrop : (ds.drop (ds.length - d.scale)).length = d.scale := by
      rw [List.length_drop]
      omega
    have hfraction := readDigits_fraction (s := 0)
      (fun c hc => hdigits c (List.mem_of_mem_drop hc)) (by rw [hdrop, Nat.zero_add]; exact hscale)
      (hparts ▸ d.magnitude_lt)
    rw [hparts, hdrop, Nat.zero_add] at hfraction
    simpa [readDigits] using hfraction

/-- Unfolding lemma: a decimal is a sign and its digits. -/
theorem text_eq (d : Decimal) :
    d.text = String.ofList ((if d.negative then ['-'] else []) ++ d.digitText) := by
  simp only [text, digitText, List.append_assoc]

/-- The digits begin with a digit and not with a sign. -/
theorem exists_digitText_eq (d : Decimal) : ∃ c cs, d.digitText = c :: cs ∧ c.isDigit := by
  have hlength := d.scale_lt_length
  have hdigits : ∀ c ∈ padded (d.scale + 1) d.magnitude, c.isDigit := fun _ =>
    isDigit_of_mem_padded
  simp only [digitText]
  generalize padded (d.scale + 1) d.magnitude = ds at hlength hdigits
  cases hwhole : ds.take (ds.length - d.scale) with
  | nil =>
    rw [List.take_eq_nil_iff] at hwhole
    rcases hwhole with h | rfl
    · omega
    · simp at hlength
  | cons c cs =>
    exact ⟨c, _, rfl, hdigits c (List.mem_of_mem_take (hwhole ▸ List.mem_cons_self))⟩

/-- Without a sign the digits come first. -/
theorem parsePlain?_of_isDigit {c : Char} {cs : List Char} (hc : c.isDigit) {m s : Nat}
    (h : readDigits (c :: cs) false false 0 0 = some (m, s)) :
    parsePlain? (c :: cs) = make? false m s := by
  have hminus : c ≠ '-' := by
    rintro rfl
    exact absurd hc (by decide)
  have hplus : c ≠ '+' := by
    rintro rfl
    exact absurd hc (by decide)
  simp [parsePlain?, hminus, hplus, h]

/-- The same number, where a zero has no sign. -/
def dropZeroSign (d : Decimal) : Decimal := { d with negative := d.negative && d.magnitude != 0 }

/-- A decimal is read from its text, except that a zero is read without its sign. -/
theorem parse?_text (d : Decimal) : parse? d.text = some d.dropZeroSign := by
  have hmake : make? (d.negative && d.magnitude != 0) d.magnitude d.scale =
      some d.dropZeroSign := by
    simp [make?, dropZeroSign, d.magnitude_lt, d.scale_le]
  have hplain : parsePlain? d.text.toList = some d.dropZeroSign := by
    have hread := d.readDigits_digitText
    rw [text_eq, String.toList_ofList]
    cases hn : d.negative with
    | true =>
      rw [hn] at hmake
      simp only [if_true, List.singleton_append, parsePlain?, hread, hmake]
    | false =>
      rw [hn] at hmake
      obtain ⟨c, cs, htext, hc⟩ := d.exists_digitText_eq
      rw [htext] at hread ⊢
      exact (parsePlain?_of_isDigit hc hread).trans hmake
  rw [parse?, hplain]

end Decimal

end WhereClause
