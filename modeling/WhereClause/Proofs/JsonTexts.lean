import WhereClause.Json.Printer
import WhereClause.Json.Reader
import WhereClause.Proofs.Numerals

namespace WhereClause

/-!
# Documents that are read back from their texts

A document is read back from the text that holds it without white space, if its strings name
characters and its numbers are integers.

* `Json.Plain` — such documents;
* `Json.readString_escaped` — strings, whatever characters are escaped in them;
* `Json.readUnsigned_decimal` — integers;
* `Json.Reads` — what holds of a value inside of a longer text, with enough fuel for it;
* `Json.parse?_compact` — whole documents.
-/

namespace Json

open Text

/-! ### Strings -/

/-- The unit stands for the character, whatever follows it. -/
def Spells (u : Unit16) (c : Char) : Prop :=
  ∀ us, assemble (u :: us) = (assemble us).map (c :: ·)

/-- A character stands for itself. -/
theorem spells_char (c : Char) : Spells (.char c) c := fun _ => rfl

/-- A code unit that is no half of a surrogate pair stands for its character. -/
theorem spells_code {n : Nat} (hn : n < 0xD800) : Spells (.code n) (Char.ofNat n) := by
  have hleading : isLeading n = false := by simp [isLeading]; omega
  have htrailing : isTrailing n = false := by simp [isTrailing]; omega
  intro us
  -- Two code units in a row are looked at together.
  cases us with
  | nil => simp [assemble, hleading, htrailing]
  | cons u us => cases u <;> simp [assemble, hleading, htrailing]

/-- What is written for a character: a letter that names it, its number, or itself. -/
theorem escaped_cases (c : Char) :
    (∃ e, escape? e = some c ∧ escaped c = ['\\', e]) ∨
    (c < ' ' ∧ escaped c =
      ['\\', 'u', '0', '0', Nat.digitChar (c.toNat / 16), Nat.digitChar (c.toNat % 16)]) ∨
    (c ≠ '"' ∧ c ≠ '\\' ∧ ¬ c < ' ' ∧ escaped c = [c]) := by
  by_cases hnamed : c ∈ ['"', '\\', '\x08', '\t', '\n', '\x0c', '\r']
  · left
    simp only [List.mem_cons, List.not_mem_nil, or_false] at hnamed
    -- Each of these characters has an escape of its own.
    rcases hnamed with rfl | rfl | rfl | rfl | rfl | rfl | rfl <;> exact ⟨_, rfl, rfl⟩
  · right
    simp only [List.mem_cons, List.not_mem_nil, or_false, not_or] at hnamed
    by_cases hc : c < ' '
    · exact .inl ⟨hc, by simp [escaped, hnamed, hc]⟩
    · exact .inr ⟨hnamed.1, hnamed.2.1, hc, by simp [escaped, hnamed, hc]⟩

/-- An escape of one letter is read as the character it names. -/
theorem readUnits_escape {e c : Char} (he : escape? e = some c) (cs : List Char) :
    readUnits ('\\' :: e :: cs) = (readUnits cs).map fun p => (.char c :: p.1, p.2) := by
  have hu : e ≠ 'u' := by
    rintro rfl
    cases he
  cases hcs : readUnits cs <;> simp [readUnits, hu, he, hcs]

/-- The number of a control character is read from its four digits. -/
theorem codeUnit?_digitChar :
    ∀ n < 32, codeUnit? ['0', '0', Nat.digitChar (n / 16), Nat.digitChar (n % 16)] = some n := by
  decide

/-- A character that needs no escape is read as it stands. -/
theorem readUnits_cons {c : Char} (hquote : c ≠ '"') (hslash : c ≠ '\\') (hc : ¬ c < ' ')
    (cs : List Char) :
    readUnits (c :: cs) = (readUnits cs).map fun p => (.char c :: p.1, p.2) := by
  cases hcs : readUnits cs <;> simp [readUnits, hslash, hc, hcs]

/-- A character is read as it was written. -/
theorem exists_readUnits_escaped (c : Char) (cs : List Char) :
    ∃ u, Spells u c ∧ readUnits (escaped c ++ cs) =
      (readUnits cs).map fun p => (u :: p.1, p.2) := by
  rcases escaped_cases c with ⟨e, he, hc⟩ | ⟨hcontrol, hc⟩ | ⟨hquote, hslash, hplain, hc⟩
  · exact ⟨.char c, spells_char c, by rw [hc]; exact readUnits_escape he cs⟩
  · have hlt : c.toNat < 32 := hcontrol
    refine ⟨.code c.toNat, ?_, ?_⟩
    · simpa using spells_code (n := c.toNat) (by omega)
    · rw [hc]
      simp only [List.cons_append, List.nil_append, readUnits, codeUnit?_digitChar _ hlt]
      cases readUnits cs <;> rfl
  · exact ⟨.char c, spells_char c, by rw [hc]; exact readUnits_cons hquote hslash hplain cs⟩

/-- A string is read back up to its closing quote. -/
theorem readString_escaped (s : String) (rest : List Char) :
    readString (s.toList.flatMap escaped ++ '"' :: rest) = some (some s, rest) := by
  have hunits : ∀ cs : List Char, ∃ us, assemble us = some cs ∧
      readUnits (cs.flatMap escaped ++ '"' :: rest) = some (us, rest) := by
    intro cs
    induction cs with
    | nil => exact ⟨[], rfl, rfl⟩
    | cons c cs ih =>
      obtain ⟨us, hus, hread⟩ := ih
      obtain ⟨u, hu, hstep⟩ := exists_readUnits_escaped c (cs.flatMap escaped ++ '"' :: rest)
      refine ⟨u :: us, by rw [hu, hus]; rfl, ?_⟩
      rw [List.flatMap_cons, List.append_assoc, hstep, hread]
      rfl
  -- What the units spell is the string.
  obtain ⟨us, hus, hread⟩ := hunits s.toList
  simp [readString, hread, hus]

/-! ### Integers -/

/-- A text that does not go on with a value: it is over, or goes on with what stands between or
    after items. -/
def Ends (rest : List Char) : Prop := ∀ c ∈ rest.head?, c ∈ [',', ']', '\x7d']

/-- The end of a text ends a value. -/
theorem ends_nil : Ends [] := by simp [Ends]

/-- A comma or a closing bracket ends a value. -/
theorem ends_cons {c : Char} (hc : c ∈ [',', ']', '\x7d']) (rest : List Char) :
    Ends (c :: rest) := by
  simpa [Ends] using hc

/-- How a text goes on that ends a value. -/
theorem Ends.cases {rest : List Char} (h : Ends rest) :
    rest = [] ∨ ∃ cs, rest = ',' :: cs ∨ rest = ']' :: cs ∨ rest = '\x7d' :: cs := by
  cases rest with
  | nil => exact .inl rfl
  | cons c cs =>
    have hc := h c rfl
    exact .inr ⟨cs, by simpa using hc⟩

/-- What ends a value does not go on with its digits. -/
theorem Ends.noDigit {rest : List Char} (h : Ends rest) : NoDigit rest := by
  rcases h.cases with rfl | ⟨cs, rfl | rfl | rfl⟩ <;> simp [NoDigit]

/-- Nor with a fraction. -/
theorem Ends.readFraction {rest : List Char} (h : Ends rest) :
    readFraction rest = some ([], rest) := by
  rcases h.cases with rfl | ⟨cs, rfl | rfl | rfl⟩ <;> rfl

/-- Nor with an exponent. -/
theorem Ends.readExponent {rest : List Char} (h : Ends rest) :
    Floating.readExponent rest = some (0, rest) := by
  rcases h.cases with rfl | ⟨cs, rfl | rfl | rfl⟩ <;> rfl

/-- The first digit of a number is not zero, unless the number is. -/
theorem exists_decimal_eq {n : Nat} (hn : 0 < n) :
    ∃ c cs, decimal n = c :: cs ∧ valueOf c ≠ 0 := by
  induction n using Nat.strongRecOn with
  | ind n ih =>
    -- Dividing by ten drops the last digit and keeps the first.
    have hdigits : decimal n = if n < 10 then [n.digitChar]
        else decimal (n / 10) ++ [(n % 10).digitChar] := Nat.toDigits_eq_if (by decide)
    rw [hdigits]
    by_cases hlt : n < 10
    · have hone : ∀ m < 10, 0 < m → valueOf (Nat.digitChar m) ≠ 0 := by decide
      rw [if_pos hlt]
      exact ⟨_, _, rfl, hone n hlt hn⟩
    · obtain ⟨c, cs, hcs, hc⟩ := ih (n / 10) (by omega) (by omega)
      rw [if_neg hlt, hcs]
      exact ⟨c, _, rfl, hc⟩

/-- A number is written with digits. -/
theorem isDigit_of_mem_decimal {n : Nat} {c : Char} (hc : c ∈ decimal n) : c.isDigit :=
  Nat.isDigit_of_mem_toDigits (by decide) (by decide) hc

/-- The digits of a number have its value. -/
theorem ofDigits_decimal (n : Nat) : ofDigits 10 ((decimal n).map valueOf) = n := by
  rw [ofDigits_values, decimal, Nat.ofDigitChars_ten_toDigits]

/-- The digits of a number are read as an integer if there is one for it. -/
theorem readUnsigned_decimal {negative : Bool} {n : Nat} {i : Int}
    (hi : integerOf? negative ((decimal n).map valueOf) = some i) {rest : List Char}
    (hrest : Ends rest) : readUnsigned negative (decimal n ++ rest) = some (integer i, rest) := by
  have hspan : spanDigits (decimal n ++ rest) = ((decimal n).map valueOf, rest) :=
    spanDigits_append (fun _ => isDigit_of_mem_decimal) hrest.noDigit
  -- Zeros in front would be refused, so the digits of zero are looked at apart.
  rcases Nat.eq_zero_or_pos n with rfl | hn
  · have hzero : (decimal 0).map valueOf = [0] := rfl
    rw [hzero] at hspan hi
    simp [readUnsigned, hspan, hrest.readFraction, hrest.readExponent, hi]
  · obtain ⟨c, cs, hcs, hc⟩ := exists_decimal_eq hn
    have hdigits : (decimal n).map valueOf = valueOf c :: cs.map valueOf := by
      rw [hcs, List.map_cons]
    rw [hdigits] at hspan hi
    simp [readUnsigned, hspan, hc, hrest.readFraction, hrest.readExponent, hi]

/-! ### Values -/

/-- A document whose strings name characters and whose numbers are integers of 64 bits. -/
inductive Plain : Json → Prop
  | null : Plain null
  | bool (b : Bool) : Plain (bool b)
  | integer {n : Int} (hmin : -0x8000000000000000 ≤ n) (hmax : n < 0x10000000000000000) :
    Plain (integer n)
  | string (s : String) : Plain (string (some s))
  | array {items : List Json} (h : ∀ j ∈ items, Plain j) : Plain (array items)
  | object {fields : List (String × Json)} (h : ∀ f ∈ fields, Plain f.2) :
    Plain (ofFields fields)

/-- The text of a document, as a list of characters. -/
def chars (j : Json) : List Char := j.compact.toList

/-- The document is read from its text, whatever ends the value there. Its text does not look like
    the end of an array, and twice its length is enough fuel. -/
structure Reads (j : Json) : Prop where
  begins : ∃ c cs, j.chars = c :: cs ∧ isSpace c = false ∧ c ≠ ']'
  readValue_eq : ∀ (fuel : Nat) (rest : List Char), 2 * j.chars.length ≤ fuel → Ends rest →
    readValue fuel (j.chars ++ rest) = some (j, rest)

/-- Where a text does not begin with white space, nothing is skipped. -/
theorem skipSpace_cons {c : Char} (hc : isSpace c = false) (cs : List Char) :
    skipSpace (c :: cs) = c :: cs := by
  simp [skipSpace, hc]

/-- No document has an empty text. -/
theorem Reads.length_pos {j : Json} (h : Reads j) : 0 < j.chars.length := by
  obtain ⟨c, cs, hcs, -⟩ := h.begins
  simp [hcs]

/-- The word for nothing is read. -/
theorem reads_null : Reads null where
  begins := ⟨_, _, rfl, rfl, by decide⟩
  readValue_eq fuel rest hfuel _ := by
    cases fuel with
    | zero => simp [chars, compact] at hfuel
    | succ fuel => rfl

/-- The words for truth values are read. -/
theorem reads_bool (b : Bool) : Reads (bool b) where
  begins := by cases b <;> exact ⟨_, _, rfl, rfl, by decide⟩
  readValue_eq fuel rest hfuel _ := by
    cases fuel with
    | zero => cases b <;> simp [chars, compact] at hfuel
    | succ fuel => cases b <;> rfl

/-- A string stands between quotes, with its characters escaped. -/
theorem chars_string (s : String) :
    (string (some s)).chars = '"' :: (s.toList.flatMap escaped ++ ['"']) := by
  simp [chars, compact, quoted]

/-- Strings are read. -/
theorem reads_string (s : String) : Reads (string (some s)) where
  begins := ⟨_, _, chars_string s, rfl, by decide⟩
  readValue_eq fuel rest hfuel _ := by
    rw [chars_string] at hfuel ⊢
    cases fuel with
    | zero => simp at hfuel
    | succ fuel =>
      have hstring := readString_escaped s rest
      simp [readValue, skipSpace_cons, isSpace, hstring]

/-- An integer is a sign and digits. -/
theorem chars_integer (n : Int) :
    (integer n).chars = if n < 0 then '-' :: decimal n.natAbs else decimal n.natAbs := by
  cases n with
  | ofNat n => simp [chars, compact, Int.repr, Nat.repr_eq_ofList_toDigits, decimal]
  | negSucc n => simp [chars, compact, Int.repr, Nat.repr_eq_ofList_toDigits, decimal]

/-- A digit is no other character. -/
theorem ne_of_isDigit {c d : Char} (hc : c.isDigit) (hd : d.isDigit = false) : c ≠ d := by
  rintro rfl
  simp [hc] at hd

/-- A digit is no white space. -/
theorem isSpace_of_isDigit {c : Char} (hc : c.isDigit) : isSpace c = false := by
  simp [isSpace, ne_of_isDigit hc]

/-- What begins with a digit is a number. -/
theorem readValue_digit {c : Char} (hc : c.isDigit) (fuel : Nat) (cs : List Char) :
    readValue (fuel + 1) (c :: cs) = readUnsigned false (c :: cs) := by
  have hword : word? (c :: cs) = none := by simp [word?, ne_of_isDigit hc]
  simp [readValue, skipSpace_cons (isSpace_of_isDigit hc), ne_of_isDigit hc, hword]

/-- What begins with a minus sign is a negative number. -/
theorem readValue_minus (fuel : Nat) (cs : List Char) :
    readValue (fuel + 1) ('-' :: cs) = readUnsigned true cs := rfl

/-- A number begins with a digit. -/
theorem exists_cons_decimal (n : Nat) : ∃ c cs, decimal n = c :: cs ∧ c.isDigit := by
  obtain ⟨c, cs, hcs⟩ := List.exists_cons_of_ne_nil (Nat.toDigits_ne_nil (b := 10) (n := n))
  exact ⟨c, cs, hcs, isDigit_of_mem_decimal (by rw [decimal, hcs]; exact List.mem_cons_self)⟩

/-- The digits of an integer of 64 bits give it back, together with its sign. -/
theorem integerOf?_decimal {n : Int} (hmin : -0x8000000000000000 ≤ n)
    (hmax : n < 0x10000000000000000) :
    integerOf? (n < 0) ((decimal n.natAbs).map valueOf) = some n := by
  by_cases hn : n < 0
  · have hvalue : 0 < n.natAbs ∧ n.natAbs ≤ 0x8000000000000000 := by omega
    have hneg : -(n.natAbs : Int) = n := by omega
    simp only [integerOf?, ofDigits_decimal, hn, decide_true, if_true, if_pos hvalue, hneg]
  · have hvalue : n.natAbs < 0x10000000000000000 := by omega
    have hpos : (n.natAbs : Int) = n := by omega
    simp only [integerOf?, ofDigits_decimal, hn, decide_false, Bool.false_eq_true, if_false,
      if_pos hvalue, hpos]

/-- Integers of 64 bits are read, with a sign or without. -/
theorem reads_integer {n : Int} (hmin : -0x8000000000000000 ≤ n) (hmax : n < 0x10000000000000000) :
    Reads (integer n) := by
  have hint := integerOf?_decimal hmin hmax
  obtain ⟨c, cs, hcs, hc⟩ := exists_cons_decimal n.natAbs
  by_cases hn : n < 0
  · have hchars : (integer n).chars = '-' :: decimal n.natAbs := by rw [chars_integer, if_pos hn]
    rw [decide_eq_true hn] at hint
    refine ⟨⟨_, _, hchars, rfl, by decide⟩, fun fuel rest hfuel hrest => ?_⟩
    rw [hchars] at hfuel ⊢
    rw [List.length_cons] at hfuel
    obtain ⟨fuel, rfl⟩ : ∃ m, fuel = m + 1 := ⟨fuel - 1, by omega⟩
    rw [List.cons_append, readValue_minus, readUnsigned_decimal hint hrest]
  · have hchars : (integer n).chars = decimal n.natAbs := by rw [chars_integer, if_neg hn]
    rw [decide_eq_false hn] at hint
    refine ⟨⟨c, cs, by rw [hchars, hcs], isSpace_of_isDigit hc, ne_of_isDigit hc rfl⟩,
      fun fuel rest hfuel hrest => ?_⟩
    rw [hchars, hcs] at hfuel ⊢
    rw [List.length_cons] at hfuel
    obtain ⟨fuel, rfl⟩ : ∃ m, fuel = m + 1 := ⟨fuel - 1, by omega⟩
    rw [List.cons_append, readValue_digit hc, ← List.cons_append, ← hcs,
      readUnsigned_decimal hint hrest]

/-! ### Items and fields -/

/-- Texts are added at the end, whatever stands in front. -/
theorem foldl_append_between (separator s t : String) (ss : List String) :
    ss.foldl (fun written s => written ++ separator ++ s) (s ++ t) =
      s ++ ss.foldl (fun written s => written ++ separator ++ s) t := by
  induction ss generalizing t with
  | nil => rfl
  | cons u ss ih => rw [List.foldl_cons, List.foldl_cons, ← ih, String.append_assoc,
      String.append_assoc, String.append_assoc]

/-- The first of several texts, the separator and the others. -/
theorem between_cons_cons (separator s t : String) (ss : List String) :
    between separator (s :: t :: ss) = s ++ separator ++ between separator (t :: ss) := by
  rw [between, List.foldl_cons, foldl_append_between, between]

/-- The text of the items of an array, with the bracket that closes it. -/
def itemsChars (items : List Json) : List Char :=
  (between "," (compactItems items)).toList ++ [']']

/-- One item has the closing bracket after it. -/
theorem itemsChars_singleton (j : Json) : itemsChars [j] = j.chars ++ [']'] := rfl

/-- An item before others has a comma after it. -/
theorem itemsChars_cons_cons (j k : Json) (items : List Json) :
    itemsChars (j :: k :: items) = j.chars ++ ',' :: itemsChars (k :: items) := by
  simp [itemsChars, compactItems, between_cons_cons, chars]

/-- An array is an opening bracket, its items and the closing one. -/
theorem chars_array (items : List Json) : (array items).chars = '[' :: itemsChars items := by
  simp [chars, compact, itemsChars]

/-- The last item is read with the bracket after it. -/
theorem readItems_last {j : Json} (hj : Reads j) {fuel : Nat} (hfuel : 2 * j.chars.length ≤ fuel)
    (rest : List Char) : readItems (fuel + 1) (j.chars ++ ']' :: rest) = some ([j], rest) := by
  have hvalue := hj.readValue_eq fuel (']' :: rest) hfuel (ends_cons (by decide) rest)
  simp [readItems, hvalue, readAfter, skipSpace_cons, isSpace]

/-- An item before a comma is read, and then those after it. -/
theorem readItems_comma {j : Json} (hj : Reads j) {fuel : Nat}
    (hfuel : 2 * j.chars.length ≤ fuel) {cs rest : List Char} {items : List Json}
    (hcs : readItems fuel cs = some (items, rest)) :
    readItems (fuel + 1) (j.chars ++ ',' :: cs) = some (j :: items, rest) := by
  have hvalue := hj.readValue_eq fuel (',' :: cs) hfuel (ends_cons (by decide) cs)
  simp [readItems, hvalue, readAfter, skipSpace_cons, isSpace, hcs]

/-- Items are read up to the bracket that closes the array. -/
theorem readItems_itemsChars (fuel : Nat) {j : Json} {items : List Json}
    (h : ∀ k ∈ j :: items, Reads k) (hfuel : 2 * (itemsChars (j :: items)).length ≤ fuel)
    (rest : List Char) :
    readItems fuel (itemsChars (j :: items) ++ rest) = some (j :: items, rest) := by
  induction items generalizing j fuel with
  | nil =>
    rw [itemsChars_singleton] at hfuel ⊢
    rw [List.length_append, List.length_singleton] at hfuel
    obtain ⟨fuel, rfl⟩ : ∃ m, fuel = m + 1 := ⟨fuel - 1, by omega⟩
    rw [List.append_assoc]
    exact readItems_last (h j List.mem_cons_self) (by omega) rest
  | cons k items ih =>
    have hj : Reads j := h j List.mem_cons_self
    rw [itemsChars_cons_cons] at hfuel ⊢
    rw [List.length_append, List.length_cons] at hfuel
    obtain ⟨fuel, rfl⟩ : ∃ m, fuel = m + 1 := ⟨fuel - 1, by omega⟩
    rw [List.append_assoc]
    -- The item is shorter than the whole, and so are the items after it; one unit of fuel is used
    -- up between them.
    have hpos := hj.length_pos
    exact readItems_comma hj (by omega)
      (ih fuel (fun l hl => h l (List.mem_cons_of_mem _ hl)) (by omega))

/-- Arrays are read if their items are. -/
theorem reads_array {items : List Json} (h : ∀ j ∈ items, Reads j) : Reads (array items) := by
  refine ⟨⟨_, _, chars_array items, rfl, by decide⟩, fun fuel rest hfuel _ => ?_⟩
  rw [chars_array] at hfuel ⊢
  rw [List.length_cons] at hfuel
  obtain ⟨fuel, rfl⟩ : ∃ m, fuel = m + 1 := ⟨fuel - 1, by omega⟩
  cases items with
  | nil => rfl
  | cons j items =>
    have hitems := readItems_itemsChars fuel h (by omega) rest
    -- The reader looks for the end of the array first.
    obtain ⟨c, cs, hcs, hspace, hend⟩ : ∃ c cs, itemsChars (j :: items) = c :: cs ∧
        isSpace c = false ∧ c ≠ ']' := by
      obtain ⟨c, cs, hcs, hc⟩ := (h j List.mem_cons_self).begins
      cases items with
      | nil => exact ⟨c, cs ++ [']'], by rw [itemsChars_singleton, hcs]; rfl, hc⟩
      | cons k items => exact ⟨c, _, by rw [itemsChars_cons_cons, hcs]; rfl, hc⟩
    rw [hcs] at hitems ⊢
    simp only [List.cons_append] at hitems ⊢
    simp [readValue, skipSpace_cons (c := '[') rfl, skipSpace_cons hspace, hend, hitems]

/-- The text of a field. -/
def fieldChars (f : String × Json) : List Char :=
  '"' :: (f.1.toList.flatMap escaped ++ '"' :: ':' :: f.2.chars)

/-- The text of the fields of an object, with the brace that closes it. -/
def fieldsChars (fields : List (String × Json)) : List Char :=
  (between "," (compactFields (fields.map fun f => (some f.1, f.2)))).toList ++ ['\x7d']

/-- One field has the closing brace after it. -/
theorem fieldsChars_singleton (f : String × Json) :
    fieldsChars [f] = fieldChars f ++ ['\x7d'] := by
  simp [fieldsChars, fieldChars, compactFields, between, quoted, chars]

/-- A field before others has a comma after it. -/
theorem fieldsChars_cons_cons (f g : String × Json) (fields : List (String × Json)) :
    fieldsChars (f :: g :: fields) = fieldChars f ++ ',' :: fieldsChars (g :: fields) := by
  simp [fieldsChars, fieldChars, compactFields, between_cons_cons, quoted, chars]

/-- An object is an opening brace, its fields and the closing one. -/
theorem chars_ofFields (fields : List (String × Json)) :
    (ofFields fields).chars = '\x7b' :: fieldsChars fields := by
  simp [chars, ofFields, compact, fieldsChars]

/-- The value of a field is shorter than the field. -/
theorem length_chars_lt (f : String × Json) : f.2.chars.length < (fieldChars f).length := by
  rw [fieldChars, List.length_cons, List.length_append, List.length_cons, List.length_cons]
  omega

/-- The last field is read with the brace after it. -/
theorem readFields_last {f : String × Json} (hf : Reads f.2) {fuel : Nat}
    (hfuel : 2 * (fieldChars f).length ≤ fuel) (rest : List Char) :
    readFields (fuel + 1) (fieldChars f ++ '\x7d' :: rest) = some ([(some f.1, f.2)], rest) := by
  have hname := readString_escaped f.1 (':' :: (f.2.chars ++ '\x7d' :: rest))
  have hlt := length_chars_lt f
  have hvalue := hf.readValue_eq fuel ('\x7d' :: rest) (by omega) (ends_cons (by decide) rest)
  simp [readFields, fieldChars, skipSpace_cons, isSpace, hname, hvalue, readAfter]

/-- A field before a comma is read, and then those after it. -/
theorem readFields_comma {f : String × Json} (hf : Reads f.2) {fuel : Nat}
    (hfuel : 2 * (fieldChars f).length ≤ fuel) {cs rest : List Char}
    {fields : List (Option String × Json)} (hcs : readFields fuel cs = some (fields, rest)) :
    readFields (fuel + 1) (fieldChars f ++ ',' :: cs) = some ((some f.1, f.2) :: fields, rest) := by
  have hname := readString_escaped f.1 (':' :: (f.2.chars ++ ',' :: cs))
  have hlt := length_chars_lt f
  have hvalue := hf.readValue_eq fuel (',' :: cs) (by omega) (ends_cons (by decide) cs)
  simp [readFields, fieldChars, skipSpace_cons, isSpace, hname, hvalue, readAfter, hcs]

/-- Fields are read up to the brace that closes the object. -/
theorem readFields_fieldsChars (fuel : Nat) {f : String × Json} {fields : List (String × Json)}
    (h : ∀ g ∈ f :: fields, Reads g.2) (hfuel : 2 * (fieldsChars (f :: fields)).length ≤ fuel)
    (rest : List Char) :
    readFields fuel (fieldsChars (f :: fields) ++ rest) =
      some ((f :: fields).map fun g => (some g.1, g.2), rest) := by
  induction fields generalizing f fuel with
  | nil =>
    rw [fieldsChars_singleton] at hfuel ⊢
    rw [List.length_append, List.length_singleton] at hfuel
    obtain ⟨fuel, rfl⟩ : ∃ m, fuel = m + 1 := ⟨fuel - 1, by omega⟩
    rw [List.append_assoc]
    exact readFields_last (h f List.mem_cons_self) (by omega) rest
  | cons g fields ih =>
    rw [fieldsChars_cons_cons] at hfuel ⊢
    rw [List.length_append, List.length_cons] at hfuel
    have hpos : 0 < (fieldChars f).length := Nat.succ_pos _
    obtain ⟨fuel, rfl⟩ : ∃ m, fuel = m + 1 := ⟨fuel - 1, by omega⟩
    rw [List.append_assoc]
    exact readFields_comma (h f List.mem_cons_self) (by omega)
      (ih fuel (fun g hg => h g (List.mem_cons_of_mem _ hg)) (by omega))

/-- Objects are read if the values of their fields are. -/
theorem reads_ofFields {fields : List (String × Json)} (h : ∀ f ∈ fields, Reads f.2) :
    Reads (ofFields fields) := by
  refine ⟨⟨_, _, chars_ofFields fields, rfl, by decide⟩, fun fuel rest hfuel _ => ?_⟩
  rw [chars_ofFields] at hfuel ⊢
  rw [List.length_cons] at hfuel
  obtain ⟨fuel, rfl⟩ : ∃ m, fuel = m + 1 := ⟨fuel - 1, by omega⟩
  cases fields with
  | nil => rfl
  | cons f fields =>
    have hfields := readFields_fieldsChars fuel h (by omega) rest
    -- The first field begins with a quote, so that this is not an object without fields.
    obtain ⟨cs, hcs⟩ : ∃ cs, fieldsChars (f :: fields) = '"' :: cs := by
      cases fields with
      | nil => exact ⟨_, fieldsChars_singleton f⟩
      | cons g fields => exact ⟨_, fieldsChars_cons_cons f g fields⟩
    rw [hcs] at hfields ⊢
    simp only [List.cons_append] at hfields ⊢
    simp [readValue, skipSpace_cons, isSpace, hfields, ofFields]

/-! ### Documents -/

/-- A plain document is read from its text. -/
theorem Plain.reads {j : Json} (h : Plain j) : Reads j := by
  induction h with
  | null => exact reads_null
  | bool b => exact reads_bool b
  | integer hmin hmax => exact reads_integer hmin hmax
  | string s => exact reads_string s
  | array _ ih => exact reads_array ih
  | object _ ih => exact reads_ofFields ih

/-- A plain document is what its text holds. -/
theorem parse?_compact {j : Json} (h : Plain j) : parse? j.compact = some j := by
  have hread : readValue (2 * j.chars.length + 2) j.chars = some (j, []) := by
    have hvalue := h.reads.readValue_eq (2 * j.chars.length + 2) [] (by omega) ends_nil
    rwa [List.append_nil] at hvalue
  rw [chars] at hread
  simp [parse?, hread, skipSpace]

end Json

end WhereClause
