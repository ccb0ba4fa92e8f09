import WhereClause.Proofs.Quoting

namespace WhereClause

/-!
# Literals with backslash escapes

In one dialect a backslash inside a literal escapes the character after it, so that a literal has to
double its backslashes as well as its quotes. Strings are written so and are read as what they are.
A character is written by the rule of the other dialects, which is the same thing for all characters
but one: the backslash escapes the quote that should close its literal.

* `readContent?`, `readLiteral?` — a literal at the start of a text, and what follows it;
* `readLiteral?_quoteEscaping` — doubled backslashes and quotes are read as single ones;
* `readLiteral?_quote_backslash` — a single backslash runs over the end of its literal;
* `MySql.literal_read_iff` — which values are read as what they are.
-/

/-! ### Reading -/

/-- What a backslash and the character after it stand for. Two backslashes stand for one; all other
    escapes are left open. -/
def escapeMeaning (others : Char → List Char) (c : Char) : List Char :=
  if c = '\\' then ['\\'] else others c

/-- The content of a literal after its opening quote, and the text after its closing one; absent if
    the literal is never closed. A backslash escapes the next character, and two quotes stand for
    one. -/
def readContent? (others : Char → List Char) : List Char → Option (List Char × List Char)
  | [] => none
  | '\\' :: [] => none
  | '\\' :: c :: cs => (readContent? others cs).map (Prod.map (escapeMeaning others c ++ ·) id)
  | '\'' :: '\'' :: cs => (readContent? others cs).map (Prod.map ('\'' :: ·) id)
  | '\'' :: cs => some ([], cs)
  | c :: cs => (readContent? others cs).map (Prod.map (c :: ·) id)

/-- The content of the literal that a text begins with, and the text after it. -/
def readLiteral? (others : Char → List Char) : List Char → Option (List Char × List Char)
  | '\'' :: cs => readContent? others cs
  | _ => none

section Reading

variable {others : Char → List Char} {content rest cs : List Char}

/-- A quote closes a literal if no second one follows. -/
theorem readContent?_closing (hrest : rest.head? ≠ some '\'') :
    readContent? others ('\'' :: rest) = some ([], rest) := by
  cases rest with
  | nil => rfl
  | cons c rest =>
    have hc : c ≠ '\'' := by simpa using hrest
    simp [readContent?, hc]

/-- A character that is neither a quote nor a backslash stands for itself. -/
theorem readContent?_cons {c : Char} (hquote : c ≠ '\'') (hbackslash : c ≠ '\\') :
    readContent? others (c :: cs) = (readContent? others cs).map (Prod.map (c :: ·) id) := by
  simp [readContent?, hquote, hbackslash]

/-- What follows a literal is shorter than the literal together with it. -/
theorem length_lt_of_readContent? (h : readContent? others cs = some (content, rest)) :
    rest.length < cs.length := by
  -- Where more content comes first, what follows is found further on.
  have hfurther : ∀ {f : List Char → List Char} {cs' content : List Char},
      (∀ {content}, readContent? others cs' = some (content, rest) → rest.length < cs'.length) →
      (readContent? others cs').map (Prod.map f id) = some (content, rest) →
      rest.length < cs'.length := by
    intro f cs' content ih hmap
    obtain ⟨⟨content', rest'⟩, hread, hpair⟩ := Option.map_eq_some_iff.mp hmap
    obtain rfl : rest' = rest := congrArg Prod.snd hpair
    exact ih hread
  fun_induction readContent? others cs generalizing content with
  | case1 | case2 => exact absurd h (by simp)
  | case3 c cs ih =>
    have hlt := hfurther ih h
    rw [List.length_cons, List.length_cons]
    omega
  | case4 cs ih =>
    have hlt := hfurther ih h
    rw [List.length_cons, List.length_cons]
    omega
  | case5 cs =>
    obtain rfl : cs = rest := congrArg Prod.snd (Option.some.inj h)
    rw [List.length_cons]
    omega
  | case6 c cs _ _ _ _ ih =>
    have hlt := hfurther ih h
    rw [List.length_cons]
    omega

/-! ### Doubled characters -/

/-- Doubled backslashes and quotes are read as single ones, up to the quote that closes the
    literal. -/
theorem readContent?_double (cs : List Char) (hrest : rest.head? ≠ some '\'') :
    readContent? others (Text.double '\'' (Text.double '\\' cs) ++ '\'' :: rest) =
      some (cs, rest) := by
  induction cs with
  | nil => exact readContent?_closing hrest
  | cons c cs ih =>
    by_cases hbackslash : c = '\\'
    · subst hbackslash
      simp [Text.double, readContent?, escapeMeaning, ih]
    · by_cases hquote : c = '\''
      · subst hquote
        simp [Text.double, readContent?, ih]
      · simp [Text.double, readContent?_cons hquote hbackslash, hquote, hbackslash, ih]

/-- **One literal.** A text with its backslashes and quotes doubled is read as one literal whose
    content is the text, and what follows is left. -/
theorem readLiteral?_quoteEscaping (cs : List Char) (hrest : rest.head? ≠ some '\'') :
    readLiteral? others (Text.quoteEscaping cs ++ rest) = some (cs, rest) := by
  have hread : readContent? others _ = _ := readContent?_double cs hrest
  simpa [Text.quoteEscaping, readLiteral?] using hread

/-- A backslash that is not doubled escapes the closing quote: its literal is never read as a
    backslash with just what follows left over. -/
theorem readLiteral?_quote_backslash :
    readLiteral? others (Text.quote ['\\'] ++ rest) ≠ some (['\\'], rest) := by
  intro h
  have hescaped : readContent? others ('\\' :: '\'' :: rest) = some (['\\'], rest) := h
  simp only [readContent?] at hescaped
  obtain ⟨⟨content, rest'⟩, hread, hpair⟩ := Option.map_eq_some_iff.mp hescaped
  obtain rfl : rest' = rest := congrArg Prod.snd hpair
  -- The quote belongs to the content, so that the literal would have to end inside of the rest.
  have hlt := length_lt_of_readContent? hread
  omega

end Reading

/-! ### Strings and characters -/

/-- Without backslashes there are none to double. -/
theorem Text.quoteEscaping_of_not_mem {cs : List Char} (h : '\\' ∉ cs) :
    quoteEscaping cs = quote cs := by
  have hdouble : double '\\' cs = cs := by
    induction cs with
    | nil => rfl
    | cons c cs ih =>
      rw [List.mem_cons, not_or] at h
      rw [double, if_neg (Ne.symm h.1), ih h.2]
  rw [quoteEscaping, quote, hdouble]

namespace MySql

/-- **Strings and characters, but for one.** A string or a character has a literal. Where no quote
    follows it, this is read as one literal whose content is the value, with just what follows left
    over, if and only if the value is not the character of a backslash. -/
theorem literal_read_iff (others : Char → List Char) {v : Value} {cs : List Char}
    (hv : v.chars? = some cs) {rest : List Char} (hrest : rest.head? ≠ some '\'') :
    ∃ t, MySql.rules.literal v = some t ∧
      (readLiteral? others (t.toList ++ rest) = some (cs, rest) ↔ v ≠ .char '\\') := by
  cases v with
  | string s =>
    obtain rfl : s.toList = cs := Option.some.inj hv
    refine ⟨String.ofList (Text.quoteEscaping s.toList), rfl, ?_⟩
    rw [String.toList_ofList, readLiteral?_quoteEscaping s.toList hrest]
    simp
  | char c =>
    obtain rfl : [c] = cs := Option.some.inj hv
    refine ⟨Generic.quoted [c], rfl, ?_⟩
    rw [Generic.quoted, String.toList_ofList]
    by_cases hc : c = '\\'
    · -- The backslash is not doubled and escapes the closing quote.
      subst hc
      exact ⟨fun h => absurd h readLiteral?_quote_backslash, fun h => absurd rfl h⟩
    · have hplain : '\\' ∉ [c] := by simpa using Ne.symm hc
      rw [← Text.quoteEscaping_of_not_mem hplain, readLiteral?_quoteEscaping [c] hrest]
      simp [hc]
  | null | bool | int | float | decimal | dateTime | dateTimeOffset | time | bytes | guid =>
    exact absurd hv (by simp [Value.chars?])

/-- A path with a quote and a backslash at its end is read back before a closing parenthesis. -/
theorem literal_read_iff_path :
    let v := Value.string "C:\\it's\\"
    v.chars? = some "C:\\it's\\".toList ∧
      MySql.rules.literal v = some "'C:\\\\it''s\\\\'" ∧
      readLiteral? (fun c => [c]) ("'C:\\\\it''s\\\\'".toList ++ [')']) =
        some ("C:\\it's\\".toList, [')']) := by
  intro v
  have hchars : v.chars? = some "C:\\it's\\".toList := rfl
  have hrest : [')'].head? ≠ some '\'' := by decide
  obtain ⟨t, ht, hread⟩ := literal_read_iff (fun c => [c]) hchars hrest
  have hliteral : MySql.rules.literal v = some "'C:\\\\it''s\\\\'" := by decide +kernel
  obtain rfl : t = "'C:\\\\it''s\\\\'" := Option.some.inj (ht.symm.trans hliteral)
  exact ⟨hchars, hliteral, hread.mpr (by simp [v])⟩

/-- The literal of a backslash is not closed where it should be. -/
theorem literal_backslash_unclosed :
    let v := Value.char '\\'
    v.chars? = some ['\\'] ∧ MySql.rules.literal v = some "'\\'" ∧
      readLiteral? (fun c => [c]) ("'\\'".toList ++ [')']) = none := by
  decide +kernel

end MySql

end WhereClause
