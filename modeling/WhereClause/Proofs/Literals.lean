import WhereClause.Dialect
import WhereClause.Parameter
import WhereClause.Proofs.Scanning

namespace WhereClause

/-!
# Literals of the dialects

Which characters a literal can hold. Numbers, dates and bytes are spelled with digits and a few
other characters, none of which is a quote or a parenthesis; texts are quoted.

* `Text.SpelledWith` — digits and a few other characters;
* `Leads` — a text closes its literals and leads from one depth of parentheses to another;
* `Dialect.literal_leads` — literals close what they open;
* `Dialect.literal_unmarked` — what is never bound holds no mark of a parameter.
-/

/-! ### Spelling with few characters -/

namespace Text

/-- Every character is a digit or one of a few others. -/
def SpelledWith (others cs : List Char) : Prop := ∀ c ∈ cs, c.isDigit ∨ c ∈ others

variable {others cs ds : List Char}

/-- A character that is neither a digit nor one of the others does not occur. -/
theorem SpelledWith.not_mem (h : SpelledWith others cs) {c : Char} (hdigit : c.isDigit = false)
    (hc : c ∉ others) : c ∉ cs := by
  intro hmem
  rcases h c hmem with h | h
  · simp [h] at hdigit
  · exact hc h

theorem spelledWith_nil : SpelledWith others [] := by simp [SpelledWith]

/-- One of the other characters may stand in front. -/
theorem SpelledWith.cons (h : SpelledWith others cs) {c : Char} (hc : c ∈ others) :
    SpelledWith others (c :: cs) := by
  simpa [SpelledWith, hc] using h

/-- Two texts of such characters make one. -/
theorem SpelledWith.append (h : SpelledWith others cs) (h' : SpelledWith others ds) :
    SpelledWith others (cs ++ ds) :=
  fun c hc => (List.mem_append.mp hc).elim (h c) (h' c)

/-- The beginning of such a text is one. -/
theorem SpelledWith.take (h : SpelledWith others cs) (n : Nat) : SpelledWith others (cs.take n) :=
  fun c hc => h c (List.mem_of_mem_take hc)

/-- The end of such a text is one. -/
theorem SpelledWith.drop (h : SpelledWith others cs) (n : Nat) : SpelledWith others (cs.drop n) :=
  fun c hc => h c (List.mem_of_mem_drop hc)

/-- The zeros that fill a number up are digits. -/
theorem spelledWith_zeros (n : Nat) : SpelledWith others (List.replicate n '0') := by
  intro c hc
  obtain rfl := List.eq_of_mem_replicate hc
  exact .inl rfl

/-- A number without a sign is spelled with digits alone. -/
theorem spelledWith_decimal (n : Nat) : SpelledWith others (decimal n) :=
  fun _ hc => .inl (Nat.isDigit_of_mem_toDigits (by decide) (by decide) hc)

/-- Numbers with the same digits are the same. -/
theorem toDigits_injective {m n : Nat} (h : Nat.toDigits 10 m = Nat.toDigits 10 n) : m = n := by
  rw [← Nat.ofDigitChars_ten_toDigits (n := m), h, Nat.ofDigitChars_ten_toDigits]

/-- So is a number that is filled up to a width. -/
theorem spelledWith_padded (width n : Nat) : SpelledWith others (padded width n) :=
  (spelledWith_zeros _).append (spelledWith_decimal n)

/-- There is a digit even if no width is asked for. -/
theorem padded_ne_nil (width n : Nat) : padded width n ≠ [] := by
  have hdigits : decimal n ≠ [] := Nat.toDigits_ne_nil
  simp [padded, hdigits]

/-- A byte is spelled with digits and the six letters of the upper case. -/
theorem spelledWith_hexByte (b : UInt8) :
    SpelledWith ['A', 'B', 'C', 'D', 'E', 'F'] (hexByte b) := by
  have hdigit : ∀ n < 16, (hexByte.upperHex n).isDigit ∨
      hexByte.upperHex n ∈ ['A', 'B', 'C', 'D', 'E', 'F'] := by decide
  have hb := b.toNat_lt
  intro c hc
  -- Two digits, for the upper and the lower half of the byte.
  rcases List.mem_cons.mp hc with rfl | hc
  · exact hdigit _ (by omega)
  · obtain rfl := List.mem_singleton.mp hc
    exact hdigit _ (by omega)

end Text

/-! ### Numbers and dates -/

open Text

/-- The characters of numbers besides digits. -/
def numberMarks : List Char := ['-', '.']

/-- The characters of dates and times besides digits. -/
def clockMarks : List Char := ['-', '+', '.', ':', ' ']

/-- An integer has a sign in front at most. -/
theorem spelledWith_int (n : Int) : SpelledWith numberMarks n.repr.toList := by
  cases n with
  | ofNat n =>
    show SpelledWith _ (Nat.repr n).toList
    rw [Nat.toList_repr]
    exact spelledWith_decimal n
  | negSucc n =>
    show SpelledWith _ ("-" ++ Nat.repr (n + 1)).toList
    rw [String.toList_append, Nat.toList_repr]
    exact (spelledWith_decimal (n + 1)).cons (by decide)

/-- A decimal has a sign and a point at most. -/
theorem Decimal.spelledWith_text (d : Decimal) : SpelledWith numberMarks d.text.toList := by
  have hds : SpelledWith numberMarks (padded (d.scale + 1) d.magnitude) := spelledWith_padded _ _
  rw [text, String.toList_ofList]
  -- The sign, the digits before the point, and the point with those after it.
  refine (SpelledWith.append ?_ (hds.take _)).append ?_
  · split
    · exact spelledWith_nil.cons (by decide)
    · exact spelledWith_nil
  · split
    · exact spelledWith_nil
    · exact (hds.drop _).cons (by decide)

/-- Digits are placed around a point, with zeros on either side of them. -/
theorem Shortest.spelledWith_positional {others : List Char} (hpoint : '.' ∈ others)
    (s : Shortest.Scaled) : SpelledWith others (Shortest.positional s) := by
  have hds : SpelledWith others (decimal s.digits) := spelledWith_decimal _
  simp only [Shortest.positional]
  split
  · split
    · exact hds
    · exact hds.append (spelledWith_zeros _)
  · split
    · exact (hds.take _).append ((hds.drop _).cons hpoint)
    · exact (spelledWith_zeros 1).append (((spelledWith_zeros _).append hds).cons hpoint)

/-- A finite floating-point number is written without an exponent, so it has a sign and a point at
    most. -/
theorem Floating.spelledWith_text {x : Floating} (hx : x.isFinite) (p : Precision) :
    SpelledWith numberMarks (x.text p).toList := by
  cases x with
  | finite negative m q =>
    rw [text, String.toList_ofList]
    refine SpelledWith.append ?_ (Shortest.spelledWith_positional (by decide) _)
    split
    · exact spelledWith_nil.cons (by decide)
    · exact spelledWith_nil
  | nan => simp [isFinite] at hx
  | infinite negative => simp [isFinite] at hx

namespace TimeOfDay

/-- Hours, minutes and seconds are separated by colons. -/
theorem spelledWith_clock {others : List Char} (hcolon : ':' ∈ others) (t : TimeOfDay) :
    SpelledWith others t.clock :=
  ((spelledWith_padded _ _).append ((spelledWith_padded _ _).cons hcolon)).append
    ((spelledWith_padded _ _).cons hcolon)

/-- A fraction of three digits follows if there is one. -/
theorem spelledWith_milliText {others : List Char} (hcolon : ':' ∈ others) (hpoint : '.' ∈ others)
    (t : TimeOfDay) : SpelledWith others t.milliText := by
  unfold milliText
  split
  · exact t.spelledWith_clock hcolon
  · exact (t.spelledWith_clock hcolon).append ((spelledWith_padded _ _).cons hpoint)

end TimeOfDay

/-- A date is spelled with digits and hyphens. A year of more than four digits has a sign. -/
theorem Date.spelledWith_text (d : Date) : SpelledWith clockMarks d.text := by
  have hyear : SpelledWith clockMarks (Date.yearText d.year) := by
    simp only [Date.yearText]
    refine SpelledWith.append ?_ (spelledWith_padded _ _)
    split
    · exact spelledWith_nil.cons (by decide)
    · split
      · exact spelledWith_nil.cons (by decide)
      · exact spelledWith_nil
  exact (hyear.append ((spelledWith_padded _ _).cons (by decide))).append
    ((spelledWith_padded _ _).cons (by decide))

namespace DateTime

/-- A date and a time of day to the second. -/
theorem spelledWith_clockText (dt : DateTime) : SpelledWith clockMarks dt.clockText :=
  dt.date.spelledWith_text.append ((dt.time.spelledWith_clock (by decide)).cons (by decide))

theorem spelledWith_milliText (dt : DateTime) : SpelledWith clockMarks dt.milliText :=
  dt.date.spelledWith_text.append
    ((dt.time.spelledWith_milliText (by decide) (by decide)).cons (by decide))

end DateTime

/-- An offset is a sign, hours and minutes. -/
theorem OffsetDateTime.spelledWith_offsetText (m : OffsetDateTime) :
    SpelledWith clockMarks m.offsetText := by
  refine SpelledWith.append (SpelledWith.cons (spelledWith_padded _ _) ?_)
    ((spelledWith_padded _ _).cons (by decide))
  unfold sign
  split <;> decide

/-! ### Texts that close their literals -/

/-- A text closes its literals and leads from one depth of parentheses to another. -/
def Leads (n : Nat) (t : List Char) (m : Nat) : Prop := depthAfter n (scan .outside t) = some m

instance (n : Nat) (t : List Char) (m : Nat) : Decidable (Leads n t m) :=
  inferInstanceAs (Decidable (_ = _))

/-- Two texts that close their literals do so one after the other, unless a quote meets a quote. -/
theorem Leads.append {n m k : Nat} {s t : List Char} (hs : Leads n s m) (ht : Leads m t k)
    (hquote : s.getLast? = some '\'' → t.head? ≠ some '\'') : Leads n (s ++ t) k := by
  unfold Leads at hs ht ⊢
  rw [scan_append (isSettled_of_depthAfter hs) hquote, depthAfter_append, hs, Option.bind_some, ht]

/-- A quoted text is closed, whatever it holds. -/
theorem leads_quote (n : Nat) (cs : List Char) : Leads n (Text.quote cs) n := by
  rw [Leads, scan_quote]
  rfl

/-- A text without quotes and parentheses stays at its depth. -/
theorem leads_plain {t : List Char} (hq : '\'' ∉ t) (ho : '(' ∉ t) (hc : ')' ∉ t) (n : Nat) :
    Leads n t n := by
  rw [Leads, scan_plain hq]
  exact depthAfter_plain ⟨ho, hc⟩ n

/-- Digits and a few other characters are plain if none of these is a quote or a parenthesis. -/
theorem Text.SpelledWith.leads {others cs : List Char} (h : SpelledWith others cs)
    (hplain : '\'' ∉ others ∧ '(' ∉ others ∧ ')' ∉ others) (n : Nat) : Leads n cs n :=
  leads_plain (h.not_mem rfl hplain.1) (h.not_mem rfl hplain.2.1) (h.not_mem rfl hplain.2.2) n

/-- A text without quotes between two quotes is quoted. -/
theorem quote_eq_of_not_mem {cs : List Char} (h : '\'' ∉ cs) :
    Text.quote cs = '\'' :: cs ++ ['\''] := by
  -- No quote is doubled, since there is none.
  have hdouble : Text.double '\'' cs = cs := by
    induction cs with
    | nil => rfl
    | cons c cs ih =>
      obtain ⟨hc, hcs⟩ : ¬ '\'' = c ∧ '\'' ∉ cs := by simpa using h
      rw [Text.double, if_neg (Ne.symm hc), ih hcs]
  rw [Text.quote, hdouble]

/-- A literal of digits and what belongs to them, between two fixed texts. -/
theorem leads_quoted {others cs : List Char} (h : SpelledWith others cs) (hq : '\'' ∉ others)
    (before after : List Char) {n : Nat}
    (hbefore : Leads 0 before n ∧ before.getLast? ≠ some '\'')
    (hafter : Leads n after 0 ∧ after.head? ≠ some '\'') :
    Leads 0 (before ++ ('\'' :: cs ++ ['\'']) ++ after) 0 := by
  rw [← quote_eq_of_not_mem (h.not_mem rfl hq)]
  exact (hbefore.1.append (leads_quote n cs) (fun hb => absurd hb hbefore.2)).append hafter.1
    (fun _ => hafter.2)

/-! ### Literals -/

/-- Bytes are spelled one after the other. -/
theorem Generic.spelledWith_hex (bs : List UInt8) :
    SpelledWith ['A', 'B', 'C', 'D', 'E', 'F'] (Generic.hex bs).toList := by
  rw [Generic.hex, String.toList_ofList]
  intro c hc
  obtain ⟨b, -, hc⟩ := List.mem_flatMap.mp hc
  exact spelledWith_hexByte b c hc

/-- The local time of a moment and its offset, with a blank in between. -/
theorem Generic.spelledWith_offsetText (m : OffsetDateTime) :
    SpelledWith clockMarks (Generic.offsetText m) :=
  m.localTime.spelledWith_milliText.append (m.spelledWith_offsetText.cons (by decide))

/-- A text between quotes is closed where its quotes are doubled. -/
theorem Generic.quoted_leads (cs : List Char) : Leads 0 (Generic.quoted cs).toList 0 := by
  rw [Generic.quoted, String.toList_ofList]
  exact leads_quote 0 cs

/-- The literals that most dialects share. Those of dates, times and bytes are quoted, with a word
    in front. -/
theorem Generic.literal_leads {v : Value} {t : String} (h : Generic.literal v = some t) :
    Leads 0 t.toList 0 := by
  cases v with
  | float p x =>
    simp only [Generic.literal] at h
    split at h
    · next hx =>
      obtain rfl := Option.some.inj h
      exact (Floating.spelledWith_text hx p).leads (by decide) 0
    · exact absurd h (by simp)
  | null =>
    obtain rfl := Option.some.inj h
    decide
  | bool b =>
    obtain rfl := Option.some.inj h
    cases b <;> decide
  | int n =>
    obtain rfl := Option.some.inj h
    exact (spelledWith_int n.val).leads (by decide) 0
  | decimal d =>
    obtain rfl := Option.some.inj h
    exact d.spelledWith_text.leads (by decide) 0
  | string s =>
    obtain rfl := Option.some.inj h
    exact quoted_leads s.toList
  | char c =>
    obtain rfl := Option.some.inj h
    exact quoted_leads [c]
  | guid g =>
    obtain rfl := Option.some.inj h
    exact quoted_leads g.text.toList
  | dateTime dt =>
    obtain rfl := Option.some.inj h
    simpa using leads_quoted dt.spelledWith_milliText (by decide) "TIMESTAMP ".toList []
      (n := 0) (by decide) (by decide)
  | dateTimeOffset m =>
    obtain rfl := Option.some.inj h
    simpa using leads_quoted (spelledWith_offsetText m) (by decide) "TIMESTAMP ".toList []
      (n := 0) (by decide) (by decide)
  | time t =>
    obtain rfl := Option.some.inj h
    have hmilli : SpelledWith clockMarks t.milliText :=
      t.spelledWith_milliText (by decide) (by decide)
    simpa using leads_quoted hmilli (by decide) "TIME ".toList [] (n := 0) (by decide) (by decide)
  | bytes bs =>
    obtain rfl := Option.some.inj h
    simpa using leads_quoted (Generic.spelledWith_hex bs) (by decide) "X".toList []
      (n := 0) (by decide) (by decide)

/-- Moments and times are quoted without a word in front, and bytes stand without quotes. -/
theorem SqlServer.literal_leads {v : Value} {t : String} (h : SqlServer.literal v = some t) :
    Leads 0 t.toList 0 := by
  unfold SqlServer.literal at h
  split at h
  · obtain rfl := Option.some.inj h
    exact Generic.quoted_leads _
  · next m =>
    obtain rfl := Option.some.inj h
    simpa using leads_quoted (Generic.spelledWith_offsetText m) (by decide) [] []
      (n := 0) (by decide) (by decide)
  · obtain rfl := Option.some.inj h
    exact Generic.quoted_leads _
  · next bs =>
    obtain rfl := Option.some.inj h
    have hmark : Leads 0 "0x".toList 0 := by decide
    rw [String.toList_append]
    exact hmark.append ((Generic.spelledWith_hex bs).leads (by decide) 0)
      (fun hq => absurd hq (by decide))
  · exact Generic.literal_leads h

/-- Dates, times and bytes are arguments of functions, in parentheses of their own. -/
theorem Oracle.literal_leads {v : Value} {t : String} (h : Oracle.literal v = some t) :
    Leads 0 t.toList 0 := by
  unfold Oracle.literal at h
  split at h
  · next dt =>
    obtain rfl := Option.some.inj h
    simpa using leads_quoted dt.spelledWith_clockText (by decide) "TO_DATE(".toList
      ", 'yyyy-mm-dd hh24:mi:ss')".toList (n := 1) (by decide) (by decide)
  · next m =>
    obtain rfl := Option.some.inj h
    -- The offset follows the clock after a blank, inside the same quotes.
    have hclock := m.localTime.spelledWith_clockText.append
      (m.spelledWith_offsetText.cons (show ' ' ∈ clockMarks by decide))
    simpa using leads_quoted hclock (by decide) "TO_TIMESTAMP_TZ(".toList
      ", 'yyyy-mm-dd hh24:mi:ss tzh:tzm')".toList (n := 1) (by decide) (by decide)
  · next t =>
    obtain rfl := Option.some.inj h
    have hclock : SpelledWith clockMarks t.clock := t.spelledWith_clock (by decide)
    simpa using leads_quoted hclock (by decide) "TO_DATE(".toList ", 'hh24:mi:ss')".toList
      (n := 1) (by decide) (by decide)
  · next bs =>
    obtain rfl := Option.some.inj h
    simpa using leads_quoted (Generic.spelledWith_hex bs) (by decide) "HEXTORAW(".toList
      ")".toList (n := 1) (by decide) (by decide)
  · exact Generic.literal_leads h

/-- Dates, moments and times are plain quoted texts. -/
theorem Sqlite.literal_leads {v : Value} {t : String} (h : Sqlite.literal v = some t) :
    Leads 0 t.toList 0 := by
  unfold Sqlite.literal at h
  split at h
  · obtain rfl := Option.some.inj h
    exact Generic.quoted_leads _
  · obtain rfl := Option.some.inj h
    exact Generic.quoted_leads _
  · obtain rfl := Option.some.inj h
    exact Generic.quoted_leads _
  · exact Generic.literal_leads h

/-- Dates and times are not quoted at all, and there are no bytes. -/
theorem Access.literal_leads {v : Value} {t : String} (h : Access.literal v = some t) :
    Leads 0 t.toList 0 := by
  -- Dates stand between number signs.
  have hdate : ∀ {cs : List Char}, SpelledWith clockMarks cs →
      Leads 0 ("#" ++ String.ofList cs ++ "#").toList 0 := by
    intro cs hcs
    have hsign : Leads 0 "#".toList 0 := by decide
    simpa using (hsign.append (hcs.leads (by decide) 0) (fun hq => absurd hq (by decide))).append
      hsign (fun _ => by decide)
  unfold Access.literal at h
  split at h
  · next b =>
    obtain rfl := Option.some.inj h
    cases b <;> decide
  · next dt =>
    obtain rfl := Option.some.inj h
    exact hdate dt.spelledWith_clockText
  · next m =>
    obtain rfl := Option.some.inj h
    exact hdate m.utc.spelledWith_clockText
  · next t =>
    obtain rfl := Option.some.inj h
    exact hdate (t.spelledWith_clock (by decide))
  · exact absurd h (by simp)
  · exact Generic.literal_leads h

/-- Dates, moments and times are plain quoted texts, and backslashes in a text are doubled before
    its quotes are. -/
theorem MySql.literal_leads {v : Value} {t : String} (h : MySql.literal v = some t) :
    Leads 0 t.toList 0 := by
  unfold MySql.literal at h
  split at h
  · obtain rfl := Option.some.inj h
    exact Generic.quoted_leads _
  · obtain rfl := Option.some.inj h
    exact Generic.quoted_leads _
  · obtain rfl := Option.some.inj h
    exact Generic.quoted_leads _
  · next s =>
    obtain rfl := Option.some.inj h
    rw [String.toList_ofList]
    exact leads_quote 0 (Text.double '\\' s.toList)
  · exact Generic.literal_leads h

namespace Dialect

/-- **Literals close.** Every literal of every dialect ends outside of quotes and closes the
    parentheses it opens. -/
theorem literal_leads (d : Dialect) {v : Value} {t : String} (h : d.rules.literal v = some t) :
    Leads 0 t.toList 0 := by
  cases d with
  | generic => exact Generic.literal_leads h
  | sqlServer | sqlServerCe => exact SqlServer.literal_leads h
  | oracle => exact Oracle.literal_leads h
  | sqlite => exact Sqlite.literal_leads h
  | access => exact Access.literal_leads h
  | mySql => exact MySql.literal_leads h

/-- Texts are quoted in all dialects but one, which also doubles backslashes. -/
theorem literal_string {d : Dialect} (hd : d ≠ .mySql) (s : String) :
    d.rules.literal (.string s) = some (Generic.quoted s.toList) := by
  cases d <;> first | rfl | exact absurd rfl hd

/-- A character is quoted like a text of its own, in every dialect. -/
theorem literal_char (d : Dialect) (c : Char) :
    d.rules.literal (.char c) = some (Generic.quoted [c]) := by
  cases d <;> rfl

/-- What is never bound holds no mark of a parameter: nulls, truth values and numbers. -/
theorem literal_unmarked (d : Dialect) {policy : Policy} {v : Value} {t : String}
    (h : d.rules.literal v = some t) (hv : policy.binds v = false) :
    '@' ∉ t.toList ∧ ':' ∉ t.toList := by
  have hnumber : ∀ {cs : List Char}, SpelledWith numberMarks cs → '@' ∉ cs ∧ ':' ∉ cs :=
    fun hcs => ⟨hcs.not_mem rfl (by decide), hcs.not_mem rfl (by decide)⟩
  -- For these values all dialects agree, except that truth values can be spelled differently.
  cases v with
  | null =>
    obtain rfl : "NULL" = t := by cases d <;> exact Option.some.inj h
    decide
  | bool b =>
    cases d <;> cases b <;> (obtain rfl := Option.some.inj h; decide)
  | int n =>
    obtain rfl : n.val.repr = t := by cases d <;> exact Option.some.inj h
    exact hnumber (spelledWith_int n.val)
  | float p x =>
    have hliteral : (if x.isFinite then some (x.text p) else none) = some t := by
      cases d <;> exact h
    split at hliteral
    · next hx =>
      obtain rfl := Option.some.inj hliteral
      exact hnumber (Floating.spelledWith_text hx p)
    · exact absurd hliteral (by simp)
  | decimal x =>
    obtain rfl : x.text = t := by cases d <;> exact Option.some.inj h
    exact hnumber x.spelledWith_text
  | string | char | dateTime | dateTimeOffset | time | bytes | guid =>
    cases policy <;> exact absurd hv (by simp [Policy.binds, Value.isNumeric, Value.hostKind?,
      HostKind.isNumeric])

end Dialect

end WhereClause
