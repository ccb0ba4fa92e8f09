import WhereClause.Proofs.Quoting

namespace WhereClause

/-!
# Queries without comments

Hyphens come from signs, from dates and from identifiers as well as from the forms of a dialect, and
any character can come from a column or a string. Literals of values have no two hyphens in a row,
and the forms keep hyphens of different origin apart, so that a query opens no comment unless a
column or a string already does.

* `Dialect.literal_commentFree` — a literal opens no comment, if the string in it does not;
* `Renderer.query_not_hasComment` — whole queries.
-/

/-! ### Texts with hyphens in them -/

/-- A text without hyphens and slashes opens no comment. -/
theorem commentFree_of_not_mem {cs : List Char} (hdash : '-' ∉ cs) (hslash : '/' ∉ cs) :
    CommentFree cs := by
  induction cs with
  | nil => exact commentFree_nil
  | cons a cs ih =>
    simp only [List.mem_cons, not_or] at hdash hslash
    exact List.isChain_cons.mpr ⟨fun b _ => opensComment_of_left
      ⟨Ne.symm hdash.1, Ne.symm hslash.1⟩ b, ih hdash.2 hslash.2⟩

/-- Digits and a few other characters meet nothing if no opener is made of these. -/
theorem Text.SpelledWith.fenced {others cs : List Char} (h : SpelledWith others cs)
    (hothers : '-' ∉ others ∧ '/' ∉ others ∧ '*' ∉ others) : Fenced cs := by
  have hdash : '-' ∉ cs := h.not_mem rfl hothers.1
  have hslash : '/' ∉ cs := h.not_mem rfl hothers.2.1
  have hstar : '*' ∉ cs := h.not_mem rfl hothers.2.2
  -- No opener inside, and none with what stands before or after.
  refine ⟨commentFree_of_not_mem hdash hslash, fun b hb => ⟨?_, ?_⟩, fun a ha => ⟨?_, ?_⟩⟩
  · exact ne_of_mem_of_not_mem (List.mem_of_mem_head? hb) hdash
  · exact ne_of_mem_of_not_mem (List.mem_of_mem_head? hb) hstar
  · exact ne_of_mem_of_not_mem (List.mem_of_mem_getLast? ha) hdash
  · exact ne_of_mem_of_not_mem (List.mem_of_mem_getLast? ha) hslash

/-- A text that meets nothing may follow any other. -/
theorem CommentFree.append_fenced {s t : List Char} (hs : CommentFree s) (ht : Fenced t) :
    CommentFree (s ++ t) :=
  hs.append ht.1 fun a _ b hb => opensComment_of_right (ht.2.1 b hb) a

/-- Any text may follow one that meets nothing. -/
theorem Fenced.append_commentFree {s t : List Char} (hs : Fenced s) (ht : CommentFree t) :
    CommentFree (s ++ t) :=
  hs.1.append ht fun a ha b _ => opensComment_of_left (hs.2.2 a ha) b

/-- A sign in front. -/
theorem Fenced.cons_hyphen {t : List Char} (ht : Fenced t) : CommentFree ('-' :: t) :=
  CommentFree.append_fenced (List.isChain_singleton '-') ht

/-- One hyphen between two texts. -/
theorem Fenced.hyphen {s t : List Char} (hs : Fenced s) (ht : Fenced t) (hne : s ≠ [])
    (hne' : t ≠ []) : Fenced (s ++ '-' :: t) := by
  refine ⟨hs.append_commentFree ht.cons_hyphen, fun b hb => ?_, fun a ha => ?_⟩
  · rw [List.head?_append_of_ne_nil _ hne] at hb
    exact hs.2.1 b hb
  · rw [List.getLast?_append_of_ne_nil _ (by simp), List.getLast?_cons_of_ne_nil hne'] at ha
    exact ht.2.2 a ha

/-- Two texts with a character between them that meets nothing. -/
theorem CommentFree.separated {s t : List Char} {c : Char} (hs : CommentFree s)
    (hc : c ∉ ['-', '/', '*']) (ht : CommentFree t) : CommentFree (s ++ c :: t) := by
  simpa using (hs.append_fenced (fenced_singleton hc)).append ht fun a ha b _ => by
    obtain rfl : c = a := by simpa using ha
    exact opensComment_of_left ((fenced_singleton hc).2.2 c rfl) b

/-- A text with or without a minus sign. -/
theorem Fenced.signed {t : List Char} (ht : Fenced t) (negative : Prop) [Decidable negative] :
    CommentFree ((if negative then ['-'] else []) ++ t) := by
  split
  · exact ht.cons_hyphen
  · exact ht.1

/-- Writing a character twice leaves the first character where it is. -/
theorem Text.head?_double (q : Char) (cs : List Char) : (double q cs).head? = cs.head? := by
  cases cs with
  | nil => rfl
  | cons c cs =>
    rw [double]
    split
    · next hc => simp [hc]
    · rfl

/-- Writing a character twice opens no comment, if it is not used in the openers. -/
theorem CommentFree.double {q : Char} (hq : q ∉ ['-', '/', '*']) {cs : List Char}
    (h : CommentFree cs) : CommentFree (Text.double q cs) := by
  have hmeet : ∀ b, opensComment q b = false :=
    opensComment_of_left ((fenced_singleton hq).2.2 q rfl)
  induction cs with
  | nil => exact h
  | cons c cs ih =>
    obtain ⟨hhead, hcs⟩ := List.isChain_cons.mp h
    -- A doubled character meets itself and then what followed it before.
    rw [Text.double]
    split
    · exact List.isChain_cons_cons.mpr
        ⟨hmeet q, List.isChain_cons.mpr ⟨fun b _ => hmeet b, ih hcs⟩⟩
    · exact List.isChain_cons.mpr ⟨by rwa [Text.head?_double], ih hcs⟩

/-! ### Numbers, dates and identifiers -/

/-- The digits of an integer follow one sign at most. -/
theorem commentFree_int (n : Int) : CommentFree n.repr.toList := by
  have hdigits : ∀ m, Fenced (Nat.repr m).toList := by
    intro m
    rw [Nat.toList_repr]
    exact (Text.spelledWith_decimal m : Text.SpelledWith [] _).fenced (by decide)
  cases n with
  | ofNat n => exact (hdigits n).1
  | negSucc n =>
    show CommentFree ("-" ++ Nat.repr (n + 1)).toList
    rw [String.toList_append]
    exact (hdigits (n + 1)).cons_hyphen

/-- The digits of a decimal follow one sign at most. -/
theorem Decimal.commentFree_text (d : Decimal) : CommentFree d.text.toList := by
  have hds : Text.SpelledWith ['.'] (Text.padded (d.scale + 1) d.magnitude) :=
    Text.spelledWith_padded _ _
  rw [text, String.toList_ofList, List.append_assoc]
  refine Fenced.signed (Text.SpelledWith.fenced (?_ : Text.SpelledWith ['.'] _) (by decide)) _
  refine (hds.take _).append ?_
  split
  · exact Text.spelledWith_nil
  · exact (hds.drop _).cons (by decide)

/-- There is no exponent in a floating-point number, so a hyphen can only be its sign. -/
theorem Floating.commentFree_text {x : Floating} (hx : x.isFinite) (p : Precision) :
    CommentFree (x.text p).toList := by
  cases x with
  | finite negative m q =>
    rw [text, String.toList_ofList]
    exact ((Shortest.spelledWith_positional (by decide) _ : Text.SpelledWith ['.'] _).fenced
      (by decide)).signed _
  | nan => simp [isFinite] at hx
  | infinite negative => simp [isFinite] at hx

/-- Year, month and day are apart, and only the year can have a sign. -/
theorem Date.commentFree_text (d : Date) : CommentFree d.text := by
  have hpadded : ∀ width n, Fenced (Text.padded width n) := fun width n =>
    (Text.spelledWith_padded width n : Text.SpelledWith [] _).fenced (by decide)
  have hfields : Fenced (Text.padded 4 d.year.natAbs ++ '-' :: Text.padded 2 d.month ++
      '-' :: Text.padded 2 d.day) :=
    ((hpadded _ _).hyphen (hpadded _ _) (Text.padded_ne_nil _ _) (Text.padded_ne_nil _ _)).hyphen
      (hpadded _ _) (by simp) (Text.padded_ne_nil _ _)
  have hsign : CommentFree (if d.year < 0 then ['-'] else if 9999 < d.year then ['+'] else []) := by
    split
    · exact List.isChain_singleton _
    · split
      · exact List.isChain_singleton _
      · exact commentFree_nil
  simpa [text, yearText] using hsign.append_fenced hfields

/-- The characters of clock times besides digits. -/
def timeMarks : List Char := [':', '.']

/-- A time of day has no hyphens. -/
theorem TimeOfDay.fenced_clock (t : TimeOfDay) : Fenced t.clock :=
  (t.spelledWith_clock (by decide) : Text.SpelledWith timeMarks _).fenced (by decide)

/-- Nor has one with three digits of a fraction. -/
theorem TimeOfDay.fenced_milliText (t : TimeOfDay) : Fenced t.milliText :=
  (t.spelledWith_milliText (by decide) (by decide) : Text.SpelledWith timeMarks _).fenced
    (by decide)

/-- Nor has one with as many digits as it takes. -/
theorem TimeOfDay.fenced_text (t : TimeOfDay) : Fenced t.text := by
  have hfraction : Text.SpelledWith timeMarks t.fraction := by
    have hplaces : ∀ width n, Text.SpelledWith timeMarks ('.' :: Text.padded width n) :=
      fun width n => (Text.spelledWith_padded width n).cons (by decide)
    unfold fraction
    split
    · exact Text.spelledWith_nil
    · split
      · exact hplaces _ _
      · split
        · exact hplaces _ _
        · exact hplaces _ _
  exact ((t.spelledWith_clock (by decide)).append hfraction).fenced (by decide)

namespace DateTime

/-- Date and time are a blank apart. -/
theorem commentFree_clockText (dt : DateTime) : CommentFree dt.clockText :=
  dt.date.commentFree_text.separated (by decide) dt.time.fenced_clock.1

/-- Date and time are a blank apart, also where a fraction follows. -/
theorem commentFree_milliText (dt : DateTime) : CommentFree dt.milliText :=
  dt.date.commentFree_text.separated (by decide) dt.time.fenced_milliText.1

end DateTime

namespace OffsetDateTime

/-- Only the sign of an offset can be a hyphen. -/
theorem commentFree_offsetText (m : OffsetDateTime) : CommentFree m.offsetText := by
  have hdigits : Fenced (Text.padded 2 (m.roundedMinutes / 60) ++
      ':' :: Text.padded 2 (m.roundedMinutes % 60)) :=
    ((Text.spelledWith_padded _ _).append ((Text.spelledWith_padded _ _).cons (by decide)) :
      Text.SpelledWith timeMarks _).fenced (by decide)
  have hsign : CommentFree [m.sign] := List.isChain_singleton _
  simpa [offsetText] using hsign.append_fenced hdigits

/-- The sign of the offset follows a digit. -/
theorem commentFree_internetText (m : OffsetDateTime) : CommentFree m.internetText := by
  have htime := m.localTime.time.fenced_text.append_commentFree m.commentFree_offsetText
  simpa [internetText, DateTime.joined] using
    m.localTime.date.commentFree_text.separated (c := 'T') (by decide) htime

end OffsetDateTime

/-- A blank stands between the time and the sign of the offset. -/
theorem Generic.commentFree_offsetText (m : OffsetDateTime) :
    CommentFree (Generic.offsetText m) :=
  m.localTime.commentFree_milliText.separated (by decide) m.commentFree_offsetText

/-- Groups of digits have one hyphen between them. -/
theorem Guid.commentFree_text (g : Guid) : CommentFree g.text.toList := by
  have hdigit : ∀ d : Fin 16, (Nat.digitChar d.val).isDigit ∨
      Nat.digitChar d.val ∈ ['a', 'b', 'c', 'd', 'e', 'f'] := by decide
  have hdigits : Text.SpelledWith ['a', 'b', 'c', 'd', 'e', 'f']
      (g.digits.map fun d => Nat.digitChar d.val) := by
    intro c hc
    obtain ⟨d, -, rfl⟩ := List.mem_map.mp hc
    exact hdigit d
  have hlength : (g.digits.map fun d => Nat.digitChar d.val).length = 32 := by
    rw [List.length_map, g.length_eq]
  rw [text, String.toList_ofList]
  generalize (g.digits.map fun d => Nat.digitChar d.val) = cs at hdigits hlength
  have hgroup : ∀ i n, Fenced ((cs.drop i).take n) := fun i n =>
    ((hdigits.drop i).take n).fenced (by decide)
  have hne : ∀ i n, i < 32 → 0 < n → (cs.drop i).take n ≠ [] := by
    intro i n hi hn
    exact List.ne_nil_of_length_pos (by simp; omega)
  -- The five groups are joined from left to right, with a hyphen before each of them.
  have h8 := ((hdigits.take 8).fenced (by decide)).hyphen (hgroup 8 4)
    (List.ne_nil_of_length_pos (by simp; omega)) (hne 8 4 (by decide) (by decide))
  have h12 := h8.hyphen (hgroup 12 4) (by simp) (hne 12 4 (by decide) (by decide))
  have h16 := h12.hyphen (hgroup 16 4) (by simp) (hne 16 4 (by decide) (by decide))
  exact (h16.hyphen ((hdigits.drop 20).fenced (by decide)) (by simp)
    (List.ne_nil_of_length_pos (by simp; omega))).1

/-! ### Literals -/

instance (cs : List Char) : Decidable (Fenced cs) :=
  decidable_of_iff (CommentFree cs ∧ (cs.head?.all fun b => b != '-' && b != '*') = true ∧
    (cs.getLast?.all fun a => a != '-' && a != '/') = true) (by simp [Fenced, Option.all_eq_true])

/-- Quotes around a text, and those doubled in it, open no comment. -/
theorem Generic.commentFree_quoted {cs : List Char} (h : CommentFree cs) :
    CommentFree (Generic.quoted cs).toList := by
  rw [Generic.quoted, String.toList_ofList, Text.quote]
  have hquote : Fenced ['\''] := by decide
  exact (h.double (by decide)).between hquote (by decide)

/-- Hexadecimal digits meet nothing. -/
theorem Generic.fenced_hex (bs : List UInt8) : Fenced (Generic.hex bs).toList :=
  (Generic.spelledWith_hex bs).fenced (by decide)

/-- A literal with fixed texts around the value. -/
theorem CommentFree.wrapped {cs : List Char} (h : CommentFree cs) {before after : String}
    (hbefore : Fenced before.toList) (hafter : Fenced after.toList) :
    CommentFree (before ++ String.ofList cs ++ after).toList := by
  simpa using h.between hbefore hafter

/-- The literals that most dialects share. A text opens no comment if what it quotes does not. -/
theorem Generic.literal_commentFree {v : Value} {t : String} (h : Generic.literal v = some t)
    (hv : ∀ cs, v.chars? = some cs → CommentFree cs) : CommentFree t.toList := by
  cases v with
  | float p x =>
    simp only [Generic.literal] at h
    split at h
    · next hx =>
      obtain rfl := Option.some.inj h
      exact Floating.commentFree_text hx p
    · exact absurd h (by simp)
  | null =>
    obtain rfl := Option.some.inj h
    decide
  | bool b =>
    obtain rfl := Option.some.inj h
    cases b <;> decide
  | int n =>
    obtain rfl := Option.some.inj h
    exact commentFree_int n.val
  | decimal d =>
    obtain rfl := Option.some.inj h
    exact d.commentFree_text
  | string s =>
    obtain rfl := Option.some.inj h
    exact commentFree_quoted (hv _ rfl)
  | char c =>
    obtain rfl := Option.some.inj h
    exact commentFree_quoted (hv _ rfl)
  | guid g =>
    obtain rfl := Option.some.inj h
    exact commentFree_quoted g.commentFree_text
  | dateTime dt =>
    obtain rfl := Option.some.inj h
    exact dt.commentFree_milliText.wrapped (by decide) (by decide)
  | dateTimeOffset m =>
    obtain rfl := Option.some.inj h
    exact (commentFree_offsetText m).wrapped (by decide) (by decide)
  | time t =>
    obtain rfl := Option.some.inj h
    exact t.fenced_milliText.1.wrapped (by decide) (by decide)
  | bytes bs =>
    obtain rfl := Option.some.inj h
    have hopen : Fenced "X'".toList := by decide
    have hclose : Fenced "'".toList := by decide
    simpa using (fenced_hex bs).1.wrapped hopen hclose

/-- Dates and times are quoted texts, and bytes follow their mark. -/
theorem SqlServer.literal_commentFree {v : Value} {t : String} (h : SqlServer.literal v = some t)
    (hv : ∀ cs, v.chars? = some cs → CommentFree cs) : CommentFree t.toList := by
  unfold SqlServer.literal at h
  split at h
  · next dt =>
    obtain rfl := Option.some.inj h
    exact Generic.commentFree_quoted dt.commentFree_milliText
  · next m =>
    obtain rfl := Option.some.inj h
    exact (Generic.commentFree_offsetText m).wrapped (by decide) (by decide)
  · next t =>
    obtain rfl := Option.some.inj h
    exact Generic.commentFree_quoted t.fenced_milliText.1
  · next bs =>
    obtain rfl := Option.some.inj h
    rw [String.toList_append]
    exact CommentFree.append_fenced (by decide) (Generic.fenced_hex bs)
  · exact Generic.literal_commentFree h hv

/-- The names of the functions and the formats of dates have single hyphens only, away from their
    ends. -/
theorem Oracle.literal_commentFree {v : Value} {t : String} (h : Oracle.literal v = some t)
    (hv : ∀ cs, v.chars? = some cs → CommentFree cs) : CommentFree t.toList := by
  unfold Oracle.literal at h
  split at h
  · next dt =>
    obtain rfl := Option.some.inj h
    exact dt.commentFree_clockText.wrapped (by decide) (by decide)
  · next m =>
    obtain rfl := Option.some.inj h
    exact (m.localTime.commentFree_clockText.separated (by decide) m.commentFree_offsetText).wrapped
      (by decide) (by decide)
  · next t =>
    obtain rfl := Option.some.inj h
    exact t.fenced_clock.1.wrapped (by decide) (by decide)
  · next bs =>
    obtain rfl := Option.some.inj h
    have hopen : Fenced "HEXTORAW('".toList := by decide
    have hclose : Fenced "')".toList := by decide
    simpa using (Generic.fenced_hex bs).1.wrapped hopen hclose
  · exact Generic.literal_commentFree h hv

/-- Moments have the sign of their offset right after the time. -/
theorem Sqlite.literal_commentFree {v : Value} {t : String} (h : Sqlite.literal v = some t)
    (hv : ∀ cs, v.chars? = some cs → CommentFree cs) : CommentFree t.toList := by
  unfold Sqlite.literal at h
  split at h
  · next dt =>
    obtain rfl := Option.some.inj h
    exact Generic.commentFree_quoted dt.commentFree_milliText
  · next m =>
    obtain rfl := Option.some.inj h
    exact Generic.commentFree_quoted m.commentFree_internetText
  · next t =>
    obtain rfl := Option.some.inj h
    exact Generic.commentFree_quoted t.fenced_milliText.1
  · exact Generic.literal_commentFree h hv

/-- Dates stand between number signs, which meet nothing. -/
theorem Access.literal_commentFree {v : Value} {t : String} (h : Access.literal v = some t)
    (hv : ∀ cs, v.chars? = some cs → CommentFree cs) : CommentFree t.toList := by
  unfold Access.literal at h
  split at h
  · next b =>
    obtain rfl := Option.some.inj h
    cases b <;> decide
  · next dt =>
    obtain rfl := Option.some.inj h
    exact dt.commentFree_clockText.wrapped (by decide) (by decide)
  · next m =>
    obtain rfl := Option.some.inj h
    exact m.utc.commentFree_clockText.wrapped (by decide) (by decide)
  · next t =>
    obtain rfl := Option.some.inj h
    exact t.fenced_clock.1.wrapped (by decide) (by decide)
  · exact absurd h (by simp)
  · exact Generic.literal_commentFree h hv

/-- Backslashes are doubled as well as quotes, and neither is used in an opener. -/
theorem MySql.literal_commentFree {v : Value} {t : String} (h : MySql.literal v = some t)
    (hv : ∀ cs, v.chars? = some cs → CommentFree cs) : CommentFree t.toList := by
  unfold MySql.literal at h
  split at h
  · next dt =>
    obtain rfl := Option.some.inj h
    exact Generic.commentFree_quoted dt.commentFree_milliText
  · next m =>
    obtain rfl := Option.some.inj h
    exact Generic.commentFree_quoted m.utc.commentFree_milliText
  · next t =>
    obtain rfl := Option.some.inj h
    exact Generic.commentFree_quoted t.fenced_milliText.1
  · next s =>
    obtain rfl := Option.some.inj h
    exact Generic.commentFree_quoted (CommentFree.double (by decide) (hv s.toList rfl))
  · exact Generic.literal_commentFree h hv

namespace Dialect

/-- A literal opens no comment, if the string in it does not. -/
theorem literal_commentFree (d : Dialect) {v : Value} {t : String} (h : d.rules.literal v = some t)
    (hv : ∀ cs, v.chars? = some cs → CommentFree cs) : CommentFree t.toList := by
  cases d with
  | generic => exact Generic.literal_commentFree h hv
  | sqlServer | sqlServerCe => exact SqlServer.literal_commentFree h hv
  | oracle => exact Oracle.literal_commentFree h hv
  | sqlite => exact Sqlite.literal_commentFree h hv
  | access => exact Access.literal_commentFree h hv
  | mySql => exact MySql.literal_commentFree h hv

/-- A parameter has no hyphen and no slash. -/
theorem parameter_commentFree (d : Dialect) (n : Nat) :
    CommentFree (d.rules.paramMark ++ Bindings.nameOf n).toList := by
  have hmark : d.mark ∈ ['@', ':', 'p'] := by
    rcases d.mark_eq with h | h <;> simp [h]
  rw [toList_parameter]
  have hname : Text.SpelledWith ['@', ':', 'p'] (d.mark :: 'p' :: Nat.toDigits 10 n) :=
    ((Text.spelledWith_decimal n).cons (by decide)).cons hmark
  exact (hname.fenced (by decide)).1

end Dialect

/-! ### Queries -/

/-- However a constant is spelled, the spelling opens no comment, if a string that is not bound does
    not. -/
theorem Settings.Spells.commentFree {d : Dialect} {w : Settings} {b : Bindings}
    (hrules : w.rules = d.rules) {x : Position × Constant} (hx : w.Spells b x)
    (hv : ∀ cs, x.2.value.chars? = some cs → w.mode.binds x.2.value = false → CommentFree cs) :
    CommentFree (w.spell b x).toList := by
  cases hx with
  | parameter n hbinds hname =>
    rw [spell, if_pos hbinds, hname, hrules]
    exact d.parameter_commentFree n
  | literal t hbinds ht =>
    rw [hrules] at ht
    simpa [spell, hbinds, hrules, ht] using
      d.literal_commentFree ht fun cs hcs => hv cs hcs (by simpa using hbinds)

/-- A text with an opener of a comment in it. -/
def HasComment (cs : List Char) : Prop := ['-', '-'] <:+: cs ∨ ['/', '*'] <:+: cs

/-- No two neighbours open a comment exactly if no opener occurs. -/
theorem commentFree_iff_not_hasComment {cs : List Char} : CommentFree cs ↔ ¬ HasComment cs := by
  rw [commentFree_iff, HasComment, not_or]

instance (cs : List Char) : Decidable (HasComment cs) :=
  decidable_of_iff (¬ CommentFree cs) (by rw [commentFree_iff_not_hasComment, not_not])

namespace Renderer

/-- **No comment opens in a query.** If no column has an opener of a comment in its resolved name
    and no string or character that is not bound has one, then the text of a query has none:
    neither within a literal or a form, nor where two of them meet, however signs are nested and
    whatever the columns begin and end with. -/
theorem query_not_hasComment {r : Renderer} {mode : Mode} {e : Expr} {q : Query}
    (hcolumns : ∀ name ∈ e.columns, ¬ HasComment (r.resolver.getD id name).toList)
    (hconstants : ∀ x ∈ e.constants (.root 0), ∀ cs, x.2.value.chars? = some cs →
      mode.binds x.2.value = false → ¬ HasComment cs)
    (hq : (r.settings mode).query e = .ok q) : ¬ HasComment q.sql.toList := by
  obtain ⟨b, h⟩ := Settings.exists_transcript hq
  have hd : (r.settings mode).rules.Sound := r.dialect.sound
  -- The forms keep hyphens of different origin apart, so only columns and literals can bring in an
  -- opener.
  obtain ⟨γ, hspaced⟩ := e.spaced (d := (r.settings mode).rules) r.dialect.spaced (.root 0)
  have hC : ∀ name ∈ (e.predicate (r.settings mode).rules (.root 0)).draft.columns,
      CommentFree ((r.settings mode).resolve name).toList := fun name hname =>
    commentFree_iff_not_hasComment.mpr (hcolumns name (Expr.mem_columns_of_mem_draft hd hname))
  -- A constant that is bound leaves only the name of its parameter in the text.
  have hM : ∀ x ∈ (e.predicate (r.settings mode).rules (.root 0)).draft.constants,
      CommentFree ((r.settings mode).spell b x).toList := fun x hx =>
    (h.spells hx).commentFree (d := r.dialect) rfl fun cs hcs hbinds =>
      commentFree_iff_not_hasComment.mpr
        (hconstants x (Expr.mem_constants_of_mem_draft hd hx) cs hcs hbinds)
  have hfree := (hspaced.commentFree (f := ⟨(r.settings mode).resolve, (r.settings mode).spell b⟩)
    hC hM commentFree_nil (Border.bounds_nil _)).1
  rw [h.sql]
  exact commentFree_iff_not_hasComment.mp hfree

/-- Hyphens meet in the ceiling of a negated column that begins with one, and are kept apart. -/
theorem query_not_hasComment_ceiling :
    let r := Renderer.of .access
    let opposite := Build.unary .negate (Build.convert .real (Build.column "-Rate/" .real))
    let tree := Build.binary .andAlso
      (Build.binary .greaterThan (Build.unary .negate (Build.math "Ceiling" [opposite]))
        (Build.literal (.int ⟨.i32, -1, by decide⟩)))
      (Build.binary .notEqual (Build.column "Note-" .string) (Build.literal (.string "-/-")))
    let q : Query := ⟨"((-(-Int(-(-(-Rate/)))) > -1) and (Note- <> '-/-'))", []⟩
    (r.settings .inline).query tree = .ok q ∧ ¬ HasComment q.sql.toList := by
  intro r opposite tree q
  have hcolumns : ∀ name ∈ tree.columns, ¬ HasComment (r.resolver.getD id name).toList := by decide
  have hvalues : ∀ x ∈ tree.constants (.root 0), x.2.value.chars? = none ∨
      x.2.value.chars? = some "-/-".toList := by decide
  have hq : (r.settings .inline).query tree = .ok q := by decide +kernel
  refine ⟨hq, query_not_hasComment hcolumns (fun x hx cs hcs _ => ?_) hq⟩
  rcases hvalues x hx with h | h
  · simp [h] at hcs
  · obtain rfl := Option.some.inj (h.symm.trans hcs)
    decide

end Renderer

end WhereClause
