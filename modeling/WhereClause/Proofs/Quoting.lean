import WhereClause.Proofs.Parameters

namespace WhereClause

/-!
# Queries as a database reads them

The text of a query is read segment by segment: no literal runs over the end of its segment, and
parentheses close. A string that is not bound is read as one literal whose content is that string.

* `Settings.Spells.leads` — the spelling of a constant closes what it opens;
* `Settings.reads_segments` — a reader of literals takes single segments;
* `Dialect.scan_literal_chars` — strings and characters are read as what they are;
* `Renderer.query_scan` — whole queries.
-/

/-! ### Single constants -/

/-- The characters of a string, or a character alone. -/
def Value.chars? : Value → Option (List Char)
  | string s => some s.toList
  | char c => some [c]
  | _ => none

/-- A value with characters is not null. -/
theorem Value.isNull_of_chars? {v : Value} {cs : List Char} (h : v.chars? = some cs) :
    v.isNull = false := by
  cases v with
  | null => simp [chars?] at h
  | _ => rfl

namespace Dialect

/-- Except where a backslash means more than itself, a string is read as one literal, whatever
    characters are in it. -/
theorem scan_literal_chars {d : Dialect} (hd : d ≠ .mySql) {v : Value} {cs : List Char}
    (hv : v.chars? = some cs) :
    ∃ t, d.rules.literal v = some t ∧ scan .outside t.toList = [.literal cs] := by
  have hliteral : d.rules.literal v = some (Generic.quoted cs) := by
    cases v with
    | string s =>
      obtain rfl := Option.some.inj hv
      exact literal_string hd s
    | char c =>
      obtain rfl := Option.some.inj hv
      exact d.literal_char c
    | _ => simp [Value.chars?] at hv
  refine ⟨_, hliteral, ?_⟩
  rw [Generic.quoted, String.toList_ofList]
  exact scan_quote cs

/-- A parameter has no quotes and no parentheses. -/
theorem parameter_leads (d : Dialect) (n : Nat) :
    Leads 0 (d.rules.paramMark ++ Bindings.nameOf n).toList 0 := by
  have hmark : d.mark ∈ ['@', ':', 'p'] := by
    rcases d.mark_eq with h | h <;> simp [h]
  rw [toList_parameter]
  exact (((Text.spelledWith_decimal n).cons (by decide)).cons hmark).leads (by decide) 0

end Dialect

section Reading

variable {d : Dialect} {w : Settings} {b : Bindings} {q : Query}

/-- However a constant is spelled, the spelling closes what it opens. -/
theorem Settings.Spells.leads (hrules : w.rules = d.rules) {x : Position × Constant}
    (hx : w.Spells b x) : Leads 0 (w.spell b x).toList 0 := by
  cases hx with
  | parameter n hbinds hname =>
    rw [spell, if_pos hbinds, hname, hrules]
    exact d.parameter_leads n
  | literal t hbinds ht =>
    rw [hrules] at ht
    simpa [spell, hbinds, hrules, ht] using d.literal_leads ht

/-- A string that is not bound is spelled as one literal. -/
theorem Settings.scan_spell (hrules : w.rules = d.rules) (hd : d ≠ .mySql)
    {x : Position × Constant} {cs : List Char} (hx : x.2.value.chars? = some cs)
    (hbinds : w.mode.binds x.2.value = false) :
    scan .outside (w.spell b x).toList = [.literal cs] := by
  obtain ⟨t, ht, hscan⟩ := Dialect.scan_literal_chars hd hx
  simpa [spell, hbinds, hrules, ht] using hscan

/-! ### Segments -/

/-- The segments of a tree that is written as a condition. -/
def Settings.segments (w : Settings) (b : Bindings) (e : Expr) :
    List (Segment (Position × Constant)) :=
  (e.predicate w.rules (.root 0)).draft.segments ⟨w.resolve, w.spell b⟩ false

/-- What a reader finds in a segment that stands alone. -/
def Settings.lexemes (w : Settings) (b : Bindings) (seg : Segment (Position × Constant)) :
    List Lexeme :=
  scan .outside (seg.spelled (w.spell b)).toList

/-- A text without quotes and without parentheses. -/
structure IsPlain (t : String) : Prop where
  quote : '\'' ∉ t.toList
  opening : '(' ∉ t.toList
  closing : ')' ∉ t.toList

/-- A plain text stays outside of literals and at its depth. -/
theorem IsPlain.leads {t : String} (h : IsPlain t) : Leads 0 t.toList 0 :=
  leads_plain h.quote h.opening h.closing 0

/-- A reader of literals takes single segments, if columns are plain. -/
theorem Settings.reads_segments (hrules : w.rules = d.rules) (b : Bindings) :
    Reads ⟨w.resolve, w.spell b⟩ (fun name => IsPlain (w.resolve name)) (w.Spells b)
      (scan .outside) (w.lexemes b) := by
  -- A quote does not follow where it could go on with a literal.
  have hquote : ∀ {σ : Status} {rest : List Char}, σ.Free rest → σ.isLoose →
      rest.head? ≠ some '\'' := fun hrest hloose hhead =>
    absurd (hrest hloose _ hhead) (by decide)
  refine ⟨fun {σ σ' t rest} hstep hrest => ?_, fun {name rest} hname hrest => ?_,
    fun {x rest} hx hrest => ?_⟩
  · have hadmits := Status.admits_of_text hstep
    refine scan_append (isSettled_of_depthAfter hadmits.depth) fun hlast => hquote hrest ?_
    simp [Status.isLoose, hadmits.last, hlast]
  · exact scan_append (isSettled_of_depthAfter hname.leads) fun _ => hquote hrest rfl
  · exact scan_append (isSettled_of_depthAfter (hx.leads hrules)) fun _ => hquote hrest rfl

/-- **Segments are read apart.** The text of a query is read segment by segment, and its parentheses
    close. -/
theorem Transcript.scan_eq {e : Expr} (h : Transcript w (e.predicate w.rules (.root 0)).draft b q)
    (hrules : w.rules = d.rules) (hcolumns : ∀ name ∈ e.columns, IsPlain (w.resolve name)) :
    scan .outside q.sql.toList = (w.segments b e).flatMap (w.lexemes b) ∧
      depthAfter 0 (scan .outside q.sql.toList) = some 0 := by
  have hd : w.rules.Sound := hrules ▸ d.sound
  have hframed := e.framed hd (.root 0)
  have hplain : ∀ name ∈ (e.predicate w.rules (.root 0)).draft.columns, IsPlain (w.resolve name) :=
    fun name hname => hcolumns name (Expr.mem_columns_of_mem_draft hd hname)
  -- Where the text ends nothing follows, and that runs together with nothing.
  have hread := hframed.read_eq (Settings.reads_segments hrules b) hplain (fun x hx => h.spells hx)
    Outline.run_start_inPlace (Status.free_nil _) false
  have hscan : scan .outside q.sql.toList = (w.segments b e).flatMap (w.lexemes b) := by
    rw [h.sql, Settings.segments]
    simpa [scan, Reading.atEnd] using hread
  refine ⟨hscan, ?_⟩
  rw [hscan]
  refine hframed.depth_eq (fun _ => rfl) ?_ ?_ Outline.run_start_inPlace false
  · exact fun name hname => (hplain name hname).leads
  · exact fun x hx => (h.spells hx).leads hrules

/-- The marks of the segments are constants of the tree, and all that are not null are marked. -/
theorem Transcript.mark_mem_segments {e : Expr}
    (h : Transcript w (e.predicate w.rules (.root 0)).draft b q) (hd : w.rules.Sound)
    (x : Position × Constant) :
    (.mark x ∈ w.segments b e → x ∈ e.constants (.root 0)) ∧
      (x ∈ e.constants (.root 0) → x.2.value.isNull = false → .mark x ∈ w.segments b e) := by
  rw [← Segment.mem_marks, Settings.segments, Draft.marks_segments]
  exact ⟨Expr.mem_constants_of_mem_draft hd, Expr.mem_draft_of_mem_constants hd h.isFaultless⟩

end Reading

namespace Renderer

/-- **Queries are read as they are meant.** If columns have no quotes and no parentheses in them,
    the text of a query ends outside of literals, and its parentheses close. It is read segment by
    segment; every string or character that is not bound is a segment wherever it occurs, and is
    read as one literal whose content is the value. One dialect is left out, in whose literals a
    backslash means more than itself. -/
theorem query_scan {r : Renderer} (hdialect : r.dialect ≠ .mySql) {mode : Mode} {e : Expr}
    {q : Query} (hcolumns : ∀ name ∈ e.columns, IsPlain (r.resolver.getD id name))
    (hq : (r.settings mode).query e = .ok q) :
    (Reading.outside.after q.sql.toList).isSettled ∧
    depthAfter 0 (scan .outside q.sql.toList) = some 0 ∧
    ∃ b, q.parameters = b.parameters ∧
      q.sql = Segment.write ((r.settings mode).spell b) ((r.settings mode).segments b e) ∧
      scan .outside q.sql.toList =
        ((r.settings mode).segments b e).flatMap ((r.settings mode).lexemes b) ∧
      (∀ x, .mark x ∈ (r.settings mode).segments b e → x ∈ e.constants (.root 0)) ∧
      ∀ x ∈ e.constants (.root 0), ∀ cs, x.2.value.chars? = some cs →
        mode.binds x.2.value = false → .mark x ∈ (r.settings mode).segments b e ∧
          (r.settings mode).lexemes b (.mark x) = [.literal cs] := by
  obtain ⟨b, h⟩ := Settings.exists_transcript hq
  have hrules : (r.settings mode).rules = r.dialect.rules := rfl
  obtain ⟨hscan, hdepth⟩ := h.scan_eq hrules hcolumns
  have hmarks := h.mark_mem_segments r.dialect.sound
  refine ⟨isSettled_of_depthAfter hdepth, hdepth, b, h.parameters, h.sql, hscan,
    fun x => (hmarks x).1, fun x hx cs hcs hbinds => ⟨?_, ?_⟩⟩
  · exact (hmarks x).2 hx (Value.isNull_of_chars? hcs)
  · exact Settings.scan_spell hrules hdialect hcs hbinds

/-- A name with quotes and a parenthesis in it is written as a literal. -/
theorem query_scan_name :
    let r := Renderer.of .oracle
    let tree := Build.binary .equal (Build.column "Name" .string)
      (Build.literal (.string "' OR (1 = '1"))
    let q : Query := ⟨"(Name = ''' OR (1 = ''1')", []⟩
    (r.settings .inline).query tree = .ok q ∧
      (Reading.outside.after q.sql.toList).isSettled ∧
      depthAfter 0 (scan .outside q.sql.toList) = some 0 ∧
      ∃ b, q.parameters = b.parameters ∧
        q.sql =
          Segment.write ((r.settings .inline).spell b) ((r.settings .inline).segments b tree) ∧
        scan .outside q.sql.toList =
          ((r.settings .inline).segments b tree).flatMap ((r.settings .inline).lexemes b) ∧
        (∀ x, .mark x ∈ (r.settings .inline).segments b tree → x ∈ tree.constants (.root 0)) ∧
        ∀ x ∈ tree.constants (.root 0), ∀ cs, x.2.value.chars? = some cs →
          Mode.inline.binds x.2.value = false → .mark x ∈ (r.settings .inline).segments b tree ∧
            (r.settings .inline).lexemes b (.mark x) = [.literal cs] := by
  intro r tree q
  have hcolumns : ∀ name ∈ tree.columns, IsPlain (r.resolver.getD id name) := by
    intro name hname
    obtain rfl : name = "Name" := List.mem_singleton.mp hname
    exact ⟨by decide, by decide, by decide⟩
  have hq : (r.settings .inline).query tree = .ok q := by decide +kernel
  exact ⟨hq, query_scan (by decide) hcolumns hq⟩

end Renderer

end WhereClause
