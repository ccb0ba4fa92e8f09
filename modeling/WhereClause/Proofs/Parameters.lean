import WhereClause.Expr.Build
import WhereClause.Proofs.Coverage
import WhereClause.Proofs.Framing
import WhereClause.Proofs.Literals
import WhereClause.Proofs.Tables

namespace WhereClause

/-!
# Parameters of a query

A query has one parameter for each constant that is bound, and a reader who looks for parameters in
its text meets them in the order of their numbers.

* `Bindings.Lists.eraseDups_names` — names in the order in which they are first met;
* `Renderer.reads_names` — what a reader of parameters takes from a segment;
* `Transcript.constants_perm` — the parameters are those of all constants that are bound;
* `Renderer.parameterized_parameters` — both for whole queries.
-/

/-! ### Names -/

namespace Bindings

variable {types : TypeSystem} {b : Bindings} {xs : List (Position × Constant)}

/-- The name of a parameter is a letter and its number. -/
theorem toList_nameOf (n : Nat) : (nameOf n).toList = 'p' :: Nat.toDigits 10 n := by
  simp [nameOf, Nat.toList_repr]

/-- Parameters of different numbers have different names. -/
theorem nameOf_injective : Function.Injective nameOf := by
  intro m n h
  have hdigits : Nat.toDigits 10 m = Nat.toDigits 10 n := by
    simpa [toList_nameOf] using congrArg String.toList h
  exact Text.toDigits_injective hdigits

/-- Place by place the names are those of the numbers. -/
theorem Lists.map_nameAt (h : b.Lists types xs) :
    (b.entries.map Prod.fst).map b.nameAt = (List.range b.next).map nameOf := by
  rw [← h.names, ← h.aligned.map_snd_entries, List.map_map, List.map_map]
  exact List.map_congr_left fun y hy => by simp [nameAt, h.find?_eq hy]

/-- The name of a bound constant is that of some number. -/
theorem Lists.exists_nameAt (h : b.Lists types xs) {x : Position × Constant} (hx : x ∈ xs) :
    ∃ n, b.nameAt x.1 = nameOf n := by
  have hplace : x.1 ∈ b.entries.map Prod.fst := by
    rw [h.places, List.mem_eraseDups]
    exact List.mem_map_of_mem hx
  have hname := List.mem_map_of_mem (f := b.nameAt) hplace
  rw [h.map_nameAt] at hname
  obtain ⟨n, -, hn⟩ := List.mem_map.mp hname
  exact ⟨n, hn.symm⟩

/-- **Numbers follow first appearance.** The names of some constants, each where it is first met,
    are those of the numbers in order. -/
theorem Lists.eraseDups_names (h : b.Lists types xs) :
    (xs.map fun x => b.nameAt x.1).eraseDups = (List.range b.next).map nameOf := by
  have hnodup : ((b.entries.map Prod.fst).map b.nameAt).Nodup := by
    rw [h.map_nameAt]
    exact List.nodup_range.map nameOf_injective
  have hplace : ∀ place ∈ xs.map Prod.fst, place ∈ b.entries.map Prod.fst := fun place hp => by
    rwa [h.places, List.mem_eraseDups]
  have hinj : ∀ x ∈ xs.map Prod.fst, ∀ y ∈ xs.map Prod.fst, b.nameAt x = b.nameAt y → x = y :=
    fun x hx y hy hxy => List.inj_on_of_nodup_map hnodup (hplace x hx) (hplace y hy) hxy
  -- Places that differ have different names, so repetitions may be dropped before or after naming.
  rw [← h.map_nameAt, h.places, ← eraseDups_map hinj, List.map_map]
  rfl

end Bindings

/-! ### Reading parameters -/

namespace Dialect

/-- The character that marks a parameter. -/
def mark (d : Dialect) : Char := d.rules.paramMark.front

/-- The mark of a dialect is one character. -/
theorem paramMark_eq (d : Dialect) : d.rules.paramMark = String.singleton d.mark := by
  cases d <;> decide +kernel

/-- It is an at sign or a colon. -/
theorem mark_eq (d : Dialect) : d.mark = '@' ∨ d.mark = ':' := by
  cases d <;> decide +kernel

/-- A parameter is its mark, the letter and its number. -/
theorem toList_parameter (d : Dialect) (n : Nat) :
    (d.rules.paramMark ++ Bindings.nameOf n).toList = d.mark :: 'p' :: Nat.toDigits 10 n := by
  rw [d.paramMark_eq, String.toList_append, Bindings.toList_nameOf, String.toList_singleton]
  rfl

/-- A parameter is read as what its name says, if no digit follows. -/
theorem placeholders_name (d : Dialect) (n : Nat) {rest : List Char}
    (hrest : ∀ c ∈ rest.head?, c.isDigit = false) :
    placeholders d.mark ((d.rules.paramMark ++ Bindings.nameOf n).toList ++ rest) =
      Bindings.nameOf n :: placeholders d.mark rest := by
  have hmark : d.mark ≠ 'p' ∧ d.mark.isDigit = false := by
    rcases d.mark_eq with h | h <;> (rw [h]; decide)
  have hname : Bindings.nameOf n = String.ofList ('p' :: Nat.toDigits 10 n) := by
    rw [← Bindings.toList_nameOf, String.ofList_toList]
  rw [toList_parameter, hname]
  exact placeholders_cons_name hmark.1 hmark.2 Nat.toDigits_ne_nil
    (fun c hc => Nat.isDigit_of_mem_toDigits (by decide) (by decide) hc) hrest

end Dialect

/-- The names of parameters in a segment. -/
def Settings.names (w : Settings) (b : Bindings) (seg : Segment (Position × Constant)) :
    List String :=
  (seg.mark?.toList.filter fun x => w.mode.binds x.2.value).map fun x => b.nameAt x.1

/-- The names in a row of segments are those of its bound marks, in order. -/
theorem Settings.flatMap_names (w : Settings) (b : Bindings)
    (l : List (Segment (Position × Constant))) :
    l.flatMap (w.names b) =
      ((Segment.marks l).filter fun x => w.mode.binds x.2.value).map fun x => b.nameAt x.1 := by
  induction l with
  | nil => rfl
  | cons seg l ih =>
    cases seg with
    | text t => simp [names, Segment.mark?, ih]
    | mark x =>
      cases hx : w.mode.binds x.2.value <;> simp [names, Segment.mark?, hx, ih]

/-- How a constant can be spelled: as the parameter of some number, or as a literal. -/
inductive Settings.Spells (w : Settings) (b : Bindings) (x : Position × Constant) : Prop
  | parameter (n : Nat) (binds : w.mode.binds x.2.value) (name : b.nameAt x.1 = Bindings.nameOf n)
  | literal (t : String) (binds : w.mode.binds x.2.value = false)
      (literal : w.rules.literal x.2.value = some t)

/-- Every constant of a writing is spelled in one of these ways. -/
theorem Transcript.spells {w : Settings} {d : Draft} {b : Bindings} {q : Query}
    (h : Transcript w d b q) {x : Position × Constant} (hx : x ∈ d.constants) : w.Spells b x := by
  cases hbinds : w.mode.binds x.2.value with
  | true =>
    obtain ⟨n, hn⟩ := h.lists.exists_nameAt (List.mem_filter.mpr ⟨hx, hbinds⟩)
    exact .parameter n hbinds hn
  | false =>
    obtain ⟨t, ht⟩ := h.literals x hx hbinds
    exact .literal t hbinds ht

section Reading

variable {d : Dialect} {w : Settings} {policy : Policy} {b : Bindings}

/-- A reader of parameters takes from every segment the names in it, if the columns hold no mark of
    a parameter. -/
theorem Settings.reads_names (hrules : w.rules = d.rules) (hmode : w.mode = .parameterized policy)
    (b : Bindings) :
    Reads ⟨w.resolve, w.spell b⟩ (fun name => d.mark ∉ (w.resolve name).toList) (w.Spells b)
      (placeholders d.mark) (w.names b) where
  text {σ σ' t rest} hstep _ := by
    have hunmarked : isUnmarked d.mark t.toList := by
      obtain ⟨hat, hcolon⟩ := (Status.admits_of_text hstep).unmarked
      rcases d.mark_eq with hmark | hmark <;> rwa [hmark]
    exact placeholders_append_of_isUnmarked hunmarked rest
  column hname _ := placeholders_append_of_isUnmarked (isUnmarked_of_not_mem hname) _
  constant {x rest} hx hrest := by
    show placeholders d.mark ((w.spell b x).toList ++ rest) = _
    cases hx with
    | parameter n hbinds hname =>
      -- What follows begins with no digit, so that the name ends where it should.
      have hdigit : ∀ c ∈ rest.head?, c.isDigit = false := fun c hc => by
        have hsticky := hrest rfl c hc
        simp only [Status.isSticky, Bool.or_eq_false_iff] at hsticky
        exact hsticky.2
      rw [spell, if_pos hbinds, hname, hrules, d.placeholders_name n hdigit]
      simp [names, Segment.mark?, hbinds, hname]
    | literal t hbinds ht =>
      -- Only nulls, truth values and numbers are left as literals, and they have no marks in them.
      have hnot : d.mark ∉ t.toList := by
        have hpolicy : policy.binds x.2.value = false := by
          simpa [hmode, Mode.binds] using hbinds
        obtain ⟨hat, hcolon⟩ := d.literal_unmarked (hrules ▸ ht) hpolicy
        rcases d.mark_eq with hmark | hmark <;> rwa [hmark]
      rw [spell, hbinds, ht]
      simpa [names, Segment.mark?, hbinds] using
        placeholders_append_of_isUnmarked (isUnmarked_of_not_mem hnot) rest

/-- The parameters of a text are read constant by constant. -/
theorem Transcript.placeholders_eq {e : Expr} {q : Query}
    (h : Transcript w (e.predicate w.rules (.root 0)).draft b q) (hrules : w.rules = d.rules)
    (hmode : w.mode = .parameterized policy)
    (hcolumns : ∀ name ∈ e.columns, d.mark ∉ (w.resolve name).toList) :
    placeholders d.mark q.sql.toList =
      ((e.predicate w.rules (.root 0)).draft.constants.filter
        fun x => w.mode.binds x.2.value).map fun x => b.nameAt x.1 := by
  have hd : w.rules.Sound := hrules ▸ d.sound
  have hread := (e.framed hd (.root 0)).read_eq (Settings.reads_names hrules hmode b)
    (fun name hname => hcolumns name (Expr.mem_columns_of_mem_draft hd hname))
    (fun x hx => h.spells hx) Outline.run_start_inPlace (Status.free_nil _) false
  rw [Settings.flatMap_names, Draft.marks_segments] at hread
  rw [h.sql]
  simpa [placeholders] using hread

end Reading

/-! ### Parameters of a tree -/

/-- The constant that a parameter carries. -/
def Parameter.constant (p : Parameter) : Constant := ⟨p.value, p.host⟩

/-- A parameter that carries a constant holds its value and its host type. -/
theorem Parameter.Carries.constant_eq {types : TypeSystem} {p : Parameter} {c : Constant}
    (h : p.Carries types c) : p.constant = c := by
  cases c
  simp [Parameter.constant, h.host, h.value]

namespace Transcript

variable {w : Settings} {e : Expr} {b : Bindings} {q : Query}

/-- The entries are those of the constants that are bound: each one has a parameter, and there are
    no others. -/
theorem constants_perm (h : Transcript w (e.predicate w.rules (.root 0)).draft b q)
    (hd : w.rules.Sound) {policy : Policy} (hmode : w.mode = .parameterized policy) :
    (b.entries.map fun y => (y.1, y.2.constant)).Perm
      ((e.constants (.root 0)).filter fun x => policy.binds x.2.value) := by
  have hnodup : (b.entries.map fun y => (y.1, y.2.constant)).Nodup := by
    refine List.Nodup.of_map Prod.fst ?_
    rw [List.map_map]
    exact h.lists.nodup
  have hnodup' : ((e.constants (.root 0)).filter fun x => policy.binds x.2.value).Nodup :=
    ((e.constants_nodup (.root 0)).of_map _).filter _
  -- Neither list names a place twice, so it is enough that they have the same members.
  refine (List.perm_ext_iff_of_nodup hnodup hnodup').mpr fun x => ?_
  rw [List.mem_map, List.mem_filter]
  constructor
  · rintro ⟨y, hy, rfl⟩
    obtain ⟨c, hc, -, hbinds, hcarries⟩ := h.exists_constant hd hy
    rw [hmode] at hbinds
    rw [hcarries.constant_eq]
    exact ⟨hc, hbinds⟩
  · rintro ⟨hx, hbinds⟩
    have hdraft := Expr.mem_draft_of_mem_constants hd h.isFaultless hx
      (Policy.isNull_of_binds hbinds)
    obtain ⟨p, hp, hcarries⟩ := h.exists_parameter hd hdraft (by rw [hmode]; exact hbinds)
    exact ⟨(x.1, p), hp, by rw [hcarries.constant_eq]⟩

/-- Entry by entry the parameters carry these constants. -/
theorem forall₂_carries (h : Transcript w (e.predicate w.rules (.root 0)).draft b q)
    (hd : w.rules.Sound) :
    List.Forall₂ (fun (x : Position × Constant) p => p.Carries w.rules.types x.2)
      (b.entries.map fun y => (y.1, y.2.constant)) q.parameters := by
  rw [h.parameters, ← h.lists.aligned.map_snd_entries, List.forall₂_map_left_iff,
    List.forall₂_map_right_iff, List.forall₂_same]
  intro y hy
  obtain ⟨c, -, -, -, hcarries⟩ := h.exists_constant hd hy
  rw [hcarries.constant_eq]
  exact hcarries

end Transcript

namespace Renderer

/-- **Constants and parameters.** The parameters of a query are those of the constants that the
    policy binds, each with its own value and types, and no constant has two. They are named by
    their numbers, and if no column holds the mark of a parameter, whoever reads the text meets
    these names for the first time in the order of the numbers. -/
theorem parameterized_parameters {r : Renderer} {e : Expr} {q : Query}
    (hq : r.parameterized e = .ok q) :
    (∃ nodes : List (Position × Constant),
      nodes.Perm ((e.constants (.root 0)).filter fun x => r.policy.binds x.2.value) ∧
      List.Forall₂ (fun x p => p.Carries r.dialect.rules.types x.2) nodes q.parameters) ∧
    q.parameters.map Parameter.name = (List.range q.parameters.length).map Bindings.nameOf ∧
    ((∀ name ∈ e.columns, r.dialect.mark ∉ (r.resolver.getD id name).toList) →
      (placeholders r.dialect.mark q.sql.toList).eraseDups =
        (List.range q.parameters.length).map Bindings.nameOf) := by
  obtain ⟨b, h⟩ := Settings.exists_transcript hq
  have hd : r.dialect.rules.Sound := r.dialect.sound
  have hsize : q.parameters.length = b.next := by rw [h.parameters, h.lists.aligned.next_eq]
  refine ⟨⟨_, h.constants_perm hd rfl, h.forall₂_carries hd⟩, ?_, fun hcolumns => ?_⟩
  · rw [hsize, h.parameters]
    exact h.lists.names
  · rw [h.placeholders_eq rfl rfl hcolumns, hsize]
    exact h.lists.eraseDups_names

/-- What is sought is written twice and where the search starts three times, but they have one
    parameter each. -/
theorem parameterized_parameters_indexOf :
    let r := Renderer.of .generic
    let two : Value := .int ⟨.i32, 2, by decide⟩
    let tree := Build.binary .greaterThan
      (Build.indexOf (Build.column "Name" .string) (Build.literal (.string "an"))
        (some (Build.literal two))) (Build.column "Age" .integer)
    let q : Query :=
      ⟨"((case when POSITION(@p0 IN SUBSTRING(Name FROM @p1 + 1)) = 0 then -1 else " ++
        "POSITION(@p0 IN SUBSTRING(Name FROM @p1 + 1)) + @p1 - 1 end) > Age)",
        [⟨"p0", .of .string, ⟨.nVarChar, false, unboundedLength, 0, 0⟩, .string "an"⟩,
          ⟨"p1", .of (.int .i32), ⟨.int, true, 0, 0, 0⟩, two⟩]⟩
    r.parameterized tree = .ok q ∧
      (∃ nodes : List (Position × Constant),
        nodes.Perm ((tree.constants (.root 0)).filter fun x => r.policy.binds x.2.value) ∧
        List.Forall₂ (fun x p => p.Carries r.dialect.rules.types x.2) nodes q.parameters) ∧
      q.parameters.map Parameter.name = (List.range q.parameters.length).map Bindings.nameOf ∧
      (placeholders r.dialect.mark q.sql.toList).eraseDups =
        (List.range q.parameters.length).map Bindings.nameOf := by
  intro r two tree q
  have hq : r.parameterized tree = .ok q := by decide +kernel
  have hcolumns : ∀ name ∈ tree.columns, r.dialect.mark ∉ (r.resolver.getD id name).toList := by
    intro name hname
    have hmark : r.dialect.mark = '@' := by decide +kernel
    rw [hmark]
    obtain rfl | rfl : name = "Name" ∨ name = "Age" := List.mem_pair.mp hname
    · decide
    · decide
  obtain ⟨hnodes, hnames, hfirst⟩ := parameterized_parameters hq
  exact ⟨hq, hnodes, hnames, hfirst hcolumns⟩

end Renderer

end WhereClause
