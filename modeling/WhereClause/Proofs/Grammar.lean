import WhereClause.Expr.Build
import WhereClause.Proofs.Roles
import WhereClause.Proofs.Substitution

namespace WhereClause

/-!
# The grammar of the text

What is written for a tree can be read back as a condition or as a value. The two kinds of phrases
are defined on the text alone, from the forms of the dialect and the texts of the leaves, and a
condition never stands where a value is needed, or a value where a condition is, without the form
that makes one of the other.

* `Template.filled` — a template filled with texts;
* `ReadsAs` — the phrases of a dialect;
* `Dialect.sorts_readable` — every form of a dialect makes the phrase it should;
* `Renderer.written_reads` — what is written for a tree reads as what it was written as.
-/

/-! ### Texts of drafts -/

namespace Draft

/-- The text of a draft after a text of which it is known whether it ends in a hyphen. -/
def spelled (f : Spelling) (b : Bool) (d : Draft) : String :=
  Segment.write f.constant (d.segments f b)

variable (f : Spelling) (b : Bool)

@[simp] theorem spelled_empty : spelled f b .empty = "" := rfl

@[simp] theorem spelled_text (t : String) : spelled f b (.text t) = t :=
  Segment.write_ofText f.constant t

@[simp] theorem spelled_column (name : String) : spelled f b (.column name) = f.column name :=
  Segment.write_ofText f.constant _

@[simp] theorem spelled_constant (place : Position) (c : Constant) :
    spelled f b (.constant place c) = f.constant (place, c) :=
  String.append_empty

@[simp] theorem spelled_append (first second : Draft) :
    spelled f b (first ++ second) =
      spelled f b first ++ spelled f (hyphenAfter b (spelled f b first)) second := by
  rw [spelled, segments_append, Segment.write_append]
  rfl

@[simp] theorem spelled_operand (d : Draft) :
    spelled f b (.operand d) = Segment.guardedAfter b (spelled f false d) := by
  show Segment.write f.constant (if b && (spelled f false d).startsWith '-' then
    .text "(" :: segments f false d ++ [.text ")"] else segments f false d) = _
  by_cases h : b && (spelled f false d).startsWith '-'
  · rw [Segment.guardedAfter, if_pos h, if_pos h]
    simp [Segment.spelled, spelled, String.append_assoc]
  · rw [Segment.guardedAfter, if_neg h, if_neg h]
    rfl

@[simp] theorem spelled_level (d : Draft) : spelled f b (.level d) = spelled f b d := rfl

@[simp] theorem spelled_fault (e : Error) : spelled f b (.fault e) = "" := rfl

end Draft

/-- A template filled with texts, after a text of which it is known whether it ends in a hyphen. A
    text that would run together with a hyphen before it is put in parentheses. -/
def Template.filled : Bool → Template → List String → String
  | _, [], _ => ""
  | b, .text s :: t, vs => s ++ filled (hyphenAfter b s) t vs
  | b, .slot i :: t, vs =>
    let v := Segment.guardedAfter b (vs[i]?.getD "")
    v ++ filled (hyphenAfter b v) t vs

/-- After an opening parenthesis there is no hyphen to run into. -/
theorem hyphenAfter_opening (b : Bool) : hyphenAfter b "(" = false := rfl

/-- Where no hyphen is before it, a text needs no parentheses. -/
theorem Segment.guardedAfter_false (t : String) : guardedAfter false t = t := rfl

/-- The text of a form is its template filled with the texts of the operands. -/
theorem Draft.spelled_formDraft (f : Spelling) (b : Bool) (t : Template) (ds : List Draft) :
    (Sql.formDraft t ds).spelled f b = t.filled b (ds.map (Draft.spelled f false)) := by
  -- The pieces that are left change, but the template they come from is named in faults.
  have hpieces : ∀ (pieces : Template) (b : Bool),
      (pieces.foldr (fun piece rest => Sql.pieceDraft t ds piece ++ rest) .empty).spelled f b =
        Template.filled b pieces (ds.map (Draft.spelled f false)) := by
    intro pieces
    induction pieces with
    | nil => exact fun b => rfl
    | cons piece pieces ih =>
      intro b
      rw [List.foldr_cons, Draft.spelled_append]
      cases piece with
      | text s => rw [Sql.pieceDraft, Draft.spelled_text, ih, Template.filled]
      | slot i =>
        have hpiece : (Sql.pieceDraft t ds (.slot i)).spelled f b =
            Segment.guardedAfter b ((ds.map (Draft.spelled f false))[i]?.getD "") := by
          rw [Sql.pieceDraft, List.getElem?_map]
          cases ds[i]? with
          | none => cases b <;> simp [Segment.guardedAfter, String.startsWith_char_eq_head?]
          | some d => exact Draft.spelled_operand f b d
        rw [hpiece, ih, Template.filled]
  exact hpieces t b

/-! ### Phrases -/

/-- What a text is read as. -/
inductive Phrase where
  | condition
  | value
  /-- Values, at least one, with a text between any two. -/
  | values (separator : String)
  /-- Branches of a `case`, at least one. -/
  | branches

/-- The phrases of a dialect, given the texts of leaves. -/
inductive ReadsAs (d : Rules) (leaf : String → Prop) : Phrase → String → Prop
  | comparison {token l r} : token ∈ ["=", "<>", "<", "<=", ">", ">="] → ReadsAs d leaf .value l →
      ReadsAs d leaf .value r →
      ReadsAs d leaf .condition ("(" ++ l ++ " " ++ token ++ " " ++ r ++ ")")
  | connective {token l r} : token ∈ ["and", "or"] → ReadsAs d leaf .condition l →
      ReadsAs d leaf .condition r →
      ReadsAs d leaf .condition ("(" ++ l ++ " " ++ token ++ " " ++ r ++ ")")
  | negation {c} : ReadsAs d leaf .condition c → ReadsAs d leaf .condition ("not " ++ c)
  | isNull {v} : ReadsAs d leaf .value v → ReadsAs d leaf .condition ("(" ++ v ++ " is null)")
  | isNotNull {v} : ReadsAs d leaf .value v →
      ReadsAs d leaf .condition ("(" ++ v ++ " is not null)")
  /-- One of the tests on strings. -/
  | search {m n t vs b} : m.isTest → (Method.string m).signature.admits n →
      d.method (.string m) n = some t →
      vs.length = n + (Method.string m).signature.hasReceiver.toNat →
      (∀ v ∈ vs, ReadsAs d leaf .value v) → ReadsAs d leaf .condition (t.filled b vs)
  | membership {v vs} : ReadsAs d leaf .value v → ReadsAs d leaf (.values ", ") vs →
      ReadsAs d leaf .condition ("(" ++ v ++ " in (" ++ vs ++ "))")
  | nowhere : ReadsAs d leaf .condition "(1 = 0)"
  | ofValue {v b} : ReadsAs d leaf .value v →
      ReadsAs d leaf .condition (d.predicateCoercion.filled b [v])
  | leaf {t} : leaf t → ReadsAs d leaf .value t
  | noText : ReadsAs d leaf .value "''"
  /-- A sign or another text before a value. -/
  | sign {op k token v b} : ¬ (op = .not ∧ k = .boolean) → d.unary op k = some token →
      ReadsAs d leaf .value v →
      ReadsAs d leaf .value (token ++ Segment.guardedAfter (hyphenAfter b token) v)
  | arithmetic {op b token l r} : op.isComparison = false → op.isLogical b = false →
      (op = .exclusiveOr → b = false) → d.operator op b = some token → ReadsAs d leaf .value l →
      ReadsAs d leaf .value r → ReadsAs d leaf .value ("(" ++ l ++ " " ++ token ++ " " ++ r ++ ")")
  | form {t vs b} : d.Computes t vs.length → (∀ v ∈ vs, ReadsAs d leaf .value v) →
      ReadsAs d leaf .value (t.filled b vs)
  | joined {token v vs} : d.concat = .infixed token → ReadsAs d leaf .value v →
      ReadsAs d leaf (.values token) vs → ReadsAs d leaf .value ("(" ++ (v ++ token ++ vs) ++ ")")
  | joinedBy {name v vs} : d.concat = .function name → ReadsAs d leaf .value v →
      ReadsAs d leaf (.values ", ") vs →
      ReadsAs d leaf .value (name ++ "(" ++ (v ++ ", " ++ vs) ++ ")")
  | coalesce {vs} : ReadsAs d leaf (.values ", ") vs →
      ReadsAs d leaf .value ("COALESCE(" ++ vs ++ ")")
  | caseWhen {bs v} : ReadsAs d leaf .branches bs → ReadsAs d leaf .value v →
      ReadsAs d leaf .value ("(case" ++ bs ++ " else " ++ v ++ " end)")
  /-- A choice between two values. -/
  | choice {t c x y b} : d.conditional = .nested t → ReadsAs d leaf .condition c →
      ReadsAs d leaf .value x → ReadsAs d leaf .value y →
      ReadsAs d leaf .value (t.filled b [c, x, y])
  | ofCondition {c b} : ReadsAs d leaf .condition c →
      ReadsAs d leaf .value (d.valueCoercion.filled b [c])
  | single {separator v} : ReadsAs d leaf .value v → ReadsAs d leaf (.values separator) v
  | more {separator v vs} : ReadsAs d leaf .value v → ReadsAs d leaf (.values separator) vs →
      ReadsAs d leaf (.values separator) (v ++ separator ++ vs)
  | branch {c v} : ReadsAs d leaf .condition c → ReadsAs d leaf .value v →
      ReadsAs d leaf .branches (" when " ++ c ++ " then " ++ v)
  | branchAnd {c v bs} : ReadsAs d leaf .condition c → ReadsAs d leaf .value v →
      ReadsAs d leaf .branches bs → ReadsAs d leaf .branches (" when " ++ c ++ " then " ++ v ++ bs)

/-! ### Drafts that can be read -/

/-- A draft without faults, all leaves of which have texts of leaves. -/
structure Draft.Legible (leaf : String → Prop) (f : Spelling) (d : Draft) : Prop where
  isFaultless : d.isFaultless
  constants : ∀ x ∈ d.constants, leaf (f.constant x)
  columns : ∀ name ∈ d.columns, leaf (f.column name)

namespace Draft

variable {leaf : String → Prop} {f : Spelling}

/-- What is put together from others is legible only if they are. -/
theorem Compound.legible {ds : List Draft} {d : Draft} (h : Compound ds d)
    (hd : d.Legible leaf f) : ∀ t ∈ ds, t.Legible leaf f := by
  induction h with
  | empty | text => simp
  | part => simpa using hd
  | operand _ ih => exact ih ⟨hd.isFaultless, hd.constants, hd.columns⟩
  | append _ _ iha ihb =>
    obtain ⟨hfa, hfb⟩ := Bool.and_eq_true_iff.mp hd.isFaultless
    obtain ⟨hca, hcb⟩ := List.forall_mem_append.mp hd.constants
    obtain ⟨hna, hnb⟩ := List.forall_mem_append.mp hd.columns
    exact List.forall_mem_append.mpr ⟨iha ⟨hfa, hca, hna⟩, ihb ⟨hfb, hcb, hnb⟩⟩
  | of_mem_iff _ hmem ih => exact fun t ht => ih hd t ((hmem t).mpr ht)

end Draft

namespace Sql

variable {d : Rules} {leaf : String → Prop} {f : Spelling}

/-- An expression whose text reads as a phrase, provided that its draft is legible. -/
def Readable (d : Rules) (leaf : String → Prop) (f : Spelling) (phrase : Phrase) (s : Sql) : Prop :=
  s.draft.Legible leaf f → ∀ b, ReadsAs d leaf phrase (s.draft.spelled f b)

/-- The texts of the parts of a legible expression. -/
theorem Compound.readable {ss : List Sql} {s : Sql} (hc : Compound ss s)
    (hs : s.draft.Legible leaf f) {phrase : Phrase} {part : Sql} (hpart : part ∈ ss)
    (h : part.Readable d leaf f phrase) : ∀ b, ReadsAs d leaf phrase (part.draft.spelled f b) :=
  h (hc.legible hs _ (List.mem_map_of_mem hpart))

/-- Drafts of values with a text between them are read as values with that text between. -/
theorem readsAs_join {ds : List Draft} (separator : String) (hds : ds ≠ [])
    (h : ∀ t ∈ ds, ∀ b, ReadsAs d leaf .value (t.spelled f b)) (b : Bool) :
    ReadsAs d leaf (.values separator) ((Draft.join separator ds).spelled f b) := by
  induction ds generalizing b with
  | nil => exact absurd rfl hds
  | cons t ds ih =>
    cases ds with
    | nil => exact .single (h t (by simp) b)
    | cons t' ds =>
      have hrest := ih (by simp) fun t ht => h t (List.mem_cons_of_mem _ ht)
      show ReadsAs d leaf _ ((t ++ .text separator ++ Draft.join separator (t' :: ds)).spelled f b)
      rw [Draft.spelled_append, Draft.spelled_append, Draft.spelled_text]
      exact .more (h t (by simp) b) (hrest _)

/-- Values among the parts of a legible expression, with a text between them. -/
theorem Compound.readsAs_values {parts ss : List Sql} {s : Sql} (hc : Compound parts s)
    (hs : s.draft.Legible leaf f) (hne : ss ≠ []) (hsub : ∀ s' ∈ ss, s' ∈ parts)
    (h : ∀ s' ∈ ss, s'.Readable d leaf f .value) (separator : String) (b : Bool) :
    ReadsAs d leaf (.values separator) ((Draft.join separator (draftList ss)).spelled f b) := by
  rw [draftList_eq_map]
  refine readsAs_join separator (by simpa using hne) (fun t ht => ?_) b
  obtain ⟨s', hs', rfl⟩ := List.mem_map.mp ht
  exact hc.readable hs (hsub s' hs') (h s' hs')

/-- Joined values are read as a value, whatever their number. -/
theorem readsAs_concatDraft {ds : List Draft}
    (h : ∀ t ∈ ds, ∀ b, ReadsAs d leaf .value (t.spelled f b)) (b : Bool) :
    ReadsAs d leaf .value ((concatDraft d.concat ds).spelled f b) := by
  -- No values make an empty text, and one stands alone; from two on they are joined in the style of
  -- the dialect.
  rcases ds with _ | ⟨t, _ | ⟨t', ds⟩⟩
  · rw [concatDraft, Draft.spelled_text]
    exact .noText
  · exact h t (by simp) b
  · have hrest := fun separator => readsAs_join separator (List.cons_ne_nil t' ds)
      fun t ht => h t (List.mem_cons_of_mem _ ht)
    have hjoin : ∀ separator, Draft.join separator (t :: t' :: ds) =
        t ++ .text separator ++ Draft.join separator (t' :: ds) := fun _ => rfl
    cases hstyle : d.concat with
    | infixed token =>
      show ReadsAs d leaf .value
        ((Draft.text "(" ++ Draft.join token (t :: t' :: ds) ++ .text ")").spelled f b)
      simp only [hjoin, Draft.spelled_append, Draft.spelled_text]
      exact .joined hstyle (h t (by simp) _) (hrest token _)
    | function name =>
      show ReadsAs d leaf .value ((Draft.text name ++ .text "(" ++
        Draft.join ", " (t :: t' :: ds) ++ .text ")").spelled f b)
      simp only [hjoin, Draft.spelled_append, Draft.spelled_text]
      exact .joinedBy hstyle (h t (by simp) _) (hrest ", " _)

/-- Branches of conditions and values are read as such. -/
theorem readsAs_draftBranches {branches : List (Sql × Sql)} (hne : branches ≠ [])
    (h : ∀ br ∈ branches, (∀ b, ReadsAs d leaf .condition (br.1.draft.spelled f b)) ∧
      ∀ b, ReadsAs d leaf .value (br.2.draft.spelled f b)) (b : Bool) :
    ReadsAs d leaf .branches ((draftBranches branches).spelled f b) := by
  induction branches generalizing b with
  | nil => exact absurd rfl hne
  | cons br rest ih =>
    obtain ⟨test, value⟩ := br
    obtain ⟨htest, hvalue⟩ := h (test, value) (by simp)
    simp only [draftBranches, Draft.spelled_append, Draft.spelled_text]
    cases rest with
    | nil =>
      simp only [draftBranches, Draft.spelled_empty, String.append_empty]
      exact .branch (htest _) (hvalue _)
    | cons br rest =>
      exact .branchAnd (htest _) (hvalue _)
        (ih (by simp) (fun br hbr => h br (List.mem_cons_of_mem _ hbr)) _)

/-- The text of a token between two operands. -/
theorem spelled_infixed (token : String) (l r : Sql) (b : Bool) :
    ∃ bl br, (infixed token l r).draft.spelled f b = "(" ++ l.draft.spelled f bl ++ " " ++ token ++
      " " ++ r.draft.spelled f br ++ ")" := by
  simp only [draft, Draft.spelled_append, Draft.spelled_text]
  exact ⟨_, _, rfl⟩

/-- The text of a form is its template filled with the texts of the operands. -/
theorem spelled_form (t : Template) (ss : List Sql) (b : Bool) :
    (form t ss).draft.spelled f b = t.filled b (ss.map fun s => s.draft.spelled f false) := by
  show (formDraft t (draftList ss)).spelled f b = _
  rw [Draft.spelled_formDraft, draftList_eq_map, List.map_map]
  rfl

/-- The texts of the operands of a legible form. -/
theorem forall_readsAs {t : Template} {ss : List Sql} {phrase : Phrase} (hd : d.Sound)
    (hu : d.Uses t ss.length) (hs : (form t ss).draft.Legible leaf f)
    (h : ∀ s ∈ ss, s.Readable d leaf f phrase) :
    ∀ v ∈ ss.map fun s => s.draft.spelled f false, ReadsAs d leaf phrase v := by
  intro v hv
  obtain ⟨s, hmem, rfl⟩ := List.mem_map.mp hv
  exact (compound_form hd hu).readable hs hmem (h s hmem) false

end Sql

/-! ### Forms of the dialects -/

namespace Dialect

/-- Comparisons and connectives have the tokens they are known by. -/
theorem operator_tokens : ∀ d ∈ all, ∀ op ∈ BinaryOp.all, ∀ b,
    (d.rules.operator op b).all fun token =>
      (!op.isComparison || token ∈ ["=", "<>", "<", "<=", ">", ">="]) &&
        (!op.isLogical b || token ∈ ["and", "or"]) := by
  decide +kernel

/-- Every dialect spells comparisons with the usual tokens. -/
theorem comparison_token (d : Dialect) {op : BinaryOp} {b : Bool} {token : String}
    (hop : op.isComparison) (h : d.rules.operator op b = some token) :
    token ∈ ["=", "<>", "<", "<=", ">", ">="] := by
  have htokens := operator_tokens d d.mem_all op op.mem_all b
  rw [h, Option.all_some, Bool.and_eq_true_iff] at htokens
  simpa [hop] using htokens.1

/-- Every dialect spells connectives as `and` and `or`. -/
theorem connective_token (d : Dialect) {op : BinaryOp} {b : Bool} {token : String}
    (hop : op.isLogical b) (h : d.rules.operator op b = some token) : token ∈ ["and", "or"] := by
  have htokens := operator_tokens d d.mem_all op op.mem_all b
  rw [h, Option.all_some, Bool.and_eq_true_iff] at htokens
  simpa [hop] using htokens.2

/-- Every dialect spells the negation of a condition as `not`. -/
theorem unary_negation (d : Dialect) : d.rules.unary .not .boolean = some "not " := by
  cases d <;> rfl

/-- Every dialect writes that two conditions differ as a comparison of their values. -/
theorem binary_difference (d : Dialect) (k : ValueKind) :
    d.rules.binary .exclusiveOr .boolean k = some (["(", 0, " <> ", 1, ")"] : Template) := by
  cases d <;> rfl

/-- The condition that a template makes of values. -/
theorem readsAs_test (d : Dialect) {leaf : String → Prop} {t : Template} {vs : List String}
    (ht : d.rules.Tests t vs.length) (hvs : ∀ v ∈ vs, ReadsAs d.rules leaf .value v) (b : Bool) :
    ReadsAs d.rules leaf .condition (t.filled b vs) := by
  generalize hn : vs.length = n at ht
  cases ht with
  | nullTest op =>
    obtain ⟨v, rfl⟩ := List.length_eq_one_iff.mp hn
    have hv := hvs v (by simp)
    have hfilled : ∀ after, Template.filled b [.text "(", .slot 0, .text after] [v] =
        "(" ++ v ++ after := by
      intro after
      simp only [Template.filled, hyphenAfter_opening, Segment.guardedAfter_false]
      simp [String.append_assoc]
    by_cases hop : op = .equal
    · rw [Layout.nullTest, if_pos hop]
      exact hfilled " is null)" ▸ .isNull hv
    · rw [Layout.nullTest, if_neg hop]
      exact hfilled " is not null)" ▸ .isNotNull hv
  | @difference k t ht =>
    obtain ⟨l, r, rfl⟩ := List.length_eq_two.mp hn
    obtain rfl := Option.some.inj ((d.binary_difference k).symm.trans ht)
    -- The token ends in a blank, so that no operand is put in parentheses.
    have hgap : ∀ b, hyphenAfter b " <> " = false := fun b => rfl
    have htext : Template.filled b [.text "(", .slot 0, .text " <> ", .slot 1, .text ")"] [l, r] =
        "(" ++ l ++ " " ++ "<>" ++ " " ++ r ++ ")" := by
      have hspace : " <> " = " " ++ "<>" ++ " " := rfl
      simp only [Template.filled, hyphenAfter_opening, Segment.guardedAfter_false, hgap]
      show "(" ++ (l ++ (" <> " ++ (r ++ (")" ++ "")))) = _
      rw [hspace]
      simp only [String.append_assoc, String.append_empty]
    exact htext ▸ .comparison (by simp) (hvs l (by simp)) (hvs r (by simp))
  | search hm hargs ht => exact .search hm hargs ht hn hvs

section Readable

variable (d : Dialect) {leaf : String → Prop} {f : Spelling}

/-- A comparison of two values is a condition. -/
theorem readable_comparison {op : BinaryOp} {boolean : Bool} {token : String} {l r : Sql}
    (hop : op.isComparison) (htoken : d.rules.operator op boolean = some token)
    (hl : l.Readable d.rules leaf f .value) (hr : r.Readable d.rules leaf f .value) :
    (Sql.infixed token l r).Readable d.rules leaf f .condition := by
  intro hs b
  have hc := Sql.compound_infixed token l r
  obtain ⟨bl, br, htext⟩ := Sql.spelled_infixed (f := f) token l r b
  rw [htext]
  exact .comparison (d.comparison_token hop htoken) (hc.readable hs (by simp) hl bl)
    (hc.readable hs (by simp) hr br)

/-- A connective between two conditions is a condition. -/
theorem readable_connective {op : BinaryOp} {boolean : Bool} {token : String} {l r : Sql}
    (hop : op.isLogical boolean) (htoken : d.rules.operator op boolean = some token)
    (hl : l.Readable d.rules leaf f .condition) (hr : r.Readable d.rules leaf f .condition) :
    (Sql.infixed token l r).Readable d.rules leaf f .condition := by
  intro hs b
  have hc := Sql.compound_infixed token l r
  obtain ⟨bl, br, htext⟩ := Sql.spelled_infixed (f := f) token l r b
  rw [htext]
  exact .connective (d.connective_token hop htoken) (hc.readable hs (by simp) hl bl)
    (hc.readable hs (by simp) hr br)

/-- Any other operator between two values is a value. -/
theorem readable_arithmetic {op : BinaryOp} {boolean : Bool} {token : String} {l r : Sql}
    (hcomparison : op.isComparison = false) (hlogical : op.isLogical boolean = false)
    (hxor : op = .exclusiveOr → boolean = false)
    (htoken : d.rules.operator op boolean = some token)
    (hl : l.Readable d.rules leaf f .value) (hr : r.Readable d.rules leaf f .value) :
    (Sql.infixed token l r).Readable d.rules leaf f .value := by
  intro hs b
  have hc := Sql.compound_infixed token l r
  obtain ⟨bl, br, htext⟩ := Sql.spelled_infixed (f := f) token l r b
  rw [htext]
  exact .arithmetic hcomparison hlogical hxor htoken (hc.readable hs (by simp) hl bl)
    (hc.readable hs (by simp) hr br)

/-- The negation of a condition is a condition. -/
theorem readable_negation {token : String} {s : Sql}
    (htoken : d.rules.unary .not .boolean = some token)
    (h : s.Readable d.rules leaf f .condition) :
    (Sql.prefixed token s).Readable d.rules leaf f .condition := by
  intro hs b
  obtain rfl := Option.some.inj (d.unary_negation.symm.trans htoken)
  -- The blank keeps the operand apart, so that it needs no parentheses.
  have hblank : hyphenAfter b "not " = false := rfl
  rw [Sql.draft, Draft.spelled_append, Draft.spelled_text, Draft.spelled_operand, hblank,
    Segment.guardedAfter_false]
  exact .negation ((Sql.compound_prefixed "not " s).readable hs (by simp) h false)

/-- A sign before a value is a value, in parentheses if it would run into a hyphen. -/
theorem readable_sign {op : UnaryOp} {k : ValueKind} {token : String} {s : Sql}
    (hnot : ¬ (op = .not ∧ k = .boolean)) (htoken : d.rules.unary op k = some token)
    (h : s.Readable d.rules leaf f .value) :
    (Sql.prefixed token s).Readable d.rules leaf f .value := by
  intro hs b
  rw [Sql.draft, Draft.spelled_append, Draft.spelled_text, Draft.spelled_operand]
  exact .sign hnot htoken ((Sql.compound_prefixed token s).readable hs (by simp) h false)

/-- A search for a value among values is a condition. In an empty list nothing is found. -/
theorem readable_membership {needle : Sql} {ss : List Sql}
    (hn : needle.Readable d.rules leaf f .value) (h : ∀ s ∈ ss, s.Readable d.rules leaf f .value) :
    (Sql.inList needle ss).Readable d.rules leaf f .condition := by
  intro hs b
  cases ss with
  | nil =>
    show ReadsAs d.rules leaf .condition ((Draft.text "(1 = 0)").spelled f b)
    rw [Draft.spelled_text]
    exact .nowhere
  | cons s ss =>
    have hne : s :: ss ≠ [] := List.cons_ne_nil s ss
    have hc := Sql.compound_inList needle hne
    show ReadsAs d.rules leaf .condition ((Draft.text "(" ++ needle.draft ++ .text " in (" ++
      Draft.join ", " (Sql.draftList (s :: ss)) ++ .text "))").spelled f b)
    simp only [Draft.spelled_append, Draft.spelled_text]
    exact .membership (hc.readable hs (by simp) hn _)
      (hc.readsAs_values hs hne (fun s' => List.mem_append_left _) h ", " _)

/-- Values that are joined are a value. -/
theorem readable_concat {ss : List Sql} (h : ∀ s ∈ ss, s.Readable d.rules leaf f .value) :
    (Sql.concat d.rules.concat ss).Readable d.rules leaf f .value := by
  intro hs b
  have hc := Sql.compound_concat d.rules.concat ss
  rw [Sql.draft, Sql.draftList_eq_map]
  refine Sql.readsAs_concatDraft (fun t ht => ?_) b
  obtain ⟨s, hmem, rfl⟩ := List.mem_map.mp ht
  exact hc.readable hs hmem (h s hmem)

/-- The first value that is not null is a value. -/
theorem readable_coalesce {s : Sql} {ss : List Sql} (h : s.Readable d.rules leaf f .value)
    (hss : ∀ s ∈ ss, s.Readable d.rules leaf f .value) :
    (Sql.coalesce (s :: ss)).Readable d.rules leaf f .value := by
  intro hs b
  have hc := Sql.compound_coalesce (s :: ss)
  have hvalues := List.forall_mem_cons.mpr ⟨h, hss⟩
  rw [Sql.draft, Draft.spelled_append, Draft.spelled_append, Draft.spelled_text,
    Draft.spelled_text]
  exact .coalesce (hc.readsAs_values hs (List.cons_ne_nil s ss) (fun _ => id) hvalues ", " _)

/-- Branches from conditions to values are a value. -/
theorem readable_caseWhen {test value o : Sql} {bs : List (Sql × Sql)}
    (htest : test.Readable d.rules leaf f .condition)
    (hvalue : value.Readable d.rules leaf f .value)
    (hbs : ∀ br ∈ bs, br.1.Readable d.rules leaf f .condition ∧
      br.2.Readable d.rules leaf f .value)
    (ho : o.Readable d.rules leaf f .value) :
    (Sql.caseWhen ((test, value) :: bs) o).Readable d.rules leaf f .value := by
  intro hs b
  have hc := Sql.compound_caseWhen ((test, value) :: bs) o
  have hparts : ∀ br ∈ (test, value) :: bs,
      (∀ b, ReadsAs d.rules leaf .condition (br.1.draft.spelled f b)) ∧
        ∀ b, ReadsAs d.rules leaf .value (br.2.draft.spelled f b) := by
    intro br hbr
    -- Both parts of a branch are parts of the whole, hence legible.
    have hmem : ∀ part ∈ [br.1, br.2], part ∈ Sql.branchParts ((test, value) :: bs) ++ [o] :=
      fun part hpart => List.mem_append_left _ (List.mem_flatMap.mpr ⟨br, hbr, hpart⟩)
    have hreadable : br.1.Readable d.rules leaf f .condition ∧
        br.2.Readable d.rules leaf f .value := by
      rcases List.mem_cons.mp hbr with rfl | hbr
      · exact ⟨htest, hvalue⟩
      · exact hbs br hbr
    obtain ⟨hcondition, hbvalue⟩ := hreadable
    exact ⟨hc.readable hs (hmem _ (by simp)) hcondition,
      hc.readable hs (hmem _ (by simp)) hbvalue⟩
  have hbranches := Sql.readsAs_draftBranches (List.cons_ne_nil _ bs) hparts
  have hotherwise := hc.readable hs (by simp) ho
  rw [Sql.draft, Draft.spelled_append, Draft.spelled_append, Draft.spelled_append,
    Draft.spelled_append, Draft.spelled_text, Draft.spelled_text, Draft.spelled_text]
  exact .caseWhen (hbranches _) (hotherwise _)

/-- A choice between two values by a condition is a value, where the dialect has a form for it. -/
theorem readable_choice {t : Template} {test l r : Sql} (ht : d.rules.conditional = .nested t)
    (htest : test.Readable d.rules leaf f .condition) (hl : l.Readable d.rules leaf f .value)
    (hr : r.Readable d.rules leaf f .value) :
    (Sql.form t [test, l, r]).Readable d.rules leaf f .value := by
  intro hs b
  have hc : Sql.Compound [test, l, r] (.form t [test, l, r]) :=
    Sql.compound_form d.sound (.conditional ht)
  rw [Sql.spelled_form]
  exact .choice ht (hc.readable hs (by simp) htest false) (hc.readable hs (by simp) hl false)
    (hc.readable hs (by simp) hr false)

/-- A test on values is a condition. -/
theorem readable_test {t : Template} {ss : List Sql} (ht : d.rules.Tests t ss.length)
    (h : ∀ s ∈ ss, s.Readable d.rules leaf f .value) :
    (Sql.form t ss).Readable d.rules leaf f .condition := by
  intro hs b
  rw [Sql.spelled_form]
  exact d.readsAs_test (by simpa using ht) (Sql.forall_readsAs d.sound ht.uses hs h) b

/-- A form that computes from values is a value. -/
theorem readable_form {t : Template} {ss : List Sql} (ht : d.rules.Computes t ss.length)
    (h : ∀ s ∈ ss, s.Readable d.rules leaf f .value) :
    (Sql.form t ss).Readable d.rules leaf f .value := by
  intro hs b
  rw [Sql.spelled_form]
  exact .form (by simpa using ht) (Sql.forall_readsAs d.sound ht.uses hs h)

/-- A value becomes a condition by the form that the dialect has for it. -/
theorem readable_predicateCoercion {s : Sql} (h : s.Readable d.rules leaf f .value) :
    (Sql.form d.rules.predicateCoercion [s]).Readable d.rules leaf f .condition := by
  intro hs b
  have hc : Sql.Compound [s] (.form d.rules.predicateCoercion [s]) :=
    Sql.compound_form d.sound .predicateCoercion
  rw [Sql.spelled_form]
  exact .ofValue (hc.readable hs (by simp) h false)

/-- A condition becomes a value by the form that the dialect has for it. -/
theorem readable_valueCoercion {s : Sql} (h : s.Readable d.rules leaf f .condition) :
    (Sql.form d.rules.valueCoercion [s]).Readable d.rules leaf f .value := by
  intro hs b
  have hc : Sql.Compound [s] (.form d.rules.valueCoercion [s]) :=
    Sql.compound_form d.sound .valueCoercion
  rw [Sql.spelled_form]
  exact .ofCondition (hc.readable hs (by simp) h false)

/-- Nothing is asked of what cannot be written. -/
theorem readable_fault (e : Error) (phrase : Phrase) :
    (Sql.fault e).Readable d.rules leaf f phrase :=
  fun hs => absurd hs.isFaultless (by simp [Sql.draft, Draft.isFaultless])

/-- A level has the text of what is inside it. -/
theorem readable_level {s : Sql} {phrase : Phrase} (h : s.Readable d.rules leaf f phrase) :
    (Sql.level s).Readable d.rules leaf f phrase := by
  intro hs b
  rw [Sql.draft, Draft.spelled_level]
  exact h ⟨hs.isFaultless, hs.constants, hs.columns⟩ b

/-- **Every form makes the phrase it should.** In every dialect the forms keep texts that read as
    conditions apart from those that read as values. -/
theorem sorts_readable : d.rules.Sorts (Sql.Readable d.rules leaf f .condition)
    (Sql.Readable d.rules leaf f .value) where
  comparison := d.readable_comparison
  connective := d.readable_connective
  negation := d.readable_negation
  test := d.readable_test
  membership := d.readable_membership
  predicateCoercion := d.readable_predicateCoercion
  arithmetic := d.readable_arithmetic
  sign := d.readable_sign
  form := d.readable_form
  concat := d.readable_concat
  coalesce := d.readable_coalesce
  caseWhen := d.readable_caseWhen
  choice := d.readable_choice
  valueCoercion := d.readable_valueCoercion
  level := ⟨d.readable_level, d.readable_level⟩
  fault e := ⟨d.readable_fault e _, d.readable_fault e _⟩

end Readable

end Dialect

/-! ### Trees -/

/-- The texts that the leaves of a tree may have: the name under which a column appears, the literal
    of a constant that is not bound, and the mark and name of the parameter of one that is. -/
inductive Expr.LeafText (w : Settings) (b : Bindings) (p : Position) (e : Expr) : String → Prop
  | column {name} : name ∈ e.columns → LeafText w b p e (w.resolve name)
  | literal {x t} : x ∈ e.constants p → w.mode.binds x.2.value = false →
      w.rules.literal x.2.value = some t → LeafText w b p e t
  | placeholder {x q} : x ∈ e.constants p → w.mode.binds x.2.value → b.find? x.1 = some q →
      LeafText w b p e (w.rules.paramMark ++ q.name)

namespace Written

variable {w : Settings} {d : Draft} {s s' : State}

/-- Every constant that is bound has a parameter at the end. -/
theorem exists_find? (h : Written w d s s') {x : Position × Constant} (hx : x ∈ d.constants)
    (hbinds : w.mode.binds x.2.value) : ∃ q, s'.bindings.find? x.1 = some q := by
  induction h with
  | empty | text | column => simp [Draft.constants] at hx
  | bound _ hbind =>
    obtain rfl := List.mem_singleton.mp hx
    obtain ⟨q, hq, -⟩ := Bindings.exists_find?_of_bind hbind
    exact ⟨q, hq⟩
  | literal hfree =>
    obtain rfl := List.mem_singleton.mp hx
    exact absurd hbinds (by simp [hfree])
  | append _ h₂ ih₁ ih₂ =>
    rcases List.mem_append.mp hx with hx | hx
    · obtain ⟨q, hq⟩ := ih₁ hx
      exact ⟨q, Bindings.find?_of_le h₂.bindings_le hq⟩
    · exact ih₂ hx
  | operand _ ih => exact ih hx
  | level _ _ ih => exact ih hx

/-- A draft that was written is legible, if it mentions leaves of a tree only. -/
theorem legible (h : Written w d s s') {e : Expr} {p : Position}
    (hconstants : ∀ x ∈ d.constants, x ∈ e.constants p)
    (hcolumns : ∀ name ∈ d.columns, name ∈ e.columns) :
    d.Legible (e.LeafText w s'.bindings p) ⟨w.resolve, w.spell s'.bindings⟩ where
  isFaultless := h.isFaultless
  constants := by
    intro x hx
    show e.LeafText w s'.bindings p (w.spell s'.bindings x)
    -- A constant appears as its literal or, if it is bound, as its parameter.
    cases hbinds : w.mode.binds x.2.value with
    | false =>
      obtain ⟨t, ht⟩ := h.exists_literal hx hbinds
      have hspell : w.spell s'.bindings x = t := by simp [Settings.spell, hbinds, ht]
      exact hspell ▸ .literal (hconstants x hx) hbinds ht
    | true =>
      obtain ⟨q, hq⟩ := h.exists_find? hx hbinds
      have hspell : w.spell s'.bindings x = w.rules.paramMark ++ q.name := by
        simp [Settings.spell, hbinds, Bindings.nameAt, hq]
      exact hspell ▸ .placeholder (hconstants x hx) hbinds hq
  columns name hn := .column (hcolumns name hn)

end Written

/-- In every role the text of a tree reads as it should, as long as its draft is legible. -/
theorem Expr.layout_readable (d : Dialect) {e : Expr} (he : ∀ n ∈ e.nodes, n.isWellKinded)
    (leaf : String → Prop) (f : Spelling) (p : Position) :
    (e.layout d.rules p).Sorted (Sql.Readable d.rules leaf f .condition)
      (Sql.Readable d.rules leaf f .value) e.isPredicate := by
  refine e.layout_sorted d.sorts_readable d.regular ?_ ?_ he p
  · intro place c hs b
    rw [Sql.draft, Draft.spelled_constant]
    exact .leaf (hs.constants (place, c) (List.mem_singleton.mpr rfl))
  · intro name hs b
    rw [Sql.draft, Draft.spelled_column]
    exact .leaf (hs.columns name (List.mem_singleton.mpr rfl))

namespace Renderer

/-- An expression that mentions leaves of a tree only reads as the phrase that it is. -/
theorem exists_readsAs {r : Renderer} {mode : Mode} {e : Expr} {p : Position} {phrase : Phrase}
    {body : Sql} (hmentions : Accounts (e.constants p) e.columns [body])
    (hreadable : ∀ leaf f, body.Readable r.dialect.rules leaf f phrase) {s s' : State}
    (h : body.draft.write (r.settings mode) s = ⟨s', none⟩) :
    ∃ t, s'.text = s.text ++ t ∧
      ReadsAs r.dialect.rules (e.LeafText (r.settings mode) s'.bindings p) phrase t := by
  have hwritten := written_of_write h
  have hmem : body ∈ [body] := List.mem_singleton.mpr rfl
  have hlegible := hwritten.legible (hmentions.constants body hmem) (hmentions.columns body hmem)
  exact ⟨_, hwritten.text_eq (Bindings.le_refl _), hreadable _ _ hlegible _⟩

/-- **Conditions and values are never mixed up.** Let every call in a tree be Boolean exactly if its
    method is a test. Whatever was written before, a tree that is written as a condition adds a text
    that reads as a condition, and one that is written as a value adds one that reads as a value. A
    query is a condition. -/
theorem written_reads (r : Renderer) (mode : Mode) (e : Expr)
    (he : ∀ n ∈ e.nodes, n.isWellKinded) :
    (∀ (p : Position) (s s' : State), s.writePredicate (r.settings mode) p e = ⟨s', none⟩ →
      ∃ t, s'.text = s.text ++ t ∧
        ReadsAs r.dialect.rules (e.LeafText (r.settings mode) s'.bindings p) .condition t) ∧
    (∀ (p : Position) (s s' : State), s.writeValue (r.settings mode) p e = ⟨s', none⟩ →
      ∃ t, s'.text = s.text ++ t ∧
        ReadsAs r.dialect.rules (e.LeafText (r.settings mode) s'.bindings p) .value t) ∧
    ∀ q, (r.settings mode).query e = .ok q → ∃ b : Bindings, b.parameters = q.parameters ∧
      ReadsAs r.dialect.rules (e.LeafText (r.settings mode) b (.root 0)) .condition q.sql := by
  -- The draft mentions leaves of the tree only, and is read as what the role of the tree asks for.
  have hmentions := fun p => e.layout_mentions r.dialect.sound p
  have hreadable := fun p leaf f => Expr.layout_readable r.dialect he leaf f p
  have hpredicate : ∀ (p : Position) (s s' : State),
      s.writePredicate (r.settings mode) p e = ⟨s', none⟩ → ∃ t, s'.text = s.text ++ t ∧
        ReadsAs r.dialect.rules (e.LeafText (r.settings mode) s'.bindings p) .condition t :=
    fun p s s' h => exists_readsAs (hmentions p).predicate
      (fun leaf f => (hreadable p leaf f).predicate) h
  refine ⟨hpredicate, ?_, ?_⟩
  · intro p s s' h
    exact exists_readsAs (hmentions p).value (fun leaf f => (hreadable p leaf f).value) h
  · intro q h
    simp only [Settings.query, Settings.queryFrom] at h
    split at h
    · next s' hwrite =>
      obtain rfl := Except.ok.inj h
      obtain ⟨t, htext, ht⟩ := hpredicate _ _ _ hwrite
      have hall : s'.text = t := by rw [htext]; exact String.empty_append
      exact ⟨s'.bindings, rfl, hall ▸ ht⟩
    · exact absurd h (by simp)

/-- A comparison and a search that are compared with one another are values in a condition. -/
theorem written_reads_coerced :
    let e := Build.binary .equal
      (Build.binary .equal (Build.column "A" .integer) (Build.literal (.int ⟨.i64, -1, by decide⟩)))
      (Build.inArray (Build.column "B" .string) [Build.literal (.string "x")])
    let sql :=
      "((case when (A = -1) then 1 else 0 end) = (case when (B in ('x')) then 1 else 0 end))"
    (∀ n ∈ e.nodes, n.isWellKinded) ∧ ((of .generic).settings .inline).query e = .ok ⟨sql, []⟩ ∧
      ∃ b : Bindings, b.parameters = [] ∧ ReadsAs (of .generic).dialect.rules
        (e.LeafText ((of .generic).settings .inline) b (.root 0)) .condition sql := by
  intro e sql
  have he : ∀ n ∈ e.nodes, n.isWellKinded := by decide
  have hq : ((of .generic).settings .inline).query e = .ok ⟨sql, []⟩ := by decide +kernel
  exact ⟨he, hq, (written_reads (of .generic) .inline e he).2.2 _ hq⟩

end Renderer

end WhereClause
