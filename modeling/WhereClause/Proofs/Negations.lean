import WhereClause.Proofs.Concatenation
import WhereClause.Proofs.Grammar
import WhereClause.Proofs.Literals

namespace WhereClause

/-!
# Negations beside infix operators

There are no parentheses around `not ` and its operand, so that the text of a negation must not
stand beside an infix operator that binds more tightly. Every form begins with a text of its own,
except for the few that begin with an operand. Whether the text of a value begins with `not ` is
therefore decided at the root of its tree, below those forms. In all dialects but one it never does,
since a condition is coerced to a value and a number has another operator; Access has neither.

* `BeginsNegated`, `Template.isOpened` — texts that begin with a negation, and templates that
  do not;
* `Dialect.isOpened_of_uses` — no template of a dialect does, except for a coercion;
* `Expr.LeadsWithNegation` — trees that have a negation below what adds no text before it;
* `Expr.negatesInAccess` — the values that begin with a negation;
* `Renderer.infix_operands_negated_iff` — the operands of infix operators.
-/

/-! ### Texts -/

/-- A text that begins with a negation. -/
def BeginsNegated (t : String) : Prop := "not ".toList <+: t.toList

instance (t : String) : Decidable (BeginsNegated t) := inferInstanceAs (Decidable (_ <+: _))

/-- A text has a first character, and it is not that of a negation. -/
def isOpening (t : String) : Bool := t.toList.head?.any (· ≠ 'n')

/-- An opening text keeps a negation from the front, whatever follows it. -/
theorem not_beginsNegated_append {t : String} (h : isOpening t) (rest : String) :
    ¬ BeginsNegated (t ++ rest) := by
  rw [BeginsNegated, String.toList_append]
  unfold isOpening at h
  cases hcs : t.toList with
  | nil => simp [hcs] at h
  | cons c cs =>
    have hc : c ≠ 'n' := by simpa [hcs] using h
    intro hbegins
    exact hc (List.cons_prefix_cons.mp hbegins).1.symm

/-- An opening text is no negation itself. -/
theorem not_beginsNegated {t : String} (h : isOpening t) : ¬ BeginsNegated t := by
  have happend := not_beginsNegated_append h ""
  rwa [String.append_empty] at happend

/-- An empty text does not begin with a negation. -/
theorem not_beginsNegated_empty : ¬ BeginsNegated "" := by decide

/-- A template begins with a text that is not a negation. -/
def Template.isOpened : Template → Bool
  | .text t :: _ => isOpening t
  | _ => false

/-- A concatenation begins with a text, unless it has one part. -/
def ConcatStyle.isOpened : ConcatStyle → Bool
  | infixed _ => true
  | function name => isOpening name

/-- Without the letter that it begins with, there is no negation. -/
theorem not_beginsNegated_of_not_mem {t : String} (h : 'n' ∉ t.toList) : ¬ BeginsNegated t :=
  fun hbegins => h (hbegins.subset (by decide))

/-! ### Expressions -/

namespace Sql

/-- The text of an expression begins with a negation. -/
def Negates (f : Spelling) (s : Sql) : Prop := BeginsNegated (s.draft.spelled f false)

variable {f : Spelling}

/-- A constant negates if its text does. -/
theorem negates_constant (p : Position) (c : Constant) :
    (constant p c).Negates f ↔ BeginsNegated (f.constant (p, c)) := by
  rw [Negates, draft, Draft.spelled_constant]

/-- A column negates if its text does. -/
theorem negates_column (name : String) :
    (column name).Negates f ↔ BeginsNegated (f.column name) := by
  rw [Negates, draft, Draft.spelled_column]

/-- What cannot be written has no text. -/
theorem not_negates_fault (e : Error) : ¬ (fault e).Negates f := not_beginsNegated_empty

/-- A form that opens with a text does not negate, whatever its operands are. -/
theorem not_negates_form {t : Template} (ht : t.isOpened) (ss : List Sql) :
    ¬ (form t ss).Negates f := by
  rw [Negates, spelled_form]
  cases t with
  | nil => simp [Template.isOpened] at ht
  | cons piece t =>
    cases piece with
    | text s => exact not_beginsNegated_append ht _
    | slot i => simp [Template.isOpened] at ht

/-- A template that is nothing but its operand. -/
theorem negates_form_slot (s : Sql) : (form [0] [s]).Negates f ↔ s.Negates f := by
  have htext : Template.filled false [0] [s.draft.spelled f false] = s.draft.spelled f false := by
    simp [Template.filled, Segment.guardedAfter_false]
  rw [Negates, spelled_form, List.map_singleton, htext]
  rfl

/-- A token before an operand negates if the two together do. -/
theorem negates_prefixed (token : String) (s : Sql) :
    (prefixed token s).Negates f ↔ BeginsNegated
      (token ++ Segment.guardedAfter (hyphenAfter false token) (s.draft.spelled f false)) := by
  simp only [Negates, draft, Draft.spelled_append, Draft.spelled_text, Draft.spelled_operand]

/-- A parenthesis stands before two operands. -/
theorem not_negates_infixed (token : String) (l r : Sql) : ¬ (infixed token l r).Negates f := by
  obtain ⟨_, _, htext⟩ := spelled_infixed (f := f) token l r false
  rw [Negates, htext]
  simp only [String.append_assoc]
  exact not_beginsNegated_append (by decide) _

/-- The name of the function stands before its arguments. -/
theorem not_negates_coalesce (ss : List Sql) : ¬ (coalesce ss).Negates f := by
  simp only [Negates, draft, Draft.spelled_append, Draft.spelled_text, String.append_assoc]
  exact not_beginsNegated_append (by decide) _

/-- A parenthesis stands before a search. -/
theorem not_negates_inList (needle : Sql) (ss : List Sql) : ¬ (inList needle ss).Negates f := by
  cases ss with
  | nil =>
    simp only [Negates, draft, draftList, inListDraft, Draft.spelled_text]
    exact not_beginsNegated (by decide)
  | cons =>
    simp only [Negates, draft, draftList, inListDraft, Draft.spelled_append, Draft.spelled_text,
      String.append_assoc]
    exact not_beginsNegated_append (by decide) _

/-- A parenthesis stands before branches. -/
theorem not_negates_caseWhen (branches : List (Sql × Sql)) (o : Sql) :
    ¬ (caseWhen branches o).Negates f := by
  simp only [Negates, draft, Draft.spelled_append, Draft.spelled_text, String.append_assoc]
  exact not_beginsNegated_append (by decide) _

/-- Joined strings begin with an operand only if there is one string to join. -/
theorem negates_concat {style : ConcatStyle} (hstyle : style.isOpened) (ss : List Sql) :
    (concat style ss).Negates f ↔ ∃ s, ss = [s] ∧ s.Negates f := by
  rcases ss with _ | ⟨s, _ | ⟨s', ss⟩⟩
  · simp only [Negates, draft, draftList, concatDraft, Draft.spelled_text]
    simpa using not_beginsNegated (t := "''") (by decide)
  · show s.Negates f ↔ _
    simp
  · have hmany : ¬ (concat style (s :: s' :: ss)).Negates f := by
      cases style with
      | infixed token =>
        simp only [Negates, draft, draftList, concatDraft, Draft.spelled_append, Draft.spelled_text,
          String.append_assoc]
        exact not_beginsNegated_append (by decide) _
      | function name =>
        simp only [Negates, draft, draftList, concatDraft, Draft.spelled_append, Draft.spelled_text,
          String.append_assoc]
        exact not_beginsNegated_append hstyle _
    simpa using hmany

end Sql

/-! ### Forms of the dialects -/

/-- Rules whose form for a condition as a value is that for a value as a condition. All other forms
    are those of the given rules. -/
def Rules.uncoerced (d : Rules) : Rules := { d with valueCoercion := d.predicateCoercion }

namespace Dialect

/-- Every template of every dialect begins with a text, except perhaps for a coercion. -/
theorem table_isOpened : ∀ d ∈ all, ∀ x ∈ d.rules.uncoerced.table, x.1.isOpened := by
  decide +kernel

variable (d : Dialect)

/-- All forms of a dialect open with a text, except perhaps for the coercion to a value. -/
theorem isOpened_of_uses {t : Template} {n : Nat} (h : d.rules.uncoerced.Uses t n) :
    t.isOpened := by
  have hdates : d.rules.uncoerced.ConstructsDates := fun hc => d.constructsDates hc
  exact table_isOpened d d.mem_all _ (Rules.mem_table_of_uses hdates h)

/-- Every dialect opens a concatenation with a parenthesis or a name. -/
theorem concat_isOpened : d.rules.concat.isOpened := by
  cases d <;> decide

/-- Where a condition is coerced to a value at all, the form of that begins with a text as well. -/
theorem valueCoercion_eq_or : (d = .access ∧ d.rules.valueCoercion = [0]) ∨
    (d ≠ .access ∧ d.rules.valueCoercion.isOpened) := by
  cases d <;> decide

/-- The negation of a number begins like that of a condition in one dialect only. -/
theorem unary_not_eq_or {k : ValueKind} (hk : k ≠ .boolean) :
    (d = .access ∧ d.rules.unary .not k = some "not ") ∨
    (d ≠ .access ∧ (d.rules.unary .not k = some "~" ∨ d.rules.unary .not k = none)) := by
  cases d <;> simp [rules, Generic.rules, SqlServer.rules, SqlServerCe.rules, Oracle.rules,
    Sqlite.rules, Access.rules, MySql.rules, Generic.unary, Oracle.unary, Access.unary, hk]

/-- A plus sign is not written. -/
theorem unary_plus (k : ValueKind) : d.rules.unary .plus k = some "" := by cases d <;> rfl

/-- A minus sign is written as such. -/
theorem unary_negate (k : ValueKind) : d.rules.unary .negate k = some "-" := by cases d <;> rfl

/-- No literal begins with a negation. -/
theorem not_beginsNegated_literal {v : Value} {t : String} (h : d.rules.literal v = some t) :
    ¬ BeginsNegated t := by
  have hnumber : ∀ {t : String}, Text.SpelledWith numberMarks t.toList → ¬ BeginsNegated t :=
    fun ht => not_beginsNegated_of_not_mem (ht.not_mem rfl (by decide))
  -- Numbers have no letters. All else stands behind a fixed text, which differs between dialects.
  cases v with
  | null =>
    obtain rfl : "NULL" = t := by cases d <;> exact Option.some.inj h
    decide
  | bool b => cases d <;> cases b <;> (obtain rfl := Option.some.inj h; decide)
  | int n =>
    obtain rfl : n.val.repr = t := by cases d <;> exact Option.some.inj h
    exact hnumber (spelledWith_int n.val)
  | float p x =>
    have hliteral : (if x.isFinite then some (x.text p) else none) = some t := by
      cases d <;> exact h
    split at hliteral
    · next hx =>
      obtain rfl := Option.some.inj hliteral
      exact hnumber (Floating.spelledWith_text hx p)
    · exact absurd hliteral (by simp)
  | decimal x =>
    obtain rfl : x.text = t := by cases d <;> exact Option.some.inj h
    exact hnumber x.spelledWith_text
  | bytes bs =>
    cases d
    case access => cases h
    all_goals
      obtain rfl := Option.some.inj h
      simp [BeginsNegated]
  | string | char | dateTime | dateTimeOffset | time | guid =>
    cases d
    all_goals
      obtain rfl := Option.some.inj h
      simp [BeginsNegated, Generic.quoted, Text.quote, Text.quoteEscaping]

end Dialect

/-! ### Bodies of nodes -/

namespace Layout

open Sql

variable {d : Dialect} {f : Spelling} {l r : Layout}

/-- A form that opens with a text does not negate, and neither does a missing one. -/
theorem not_negates_formOr (e : Expr) {template : Option Template} (ss : List Sql)
    (ht : ∀ t, template = some t → t.isOpened) : ¬ (formOr d.rules e template ss).Negates f := by
  cases template with
  | none => exact not_negates_fault _
  | some t => exact not_negates_form (ht t rfl) ss

/-- A property of a value does not negate. -/
theorem not_negates_memberBody (e : Expr) (family : Family) (name : String) :
    ¬ (memberBody d.rules e family name l).Negates f := by
  unfold memberBody
  split
  · exact not_negates_formOr e _ fun t ht => d.isOpened_of_uses (.property ht)
  · exact not_negates_fault _

/-- A negation is written as such before a condition, and in Access before anything. -/
theorem negates_unaryBody_not (e operand : Expr) :
    (unaryBody d.rules e .not operand l).Negates f ↔ operand.isBoolean ∨ d = .access := by
  have hbegins : ∀ s : Sql, (prefixed "not " s).Negates f := fun s => by
    rw [negates_prefixed, BeginsNegated, String.toList_append]
    exact List.prefix_append _ _
  have htilde : ∀ s : Sql, ¬ (prefixed "~" s).Negates f := fun s => by
    rw [negates_prefixed]
    exact not_beginsNegated_append (by decide) _
  rw [unaryBody, if_neg (by decide)]
  -- The token depends on the kind of the operand, except in Access.
  by_cases hk : operand.kind = .boolean
  · rw [hk, d.unary_negation]
    simp [Expr.isBoolean, hk, hbegins]
  · rcases d.unary_not_eq_or hk with ⟨rfl, htoken⟩ | ⟨hd, htoken | htoken⟩
    · simp [htoken, hbegins]
    · simp [htoken, Expr.isBoolean, hk, hd, htilde]
    · simpa [htoken, Expr.isBoolean, hk, hd] using not_negates_fault _

/-- A sign that changes nothing is not written. -/
theorem negates_unaryBody_plus (e operand : Expr) :
    (unaryBody d.rules e .plus operand l).Negates f ↔ l.value.Negates f := by
  rw [unaryBody, if_neg (by decide), d.unary_plus]
  dsimp only
  rw [negates_prefixed, String.empty_append]
  rfl

/-- A minus sign does not negate a condition. -/
theorem not_negates_unaryBody_negate (e operand : Expr) :
    ¬ (unaryBody d.rules e .negate operand l).Negates f := by
  rw [unaryBody, if_neg (by decide), d.unary_negate]
  dsimp only
  rw [negates_prefixed]
  exact not_beginsNegated_append (by decide) _

/-- An operator between two operands does not negate. -/
theorem not_negates_operatorBody (e : Expr) (op : BinaryOp) (left right : Expr) :
    ¬ (operatorBody d.rules e op left right l r).Negates f := by
  unfold operatorBody
  dsimp only
  split
  · next t ht => exact not_negates_form (d.isOpened_of_uses (.binary ht)) _
  · split
    · exact not_negates_infixed _ _ _
    · exact not_negates_fault _

/-- A binary operator has parentheses, or a name before its operands. -/
theorem not_negates_binaryBody (e : Expr) (op : BinaryOp) (left right : Expr)
    (hl : l.summands ≠ []) (hr : r.summands ≠ []) :
    ¬ (binaryBody d.rules e op left right l r).Negates f := by
  unfold binaryBody
  split
  · exact not_negates_form (d.isOpened_of_uses (.nullTest op)) _
  · split_ifs
    · -- Both sides have a part at least.
      rw [negates_concat d.concat_isOpened]
      rintro ⟨s, hs, -⟩
      have hlength := congrArg List.length hs
      have hleft := List.length_pos_iff.mpr hl
      have hright := List.length_pos_iff.mpr hr
      rw [List.length_append, List.length_singleton] at hlength
      omega
    · exact not_negates_form (d.isOpened_of_uses .dateDiff) _
    · unfold coalesceBody
      split
      · next t ht => exact not_negates_form (d.isOpened_of_uses (.coalesce ht)) _
      · exact not_negates_coalesce _
    · exact not_negates_operatorBody e op left right

/-- A choice between two values does not negate. -/
theorem not_negates_conditionalBody (test : Expr) {t : Layout} :
    ¬ (conditionalBody d.rules test t l r).Negates f := by
  unfold conditionalBody
  split
  · next t ht => exact not_negates_form (d.isOpened_of_uses (.conditional ht)) _
  · split
    · exact not_negates_caseWhen _ _
    · exact not_negates_form (d.isOpened_of_uses .numericCase) _

/-- A method is written as one of its operands only if it gives the text of a string, or joins one
    string. -/
theorem not_negates_methodBody (e : Expr) {m : Method} (htext : m ≠ .toText)
    (hconcat : m ≠ .string .concat) (firstIsString : Bool) {args : Nat}
    (hargs : m.signature.admits args) (ls : List Layout) :
    ¬ (methodBody d.rules e m firstIsString args ls).Negates f := by
  have hform : ¬ (formOr d.rules e (d.rules.method m args) (ls.map Layout.value)).Negates f :=
    not_negates_formOr e _ fun t ht => d.isOpened_of_uses (.method hconcat hargs ht)
  -- Comparisons and differences have forms of their own, and a search needs two operands.
  cases m with
  | compare | compareTo => exact not_negates_form (d.isOpened_of_uses .compare) _
  | daysBetween => exact not_negates_form (d.isOpened_of_uses .dateDiff) _
  | membership =>
    rcases ls with _ | ⟨array, _ | ⟨needle, _ | ⟨l, ls⟩⟩⟩
    case cons.cons.nil =>
      show ¬ (membershipBody d.rules e array needle).Negates f
      unfold membershipBody
      split
      · exact not_negates_inList _ _
      · exact not_negates_fault _
    all_goals exact hform
  | string m =>
    cases m
    case concat => exact absurd rfl hconcat
    all_goals exact hform
  | toText => exact absurd rfl htext
  | shift | decimal | math | rounding => exact hform

/-- The text of a string is the string. -/
theorem negates_methodBody_toText (e : Expr) (firstIsString : Bool) :
    (methodBody d.rules e .toText firstIsString 0 [l]).Negates f ↔
      firstIsString ∧ l.value.Negates f := by
  show (if firstIsString then l.value else formOr d.rules e (d.rules.method .toText 0)
    [l.value]).Negates f ↔ _
  cases firstIsString with
  | true => simp
  | false =>
    have hopened : ∀ t, d.rules.method .toText 0 = some t → t.isOpened :=
      fun t ht => d.isOpened_of_uses (.method (m := .toText) (n := 0) (by simp) rfl ht)
    simpa using not_negates_formOr e [l.value] hopened

/-- A call has a text if its method is known and its shape fits. -/
theorem negates_callBody (e : Expr) (family : Family) (name : String)
    (hasReceiver firstIsString : Bool) (args : Nat) (ls : List Layout) :
    (callBody d.rules e family name hasReceiver firstIsString args ls).Negates f ↔
      ∃ m, family.method? name = some m ∧ m.signature.hasReceiver = hasReceiver ∧
        m.signature.admits args ∧ (methodBody d.rules e m firstIsString args ls).Negates f := by
  unfold callBody
  cases family.method? name with
  | none => simpa using not_negates_fault _
  | some m =>
    have hfault : ∀ err, ¬ (fault err).Negates f := not_negates_fault
    dsimp only
    split_ifs with hreceiver hargs
    · simp [hfault, hreceiver]
    · simp [not_not.mp hreceiver, hargs]
    · simp [hfault, hargs]

/-- A call on a receiver begins like the receiver if it gives the text of a string. -/
theorem negates_callBody_receiver (e : Expr) (family : Family) (name : String)
    (firstIsString : Bool) (ls : List Layout) :
    (callBody d.rules e family name true firstIsString ls.length (l :: ls)).Negates f ↔
      family.method? name = some .toText ∧ firstIsString ∧ ls = [] ∧ l.value.Negates f := by
  rw [negates_callBody]
  constructor
  · rintro ⟨m, hm, hreceiver, hargs, h⟩
    by_cases htext : m = .toText
    · subst htext
      obtain rfl : ls = [] := by
        simpa [Method.signature, Method.onReceiver, Signature.admits] using hargs
      obtain ⟨hstring, hl⟩ := (negates_methodBody_toText e firstIsString).mp h
      exact ⟨hm, hstring, rfl, hl⟩
    · have hconcat : m ≠ .string .concat := by
        rintro rfl
        cases hreceiver
      exact absurd h (not_negates_methodBody e htext hconcat firstIsString hargs _)
  · rintro ⟨hm, hstring, rfl, hl⟩
    exact ⟨.toText, hm, rfl, rfl, (negates_methodBody_toText e firstIsString).mpr ⟨hstring, hl⟩⟩

/-- Any other call begins like a part if it joins this part only. -/
theorem negates_callBody_standalone (e : Expr) (family : Family) (name : String)
    (ls : List Layout) :
    (callBody d.rules e family name false false ls.length ls).Negates f ↔
      family.method? name = some (.string .concat) ∧
        ∃ s, ls.flatMap Layout.spread = [s] ∧ s.Negates f := by
  rw [negates_callBody]
  constructor
  · rintro ⟨m, hm, hreceiver, hargs, h⟩
    by_cases hconcat : m = .string .concat
    · subst hconcat
      exact ⟨hm, (negates_concat d.concat_isOpened _).mp h⟩
    · have htext : m ≠ .toText := by
        rintro rfl
        cases hreceiver
      exact absurd h (not_negates_methodBody e htext hconcat false hargs _)
  · rintro ⟨hm, s, hs, hnegates⟩
    have hargs : (Method.string .concat).signature.admits ls.length := by
      cases ls with
      | nil => simp at hs
      | cons => simp [Method.signature, Method.stringSignature, Signature.admits]
    exact ⟨_, hm, rfl, hargs, (negates_concat d.concat_isOpened _).mpr ⟨s, hs, hnegates⟩⟩

end Layout

/-! ### Values -/

namespace Expr

/-- A tree with a negation below nodes that add no text before it: conversions, signs that change
    nothing, texts of strings, and concatenations of one part. -/
inductive LeadsWithNegation : Expr → Prop
  | not {k e} : LeadsWithNegation (unary k .not e)
  | convert {k e} : LeadsWithNegation e → LeadsWithNegation (unary k .convert e)
  | plus {k e} : LeadsWithNegation e → LeadsWithNegation (unary k .plus e)
  | toText {k family name receiver} : family.method? name = some .toText → receiver.isString →
      LeadsWithNegation receiver → LeadsWithNegation (call k family name receiver [])
  | concat {k family name args part} : family.method? name = some (.string .concat) →
      args.flatMap argumentParts = [part] → LeadsWithNegation part →
      LeadsWithNegation (callStatic k family name args)

/-- A tree that is no larger than another one, and has no other columns. -/
structure Includes (e x : Expr) : Prop where
  sizeOf_le : sizeOf x ≤ sizeOf e
  columns_subset : x.columns ⊆ e.columns

/-- A tree includes the parts of a concatenation that it is. -/
theorem includes_of_mem_summands {e x : Expr} (h : x ∈ e.summands) : e.Includes x := by
  fun_induction summands e with
  | case1 k op l r hsum ihl ihr =>
    rcases List.mem_append.mp h with h | h
    · obtain ⟨hsize, hcolumns⟩ := ihl h
      exact ⟨by rw [binary.sizeOf_spec]; omega,
        fun name hname => List.mem_append_left _ (hcolumns hname)⟩
    · obtain ⟨hsize, hcolumns⟩ := ihr h
      exact ⟨by rw [binary.sizeOf_spec]; omega,
        fun name hname => List.mem_append_right _ (hcolumns hname)⟩
  | case2 | case3 =>
    obtain rfl := List.mem_singleton.mp h
    exact ⟨Nat.le_refl _, List.Subset.refl _⟩

/-- A tree includes the parts that it gives to a concatenation around it. -/
theorem includes_of_mem_argumentParts {e x : Expr} (h : x ∈ e.argumentParts) : e.Includes x := by
  cases e with
  | array k items =>
    obtain ⟨item, hitem, hx⟩ := List.mem_flatMap.mp h
    obtain ⟨hsize, hcolumns⟩ := includes_of_mem_summands hx
    have hlist := List.sizeOf_lt_of_mem hitem
    exact ⟨by rw [array.sizeOf_spec]; omega,
      fun name hname => mem_listColumns.mpr ⟨item, hitem, hcolumns hname⟩⟩
  | _ => exact includes_of_mem_summands h

/-- The receiver of a call is sought in vain only if the call is a search. -/
theorem columns_subset_of_toText {family : Family} {name : String}
    (h : family.method? name = some .toText) (k : ValueKind) (receiver : Expr) (args : List Expr) :
    receiver.columns ⊆ (call k family name receiver args).columns := by
  have hidle : isIdleSearch family name receiver = false := by
    by_contra hidle
    obtain ⟨rfl, rfl, -⟩ : family = .other ∧ name = "Contains" ∧ receiver.isEmptyArray := by
      simpa [isIdleSearch] using hidle
    exact absurd h (by decide)
  rw [columns, hidle]
  exact List.subset_append_left _ _

/-- There is a part at least. -/
theorem summands_layout_ne_nil (d : Rules) (e : Expr) (p : Position) :
    (e.layout d p).summands ≠ [] := by
  have hparts : e.summandsAt p ≠ [] := by
    fun_induction summandsAt p e with
    | case1 p k op l r hsum ihl ihr => simp [ihl]
    | case2 | case3 => simp
  rw [summands_layout]
  simpa using hparts

/-- Unfolding lemma: a binary node as it is by itself. -/
theorem natural_binary (d : Rules) (p : Position) (k : ValueKind) (op : BinaryOp)
    (left right : Expr) :
    ((binary k op left right).layout d p).natural =
      .level (Layout.binaryBody d (binary k op left right) op left right
        (left.layout d (p.child 0)) (right.layout d (p.child 1))) := by
  simp only [layout]
  split_ifs <;> rfl

/-- Unfolding lemma: a conditional as it is by itself. -/
theorem natural_conditional (d : Rules) (p : Position) (k : ValueKind)
    (test ifTrue ifFalse : Expr) :
    ((conditional k test ifTrue ifFalse).layout d p).natural =
      .level (Layout.conditionalBody d test (test.layout d (p.child 0))
        (ifTrue.layout d (p.child 1)) (ifFalse.layout d (p.child 2))) := by
  simp only [layout]
  split_ifs <;> rfl

variable {f : Spelling} (d : Dialect)

/-- A value begins with a negation if the node does, and is not coerced. -/
theorem value_negates_iff_natural (e : Expr) (p : Position) :
    (e.value d.rules p).Negates f ↔
      (e.layout d.rules p).natural.Negates f ∧ (e.isPredicate → d = .access) := by
  rw [value_eq]
  cases e.isPredicate with
  | false => simp
  | true =>
    -- In Access the coercion is the condition itself.
    rcases d.valueCoercion_eq_or with ⟨rfl, hslot⟩ | ⟨hd, hopened⟩
    · rw [if_pos rfl, hslot, Sql.negates_form_slot]
      simp
    · rw [if_pos rfl]
      simpa [hd] using Sql.not_negates_form hopened [(e.layout d.rules p).natural]

/-- A conversion is written as its operand. -/
theorem value_convert_negates_iff (k : ValueKind) (e : Expr) (p : Position) :
    ((unary k .convert e).value d.rules p).Negates f ↔ (e.value d.rules (p.child 0)).Negates f := by
  rw [value_negates_iff_natural, value_negates_iff_natural]
  rfl

/-- In a given spelling, a tree begins with a negation in Access alone, and there if it leads with
    one. -/
def NegatesInAccess (f : Spelling) (d : Dialect) (e : Expr) : Prop :=
  ∀ p, (e.value d.rules p).Negates f ↔ d = .access ∧ e.LeadsWithNegation

variable {d}

/-- A node that never negates and does not lead with a negation. -/
theorem negatesInAccess_of_not (e : Expr)
    (hnatural : ∀ p, ¬ (e.layout d.rules p).natural.Negates f) (hleads : ¬ e.LeadsWithNegation) :
    e.NegatesInAccess f d := by
  intro p
  rw [value_negates_iff_natural]
  simp [hnatural, hleads]

/-- A conversion and a plus sign are their operand; a negation is one; a minus sign is none. -/
theorem negatesInAccess_unary (k : ValueKind) (op : UnaryOp) {operand : Expr}
    (h : operand.NegatesInAccess f d) : (unary k op operand).NegatesInAccess f d := by
  intro p
  cases op with
  | not =>
    rw [value_negates_iff_natural]
    show (Layout.unaryBody _ _ _ _ _).Negates f ∧ (operand.isBoolean → d = .access) ↔ _
    rw [Layout.negates_unaryBody_not]
    exact ⟨fun h => ⟨h.1.elim h.2 id, .not⟩, fun h => ⟨.inr h.1, fun _ => h.1⟩⟩
  | convert =>
    rw [value_convert_negates_iff, h]
    exact and_congr_right fun _ => ⟨.convert, fun h => by cases h; assumption⟩
  | plus =>
    show (Layout.unaryBody _ _ _ _ _).Negates f ↔ _
    rw [Layout.negates_unaryBody_plus]
    exact (h _).trans (and_congr_right fun _ => ⟨.plus, fun h => by cases h; assumption⟩)
  | negate =>
    refine negatesInAccess_of_not (unary k .negate operand) (fun q => ?_) (by rintro ⟨⟩) p
    exact Layout.not_negates_unaryBody_negate (unary k .negate operand) operand

/-- A call negates only if it hands its receiver on as text. -/
theorem negatesInAccess_call (k : ValueKind) (family : Family) (name : String) {receiver : Expr}
    (args : List Expr)
    (h : family.method? name = some .toText → receiver.NegatesInAccess f d) :
    (call k family name receiver args).NegatesInAccess f d := by
  intro p
  have hbody := Layout.negates_callBody_receiver (d := d) (f := f)
    (l := receiver.layout d.rules (p.child 0)) (call k family name receiver args) family name
    receiver.isString (layoutList d.rules p 1 args)
  rw [length_layoutList] at hbody
  rw [value_negates_iff_natural]
  refine (and_congr_left' hbody).trans ⟨?_, ?_⟩
  · rintro ⟨⟨hm, hstring, hargs, hreceiver⟩, -⟩
    obtain rfl : args = [] := by simpa using congrArg List.length hargs
    obtain ⟨hd, hleads⟩ := (h hm _).mp hreceiver
    exact ⟨hd, .toText hm hstring hleads⟩
  · rintro ⟨hd, hleads⟩
    cases hleads with
    | toText hm hstring hleads =>
      exact ⟨⟨hm, hstring, rfl, (h hm _).mpr ⟨hd, hleads⟩⟩, fun _ => hd⟩

/-- A static call negates only if it is a concatenation of one part that does. -/
theorem negatesInAccess_callStatic (k : ValueKind) (family : Family) (name : String)
    {args : List Expr} (h : ∀ part ∈ args.flatMap argumentParts, part.NegatesInAccess f d) :
    (callStatic k family name args).NegatesInAccess f d := by
  intro p
  have hbody := Layout.negates_callBody_standalone (d := d) (f := f)
    (callStatic k family name args) family name (layoutList d.rules p 0 args)
  rw [length_layoutList, flatMap_layoutList spread_layout] at hbody
  have hrow : (rowAt argumentPartsAt p 0 args).map Prod.snd = args.flatMap argumentParts :=
    map_snd_rowAt map_snd_argumentPartsAt 0
  rw [value_negates_iff_natural]
  refine (and_congr_left' hbody).trans ⟨?_, ?_⟩
  · -- The row has one part, so the arguments have one part between them.
    rintro ⟨⟨hm, s, hs, hnegates⟩, -⟩
    obtain ⟨⟨q, part⟩, hparts, rfl⟩ := List.map_eq_singleton_iff.mp hs
    rw [hparts] at hrow
    obtain ⟨hd, hleads⟩ := (h part (hrow ▸ List.mem_singleton_self part) q).mp hnegates
    exact ⟨hd, .concat hm hrow.symm hleads⟩
  · rintro ⟨hd, hleads⟩
    cases hleads with
    | concat hm hparts hleads =>
      rw [hparts] at hrow h
      obtain ⟨⟨q, part⟩, hparts', rfl⟩ := List.map_eq_singleton_iff.mp hrow
      refine ⟨⟨hm, part.value d.rules q, by rw [hparts']; rfl, ?_⟩, fun _ => hd⟩
      exact (h part (List.mem_singleton_self part) q).mpr ⟨hd, hleads⟩

/-- **Values that begin with a negation.** If no constant and no column does, a value begins with a
    negation in Access alone, and there if its tree leads with one. -/
theorem negatesInAccess (hconstant : ∀ x, ¬ BeginsNegated (f.constant x)) (e : Expr)
    (hcolumn : ∀ name ∈ e.columns, ¬ BeginsNegated (f.column name)) : e.NegatesInAccess f d := by
  -- A part of a concatenation can be an item of an array, which is no child of the call.
  induction hsize : sizeOf e using Nat.strong_induction_on generalizing e with
  | _ n ih =>
    subst hsize
    cases e with
    | constant k c =>
      refine negatesInAccess_of_not _ (fun p => ?_) (by rintro ⟨⟩)
      exact (Sql.negates_constant p c).not.mpr (hconstant _)
    | column k name family =>
      refine negatesInAccess_of_not _ (fun p => ?_) (by rintro ⟨⟩)
      exact (Sql.negates_column name).not.mpr (hcolumn name (by simp [columns]))
    | member k object name family =>
      refine negatesInAccess_of_not _ (fun p => ?_) (by rintro ⟨⟩)
      exact Layout.not_negates_memberBody (member k object name family) family name
    | unary k op operand =>
      exact negatesInAccess_unary k op
        (ih (sizeOf operand) (by rw [unary.sizeOf_spec]; omega) operand hcolumn rfl)
    | binary k op left right =>
      refine negatesInAccess_of_not _ (fun p => ?_) (by rintro ⟨⟩)
      rw [natural_binary]
      exact Layout.not_negates_binaryBody _ _ _ _ (summands_layout_ne_nil _ _ _)
        (summands_layout_ne_nil _ _ _)
    | call k family name receiver args =>
      refine negatesInAccess_call k family name args fun hm => ?_
      have hcolumns := columns_subset_of_toText hm k receiver args
      exact ih (sizeOf receiver) (by rw [call.sizeOf_spec]; omega) receiver
        (fun n hn => hcolumn n (hcolumns hn)) rfl
    | callStatic k family name args =>
      refine negatesInAccess_callStatic k family name fun part hpart => ?_
      obtain ⟨arg, harg, hpart⟩ := List.mem_flatMap.mp hpart
      obtain ⟨hpartSize, hcolumns⟩ := includes_of_mem_argumentParts hpart
      have hlist := List.sizeOf_lt_of_mem harg
      exact ih (sizeOf part) (by rw [callStatic.sizeOf_spec]; omega) part
        (fun n hn => hcolumn n (mem_listColumns.mpr ⟨arg, harg, hcolumns hn⟩)) rfl
    | conditional k test ifTrue ifFalse =>
      refine negatesInAccess_of_not _ (fun p => ?_) (by rintro ⟨⟩)
      rw [natural_conditional]
      exact Layout.not_negates_conditionalBody test
    | construct k type args =>
      refine negatesInAccess_of_not _ (fun p => ?_) (by rintro ⟨⟩)
      exact Layout.not_negates_formOr _ _ fun t ht => d.isOpened_of_uses (.construct ht)
    | array k items =>
      refine negatesInAccess_of_not _ (fun p => ?_) (by rintro ⟨⟩)
      exact Sql.not_negates_fault (.unsupported d.rules.name (array k items).text)

end Expr

/-! ### Operands of infix operators -/

/-- An operator other than `and` and `or` that is infix stands between values. -/
theorem Expr.operands_of_natural_infixed {d : Rules} {p : Position} {k : ValueKind} {op : BinaryOp}
    {left right : Expr} {token : String} {lhs rhs : Sql}
    (hop : op.isLogical left.isBoolean = false)
    (h : ((binary k op left right).layout d p).natural = .level (.infixed token lhs rhs)) :
    lhs = left.value d (p.child 0) ∧ rhs = right.value d (p.child 1) := by
  rw [natural_binary] at h
  injection h with h
  unfold Layout.binaryBody at h
  -- Of all forms of a binary node only the last is infix.
  split at h
  · cases h
  · split_ifs at h
    · unfold Layout.coalesceBody at h
      split at h <;> cases h
    · simp only [Layout.operatorBody, hop] at h
      split at h
      · cases h
      · split at h
        · injection h with _ hlhs hrhs
          exact ⟨hlhs.symm, hrhs.symm⟩
        · cases h

namespace Written

variable {w : Settings} {s s' : State}

/-- A row is written part by part. -/
theorem exists_of_append {first second : Draft} (h : Written w (first ++ second) s s') :
    ∃ s₁, Written w first s s₁ ∧ Written w second s₁ s' := by
  change Written w (.append first second) s s' at h
  cases h with
  | append hfirst hsecond => exact ⟨_, hfirst, hsecond⟩

/-- A text is put at the end. -/
theorem eq_put {t : String} (h : Written w (.text t) s s') : s' = s.put t := by
  cases h
  rfl

/-- What is written for an infix operator: its operands one after the other. -/
theorem exists_operands {token : String} {lhs rhs : Sql}
    (h : Written w (Sql.level (.infixed token lhs rhs)).draft s s') :
    ∃ s₁ s₂, Written w lhs.draft ({ s with depth := s.depth + 1 }.put "(") s₁ ∧
      Written w rhs.draft (s₁.put (" " ++ token ++ " ")) s₂ ∧ s'.text = s₂.text ++ ")" := by
  change Written w (.level (Sql.infixed token lhs rhs).draft) s s' at h
  cases h with
  | level _ h =>
    -- The row is taken apart from its end.
    rw [Sql.draft] at h
    obtain ⟨s₂, h, hclosing⟩ := h.exists_of_append
    obtain ⟨_, h, hrhs⟩ := h.exists_of_append
    obtain ⟨_, h, hafter⟩ := h.exists_of_append
    obtain ⟨_, h, htoken⟩ := h.exists_of_append
    obtain ⟨s₁, h, hbefore⟩ := h.exists_of_append
    obtain ⟨_, hopening, hlhs⟩ := h.exists_of_append
    obtain rfl := hopening.eq_put
    obtain rfl := hbefore.eq_put
    obtain rfl := htoken.eq_put
    obtain rfl := hafter.eq_put
    obtain rfl := hclosing.eq_put
    have hspaced : ((s₁.put " ").put token).put " " = s₁.put (" " ++ token ++ " ") := by
      simp [State.put, String.append_assoc]
    rw [hspaced] at hrhs
    exact ⟨s₁, s₂, hlhs, hrhs, rfl⟩

end Written

/-- Between two states an infix operator is written with the texts `L` and `R` for its operands. -/
def Settings.WritesInfix (w : Settings) (p : Position) (left : Expr) (token : String)
    (right : Expr) (s : State) (L R : String) (s' : State) : Prop :=
  ∃ s₁ s₂,
    ({ s with depth := s.depth + 1 }.put "(").writeValue w (p.child 0) left = .done s₁ ∧
    s₁.text = s.text ++ "(" ++ L ∧
    (s₁.put (" " ++ token ++ " ")).writeValue w (p.child 1) right = .done s₂ ∧
    s₂.text = s₁.text ++ (" " ++ token ++ " ") ++ R ∧
    s'.text = s₂.text ++ ")"

/-- No constant is spelled with a negation at its beginning. -/
theorem Dialect.not_beginsNegated_spell (d : Dialect) {w : Settings} (hw : w.rules = d.rules)
    (b : Bindings) (x : Position × Constant) : ¬ BeginsNegated (w.spell b x) := by
  unfold Settings.spell
  split
  · have hmark : isOpening w.rules.paramMark := by
      rw [hw]
      cases d <;> decide +kernel
    exact not_beginsNegated_append hmark _
  · cases hliteral : w.rules.literal x.2.value with
    | none => exact not_beginsNegated_empty
    | some t => exact d.not_beginsNegated_literal (hw ▸ hliteral)

/-- A value that is written after a text which ends in no hyphen adds a text that begins with a
    negation if the value does. -/
theorem Written.exists_text {w : Settings} {d : Dialect} (hw : w.rules = d.rules) {e : Expr}
    {p : Position} {s s' : State} (h : Written w (e.value w.rules p).draft s s')
    (hs : s.text.endsWith '-' = false)
    (hcolumn : ∀ name ∈ e.columns, ¬ BeginsNegated (w.resolve name)) :
    ∃ t, s'.text = s.text ++ t ∧ (BeginsNegated t ↔ d = .access ∧ e.LeadsWithNegation) := by
  -- Constants are spelled with the parameters that are known at the end.
  refine ⟨_, h.text_eq (Bindings.le_refl _), ?_⟩
  rw [hs, hw]
  exact Expr.negatesInAccess (f := ⟨w.resolve, w.spell s'.bindings⟩)
    (d.not_beginsNegated_spell hw s'.bindings) e hcolumn p

namespace Renderer

/-- **Negations beside infix operators.** Where an operator other than `and` and `or` is written
    between its operands, the text of an operand begins with a negation in Access alone, and there
    exactly if the operand leads with one. -/
theorem infix_operands_negated_iff (r : Renderer) (mode : Mode) {k : ValueKind} {op : BinaryOp}
    {left right : Expr} {p : Position} {token : String} {lhs rhs : Sql} {s s' : State}
    (hop : op.isLogical left.isBoolean = false)
    (hshape : ((Expr.binary k op left right).layout r.dialect.rules p).natural =
      .level (.infixed token lhs rhs))
    (hcolumn : ∀ name ∈ (Expr.binary k op left right).columns,
      ¬ BeginsNegated (r.resolver.getD id name))
    (hwrite : (Sql.level (.infixed token lhs rhs)).draft.write (r.settings mode) s = .done s') :
    ∃ L R, (r.settings mode).WritesInfix p left token right s L R s' ∧
      (BeginsNegated L ↔ r.dialect = .access ∧ left.LeadsWithNegation) ∧
      (BeginsNegated R ↔ r.dialect = .access ∧ right.LeadsWithNegation) := by
  have hw : (r.settings mode).rules = r.dialect.rules := rfl
  obtain ⟨rfl, rfl⟩ := Expr.operands_of_natural_infixed hop hshape
  obtain ⟨s₁, s₂, hleft, hright, htext⟩ := (written_of_write hwrite).exists_operands
  have hopening : ({ s with depth := s.depth + 1 }.put "(" : State).text.endsWith '-' = false := by
    simp only [State.put, endsWith_append_hyphen]
    rfl
  have hspace : (s₁.put (" " ++ token ++ " ")).text.endsWith '-' = false := by
    simp only [State.put, ← String.append_assoc]
    rw [endsWith_append_hyphen]
    rfl
  obtain ⟨L, hL, hnegatedL⟩ := hleft.exists_text hw hopening fun name hname =>
    hcolumn name (List.mem_append_left _ hname)
  obtain ⟨R, hR, hnegatedR⟩ := hright.exists_text hw hspace fun name hname =>
    hcolumn name (List.mem_append_right _ hname)
  exact ⟨L, R, ⟨s₁, s₂, hleft.write_eq, hL, hright.write_eq, hR, htext⟩, hnegatedL, hnegatedR⟩

/-- The negation of a number in Access, on the left of a comparison. -/
theorem infix_operands_negated_iff_number :
    let w := (Renderer.of .access).settings .inline
    let negated := Build.unary .not (Build.column "a" .integer)
    let five := Build.literal (.int ⟨.i32, 5, by decide⟩)
    ∃ L R s', w.WritesInfix (.root 0) negated "=" five .initial L R s' ∧
      s'.text = "(not a = 5)" ∧ BeginsNegated L ∧ ¬ BeginsNegated R := by
  intro w negated five
  let body := Sql.infixed "=" (negated.value w.rules ((Position.root 0).child 0))
    (five.value w.rules ((Position.root 0).child 1))
  have hshape : ((Expr.binary .boolean .equal negated five).layout w.rules (.root 0)).natural =
      .level body := rfl
  have herror : ((Sql.level body).draft.write w .initial).error? = none := by decide +kernel
  have hdone : (Sql.level body).draft.write w .initial =
      .done ((Sql.level body).draft.write w .initial).state := by
    rw [Outcome.done, ← herror]
  obtain ⟨L, R, hwrites, hL, hR⟩ :=
    infix_operands_negated_iff (.of .access) .inline rfl hshape (by decide) hdone
  have hfive : ¬ five.LeadsWithNegation := by
    show ¬ (Expr.constant _ _).LeadsWithNegation
    rintro ⟨⟩
  exact ⟨L, R, _, hwrites, by decide +kernel, hL.mpr ⟨rfl, .not⟩, fun h => hfive (hR.mp h).2⟩

/-- The number is negated before it is compared, but the text reads the other way round. In another
    dialect the operators differ. -/
theorem inline_number_negated :
    let e := Build.binary .equal (Build.unary .not (Build.column "a" .integer))
      (Build.literal (.int ⟨.i32, 5, by decide⟩))
    (Renderer.of .access).inline e = .ok "(not a = 5)" ∧
      (Renderer.of .generic).inline e = .ok "(~a = 5)" := by
  decide +kernel

end Renderer

end WhereClause
