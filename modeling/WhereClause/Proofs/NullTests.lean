import WhereClause.Proofs.Conversions
import WhereClause.Proofs.InPlace

namespace WhereClause

open Layout

/-!
# Comparisons with null

An equality with a null constant is written as a test for null, whichever side the constant stands
on, and around the text that the other side has when it is written alone. A constant inside
conversions is not taken for one: although it is written as `NULL` like any other, the equality
stays, and is true of nothing.

* `Settings.write_of_valueQuery` — a value that is written alone, as an operand one level down;
* `Expr.write_null` — a null constant inside conversions;
* `Renderer.query_equality_null` — equalities with it, on both sides.
-/

/-! ### Operands -/

/-- A tree as a value, written alone. -/
def Settings.valueQuery (w : Settings) (e : Expr) : Except Error Query :=
  match State.initial.writeValue w (.root 0) e with
  | ⟨s, none⟩ => .ok ⟨s.text, s.bindings.parameters⟩
  | ⟨_, some err⟩ => .error err

theorem Settings.write_of_valueQuery_root {w : Settings} {e : Expr} {q : Query}
    (h : w.valueQuery e = .ok q) : ∃ b, b.parameters = q.parameters ∧
      (e.value w.rules (.root 0)).draft.write w .initial = ⟨⟨q.sql, b, 0⟩, none⟩ := by
  simp only [valueQuery, State.writeValue] at h
  generalize hwrite : (e.value w.rules (.root 0)).draft.write w .initial = o at h
  obtain ⟨s, error?⟩ := o
  cases error? with
  | none =>
    obtain rfl := Except.ok.inj h
    have hdepth : s.depth = 0 := (written_of_write hwrite).depth_eq
    exact ⟨s.bindings, rfl, by rw [← hdepth]⟩
  | some err => simp at h

/-- **A value as an operand.** One level down, at any place and after any text that ends in no
    hyphen, a value adds the text it has alone, and the same parameters. -/
theorem Settings.write_of_valueQuery {w : Settings} {d : Dialect} (hw : w.rules = d.rules)
    {limit : Nat} {e : Expr} {q : Query} (h : (w.within limit).valueQuery e = .ok q)
    (p : Position) {before : String} (hbefore : before.endsWith '-' = false) :
    ∃ b, b.parameters = q.parameters ∧
      (e.value w.rules p).draft.write (w.within (limit + 1)) ⟨before, .empty, 1⟩ =
        ⟨⟨before ++ q.sql, b, 1⟩, none⟩ := by
  obtain ⟨b, hparameters, hroot⟩ := write_of_valueQuery_root h
  -- First the place changes, then the level, and last the text before.
  have hmoved := (e.layout_abreast (w.within limit) (.root 0) p).value _ _ State.moved_initial
  rcases hmoved.done_or_failed with ⟨s, s', hs, hs', hstate⟩ | ⟨s, s', err, err', hs, -, -, -⟩
  swap
  · simpa using hroot.symm.trans hs
  obtain rfl : ⟨q.sql, b, 0⟩ = s := congrArg Outcome.state (hroot.symm.trans hs)
  have hfaults := Visit.isNesting_of_mem_faults hw (.value p e)
  have hlifted : ((e.value w.rules p).draft.write (w.within limit) .initial).Lifted 1
      ((e.value w.rules p).draft.write (w.within (limit + 1)) (State.initial.lifted 1)) :=
    Draft.write_lifted (w := w.within (limit + 1)) hfaults .initial 1
  have hvalue : (e.value w.rules p).draft.write (w.within limit) .initial = ⟨s', none⟩ := hs'
  rw [hvalue] at hlifted
  have herror := hlifted.error?_eq_none_iff.mpr rfl
  have hstart : State.mk before .empty 1 = (State.initial.lifted 1).after before := by
    simp [State.initial, State.lifted, State.after]
  refine ⟨s'.bindings, hstate.bindings.parameters_eq.symm.trans hparameters, ?_⟩
  rw [hstart, Draft.write_after hbefore, herror, hlifted.state]
  simp only [State.lifted, State.after, ← hstate.text, ← hstate.depth]

namespace Expr

variable {w : Settings} {d : Dialect}

/-- **A null inside conversions** is written as any null, if there are levels enough. -/
theorem write_null (hw : w.rules = d.rules) {c : Constant} (hc : c.value = .null) (k : ValueKind)
    {kinds : List ValueKind} {limit : Nat} (hlimit : kinds.length < limit) (p : Position)
    (before : String) (b : Bindings) :
    (((constant k c).converted kinds).value w.rules p).draft.write (w.within (limit + 1))
        ⟨before, b, 1⟩ = ⟨⟨before ++ "NULL", b, 1⟩, none⟩ := by
  obtain ⟨room, rfl⟩ : ∃ room, limit = room + kinds.length + 1 :=
    ⟨limit - kinds.length - 1, by omega⟩
  have hliteral : w.rules.literal .null = some "NULL" := by
    rw [hw]
    cases d <;> rfl
  have hbare : ((constant k c).value w.rules
      (p.descend (List.replicate kinds.length 0))).draft.write (w.within (room + 2))
        ⟨before, b, 1⟩ = ⟨⟨before ++ "NULL", b, 1⟩, none⟩ := by
    have hbinds : w.mode.binds .null = false := by
      cases w.mode with
      | inline => rfl
      | parameterized policy => cases policy <;> rfl
    have hentered : ¬ room + 2 < 1 + 1 := by omega
    show Draft.write _ (.level (.constant _ c)) _ = _
    simp only [Draft.write, Draft.writeConstant, Settings.within, hentered, hbinds, hc, hliteral,
      if_false, Bool.false_eq_true]
    rfl
  -- The conversions take what is left of the limit.
  obtain ⟨-, hvalue⟩ := converted_matches hw kinds (constant k c) p (room + 2)
  have hmatched := hvalue ⟨before, b, 1⟩ _ rfl
  have hsum : room + kinds.length + 1 + 1 = room + 2 + kinds.length := by omega
  rw [hsum]
  rcases hmatched.done_or_failed with ⟨s, s', hs, hs', rfl⟩ | ⟨s, s', err, err', hs, -, -, -⟩
  · exact hs'.trans (hs.symm.trans hbare)
  · simpa using hs.symm.trans hbare

/-- An equality as a condition. -/
theorem predicate_equality (d : Rules) (p : Position) {op : BinaryOp}
    (hop : op = .equal ∨ op = .notEqual) (k : ValueKind) (left right : Expr) :
    (binary k op left right).predicate d p = .level (binaryBody d (binary k op left right) op left
      right (left.layout d (p.child 0)) (right.layout d (p.child 1))) := by
  rcases hop with rfl | rfl <;> rfl

end Expr

/-! ### Equalities -/

/-- The token between the operands of an equality. -/
def BinaryOp.equality (op : BinaryOp) : String := if op = .equal then "=" else "<>"

/-- The text of an equality between two texts. -/
def BinaryOp.equated (op : BinaryOp) (l r : String) : String :=
  "(" ++ l ++ " " ++ op.equality ++ " " ++ r ++ ")"

/-- The text of a test for null, or for its absence. -/
def BinaryOp.nullTest (op : BinaryOp) (t : String) : String :=
  "(" ++ t ++ if op = .equal then " is null)" else " is not null)"

namespace Layout

variable {d : Dialect} {op : BinaryOp} {left right : Expr} (l r : Layout)

/-- An equality of which neither side is a null constant. -/
theorem binaryBody_equality (hop : op = .equal ∨ op = .notEqual) (e : Expr)
    (hleft : left.isNullConstant = false) (hright : right.isNullConstant = false) :
    binaryBody d.rules e op left right l r = .infixed op.equality l.value r.value := by
  have hnull : comparedWithNull op left right l r = none := by
    simp [comparedWithNull, hleft, hright]
  rw [binaryBody, hnull]
  rcases hop with rfl | rfl <;> cases d <;> rfl

end Layout

namespace Draft

variable {w : Settings} {limit : Nat} {b b' : Bindings}

/-- A template with one operand, in parentheses. -/
theorem write_enclosed {d : Draft} {t : String} (closing : String)
    (h : d.write (w.within (limit + 1)) ⟨"", .empty, 1⟩ = ⟨⟨"" ++ t, b, 1⟩, none⟩) :
    (level (Sql.formDraft ["(", 0, .text closing] [d])).write (w.within (limit + 1)) .initial =
      ⟨⟨"(" ++ t ++ closing, b, 0⟩, none⟩ := by
  have hentered : ¬ (w.within (limit + 1)).maxDepth < 0 + 1 := by simp [Settings.within]
  have hguarded : guarded "(" t = t := by
    have hopening : "(".endsWith '-' = false := by decide +kernel
    simp [guarded, hopening]
  show write _ (.level (.append (.text "(") (.append (.operand d)
    (.append (.text closing) .empty)))) ⟨"", .empty, 0⟩ = _
  simp only [write, Outcome.done, State.put, h, if_neg hentered, String.empty_append, hguarded]

/-- An operator between two operands. -/
theorem write_infixed {left right : Sql} {l r : String} (token : String)
    (hleft : left.draft.write (w.within (limit + 1)) ⟨"(", .empty, 1⟩ = ⟨⟨"(" ++ l, b, 1⟩, none⟩)
    (hright : right.draft.write (w.within (limit + 1)) ⟨"(" ++ l ++ " " ++ token ++ " ", b, 1⟩ =
      ⟨⟨"(" ++ l ++ " " ++ token ++ " " ++ r, b', 1⟩, none⟩) :
    (level (Sql.infixed token left right).draft).write (w.within (limit + 1)) .initial =
      ⟨⟨"(" ++ l ++ " " ++ token ++ " " ++ r ++ ")", b', 0⟩, none⟩ := by
  have hentered : ¬ (w.within (limit + 1)).maxDepth < 0 + 1 := by simp [Settings.within]
  show write _ (.level (.append (.append (.append (.append (.append (.append (.text "(") left.draft)
    (.text " ")) (.text token)) (.text " ")) right.draft) (.text ")"))) ⟨"", .empty, 0⟩ = _
  simp only [write, Outcome.done, State.put, if_neg hentered, String.empty_append, hleft, hright]

end Draft

namespace Settings

variable {w : Settings} {d : Dialect} {limit : Nat} {x : Expr} {t : String} {ps : List Parameter}
  {op : BinaryOp} {left right : Expr}

/-- An equality that compares a value with null. -/
theorem query_nullTest (hw : w.rules = d.rules) (hx : (w.within limit).valueQuery x = .ok ⟨t, ps⟩)
    (hop : op = .equal ∨ op = .notEqual) {p : Position}
    (hnull : comparedWithNull op left right (left.layout w.rules ((Position.root 0).child 0))
      (right.layout w.rules ((Position.root 0).child 1)) = some (x.layout w.rules p))
    (k : ValueKind) :
    (w.within (limit + 1)).query (.binary k op left right) = .ok ⟨op.nullTest t, ps⟩ := by
  obtain ⟨b, rfl, hwrite⟩ := write_of_valueQuery hw hx p endsWith_empty_hyphen
  have hdraft : ((Expr.binary k op left right).predicate w.rules (.root 0)).draft =
      .level (Sql.formDraft ["(", 0, .text (if op = .equal then " is null)" else " is not null)")]
        [(x.value w.rules p).draft]) := by
    rw [Expr.predicate_equality w.rules (.root 0) hop, binaryBody, hnull]
    rcases hop with rfl | rfl <;> rfl
  have hquery : ((Expr.binary k op left right).predicate w.rules (.root 0)).draft.write
      (w.within (limit + 1)) .initial = ⟨⟨op.nullTest t, b, 0⟩, none⟩ := by
    rw [hdraft]
    exact Draft.write_enclosed _ hwrite
  exact query_of_write hquery

/-- An equality that compares two values. -/
theorem query_equated (hw : w.rules = d.rules) (hop : op = .equal ∨ op = .notEqual)
    (hleft : left.isNullConstant = false) (hright : right.isNullConstant = false) {l r : String}
    {b b' : Bindings}
    (hl : (left.value w.rules ((Position.root 0).child 0)).draft.write (w.within (limit + 1))
      ⟨"(", .empty, 1⟩ = ⟨⟨"(" ++ l, b, 1⟩, none⟩)
    (hr : (right.value w.rules ((Position.root 0).child 1)).draft.write (w.within (limit + 1))
      ⟨"(" ++ l ++ " " ++ op.equality ++ " ", b, 1⟩ =
        ⟨⟨"(" ++ l ++ " " ++ op.equality ++ " " ++ r, b', 1⟩, none⟩)
    (k : ValueKind) :
    (w.within (limit + 1)).query (.binary k op left right) =
      .ok ⟨op.equated l r, b'.parameters⟩ := by
  have hdraft : ((Expr.binary k op left right).predicate w.rules (.root 0)).draft =
      .level (Sql.infixed op.equality (left.value w.rules ((Position.root 0).child 0))
        (right.value w.rules ((Position.root 0).child 1))).draft := by
    rw [Expr.predicate_equality w.rules (.root 0) hop, hw,
      binaryBody_equality _ _ hop _ hleft hright]
    rfl
  have hquery : ((Expr.binary k op left right).predicate w.rules (.root 0)).draft.write
      (w.within (limit + 1)) .initial = ⟨⟨op.equated l r, b', 0⟩, none⟩ := by
    rw [hdraft]
    exact Draft.write_infixed _ hl hr
  exact query_of_write hquery

end Settings

namespace Renderer

variable (r : Renderer) (mode : Mode)

/-- **Equalities with null.** Let a value that is no null constant have the text `t` when it is
    written alone. With a null constant itself on either side, an equality with it is a test of `t`
    for null. With a null constant inside conversions it is not: `t` is compared with `NULL`, as any
    two values are. -/
theorem query_equality_null {limit : Nat} {x : Expr} {t : String} {ps : List Parameter}
    (hx : x.isNullConstant = false)
    (ht : ({ r with maxDepth := limit }.settings mode).valueQuery x = .ok ⟨t, ps⟩)
    {op : BinaryOp} (hop : op = .equal ∨ op = .notEqual) (k nullKind : ValueKind) {c : Constant}
    (hc : c.value = .null) (kinds : List ValueKind) (hkinds : kinds.length < limit) :
    let w := { r with maxDepth := limit + 1 }.settings mode
    let null := (Expr.constant nullKind c).converted kinds
    (kinds = [] →
      w.query (.binary k op x null) = .ok ⟨op.nullTest t, ps⟩ ∧
      w.query (.binary k op null x) = .ok ⟨op.nullTest t, ps⟩) ∧
    (kinds ≠ [] →
      w.query (.binary k op x null) = .ok ⟨op.equated t "NULL", ps⟩ ∧
      w.query (.binary k op null x) = .ok ⟨op.equated "NULL" t, ps⟩) := by
  intro w null
  have hw : w.rules = r.dialect.rules := rfl
  have ht : (w.within limit).valueQuery x = .ok ⟨t, ps⟩ := ht
  refine ⟨?_, fun hne => ?_⟩
  · -- A bare null is seen on either side, and the other side is the operand of the test.
    rintro rfl
    have hnull : null.isNullConstant = true := by
      show c.value.isNull = true
      rw [hc]
      rfl
    constructor
    · refine Settings.query_nullTest (p := (Position.root 0).child 0) hw ht hop ?_ k
      simp only [comparedWithNull, hop, hnull, if_true]
    · refine Settings.query_nullTest (p := (Position.root 0).child 1) hw ht hop ?_ k
      simp only [comparedWithNull, hop, hnull, hx, if_true, if_false, Bool.false_eq_true]
  · -- A conversion around it hides it, and both sides are written as values.
    have hnull : null.isNullConstant = false := by
      cases kinds with
      | nil => exact absurd rfl hne
      | cons => rfl
    have hopening : "(".endsWith '-' = false := by decide +kernel
    have hspace : ∀ a : String, (a ++ " ").endsWith '-' = false := fun a => by
      rw [endsWith_append_hyphen]
      simp [hyphenAfter]
    have hwritten := Expr.write_null hw hc nullKind hkinds
    constructor
    · obtain ⟨b, rfl, hl⟩ := Settings.write_of_valueQuery hw ht ((Position.root 0).child 0)
        hopening
      exact Settings.query_equated hw hop hx hnull hl (hwritten _ _ b) k
    · obtain ⟨b, rfl, hr⟩ := Settings.write_of_valueQuery hw ht ((Position.root 0).child 1)
        (hspace ("(" ++ "NULL" ++ " " ++ op.equality))
      exact Settings.query_equated hw hop hnull hx (hwritten _ "(" .empty) hr k

/-- A name that is compared with a null, and with one inside two conversions. -/
theorem query_equality_null_name :
    let w := { Renderer.of .generic with maxDepth := 4 }.settings .inline
    let name := Build.column "companyName" .string
    (name.isNullConstant = false ∧
      ({ Renderer.of .generic with maxDepth := 3 }.settings .inline).valueQuery name =
        .ok ⟨"companyName", []⟩) ∧
    (w.query (.binary .boolean .equal name Build.null) = .ok ⟨"(companyName is null)", []⟩ ∧
      w.query (.binary .boolean .equal Build.null name) = .ok ⟨"(companyName is null)", []⟩) ∧
    (w.query (.binary .boolean .notEqual name (Build.null.converted [.string, .other])) =
        .ok ⟨"(companyName <> NULL)", []⟩ ∧
      w.query (.binary .boolean .notEqual (Build.null.converted [.string, .other]) name) =
        .ok ⟨"(NULL <> companyName)", []⟩) := by
  have hname : ({ Renderer.of .generic with maxDepth := 3 }.settings .inline).valueQuery
      (Build.column "companyName" .string) = .ok ⟨"companyName", []⟩ := by decide +kernel
  exact ⟨⟨rfl, hname⟩,
    (query_equality_null (.of .generic) .inline rfl hname (.inl rfl) .boolean .other rfl
      [] (by decide)).1 rfl,
    (query_equality_null (.of .generic) .inline rfl hname (.inr rfl) .boolean .other rfl
      [.string, .other] (by decide)).2 (by simp)⟩

/-- A name is compared with a null that is converted to a string, and is not tested for null. -/
theorem inline_equality_converted_null :
    (Renderer.of .generic).inline (Build.binary .equal (Build.column "companyName" .string)
        (Build.convert .string Build.null)) = .ok "(companyName = NULL)" ∧
      (Renderer.of .generic).inline (Build.binary .equal (Build.column "companyName" .string)
        Build.null) = .ok "(companyName is null)" := by
  decide +kernel

end Renderer

end WhereClause
