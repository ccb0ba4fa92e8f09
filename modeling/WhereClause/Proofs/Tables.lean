import WhereClause.Proofs.Enumerations
import WhereClause.Proofs.Spacing

namespace WhereClause

/-!
# The tables of the dialects

The forms of a dialect are finitely many, so that a property which can be decided for one template
can be decided for all of them. This file lists the templates of some rules and settles that the
seven dialects are sound and spaced.

* `Rules.table`, `Rules.mem_table_of_uses` — all templates, with the number of their operands;
* `Dialect.sound` — every form of every dialect has a sound outline;
* `Dialect.spaced` — no form of a dialect opens a comment.
-/

/-! ### Templates of a dialect -/

/-- A piece of a template that is a place, or a text without braces. -/
def Piece.isBraceless : Piece → Bool
  | .text s => !s.toList.contains '\x7b'
  | .slot _ => true

namespace Rules

/-- The templates that some chains are nested with. -/
def chains (d : Rules) : List (Template × Nat) :=
  (match d.coalesce with | .nested t => [(t, 2)] | .flatten => []) ++
    (match d.conditional with | .nested t => [(t, 3)] | .case => [])

/-- All templates, each with the number of its operands. -/
def table (d : Rules) : List (Template × Nat) :=
  (Property.all.filterMap fun p => (d.property p).map (·, 1)) ++
    (Method.all.flatMap fun m => (List.range 3).filterMap fun n =>
      if m.signature.admits n then (d.method m n).map (·, n + m.signature.hasReceiver.toNat)
      else none) ++
    (BinaryOp.all.flatMap fun op => ValueKind.all.flatMap fun l => ValueKind.all.filterMap fun r =>
      (d.binary op l r).map (·, 2)) ++
    ([3, 6].filterMap fun n => (d.construct .dateTime n).map (·, n)) ++
    d.chains ++
    [(d.dateDiff, 2), (d.compare, 2), (d.valueCoercion, 1), (d.predicateCoercion, 1),
      (Layout.nullTest .equal, 1), (Layout.nullTest .notEqual, 1),
      (["(case ", 0, " when 0 then ", 2, " else ", 1, " end)"], 3)]

/-- Dates are constructed from three parts or from six, and nothing else is constructed. -/
def ConstructsDates (d : Rules) : Prop :=
  ∀ {type n t}, d.construct type n = some t → type = .dateTime ∧ (n = 3 ∨ n = 6)

/-- The table of a dialect lists every template that it uses, with the number of its operands. -/
theorem mem_table_of_uses {d : Rules} (hd : d.ConstructsDates) {t : Template} {n : Nat}
    (h : d.Uses t n) : (t, n) ∈ d.table := by
  simp only [table, List.mem_append]
  -- One case for each part of the table, counted from its end.
  cases h with
  | @property p t hp =>
    exact .inl (.inl (.inl (.inl (.inl (List.mem_filterMap.mpr ⟨p, p.mem_all, by simp [hp]⟩)))))
  | @method m n t hm hn ht =>
    have hrange : n ∈ List.range 3 := List.mem_range.mpr (Method.args_lt_three hm hn)
    exact .inl (.inl (.inl (.inl (.inr (List.mem_flatMap.mpr
      ⟨m, m.mem_all, List.mem_filterMap.mpr ⟨n, hrange, by simp [hn, ht]⟩⟩)))))
  | @binary op l r t ht =>
    exact .inl (.inl (.inl (.inr (List.mem_flatMap.mpr ⟨op, op.mem_all, List.mem_flatMap.mpr
      ⟨l, l.mem_all, List.mem_filterMap.mpr ⟨r, r.mem_all, by simp [ht]⟩⟩⟩))))
  | @construct type n t ht =>
    obtain ⟨rfl, hn⟩ := hd ht
    exact .inl (.inl (.inr (List.mem_filterMap.mpr ⟨n, by simpa using hn, by simp [ht]⟩)))
  | coalesce ht => exact .inl (.inr (by simp [chains, ht]))
  | conditional ht => exact .inl (.inr (by simp [chains, ht]))
  | nullTest op =>
    right
    by_cases hop : op = .equal
    · simp [hop]
    · simp [Layout.nullTest, hop]
  | dateDiff => exact .inr (by simp)
  | compare => exact .inr (by simp)
  | valueCoercion => exact .inr (by simp)
  | predicateCoercion => exact .inr (by simp)
  | numericCase => exact .inr (by simp)

end Rules

namespace Dialect

/-- Every dialect constructs dates only, from three fields or from six. -/
theorem constructsDates (d : Dialect) : d.rules.ConstructsDates := by
  have hgeneric : ∀ {type n t}, Generic.construct type n = some t →
      type = .dateTime ∧ (n = 3 ∨ n = 6) := by
    intro type n t h
    unfold Generic.construct at h
    split at h <;> simp_all
  intro type n t h
  cases d <;> simp only [rules, SqlServerCe.rules, SqlServer.rules, Generic.rules, Oracle.rules,
    Sqlite.rules, Access.rules, MySql.rules] at h
  case generic => exact hgeneric h
  case sqlServer | sqlServerCe =>
    unfold SqlServer.construct at h
    split at h
    · simp
    · simp
    · exact hgeneric h
  case oracle => unfold Oracle.construct at h; split at h <;> simp_all
  case sqlite => unfold Sqlite.construct at h; split at h <;> simp_all
  case access => unfold Access.construct at h; split at h <;> simp_all
  case mySql => unfold MySql.construct at h; split at h <;> simp_all

/-- Every text before the operand of a unary operator is empty or may stand there. -/
theorem unary_sound : ∀ d ∈ all, ∀ op ∈ UnaryOp.all, ∀ k ∈ ValueKind.all,
    (d.rules.unary op k).all fun token =>
      decide ((token = "" ∨ Outline.Sound [.text token, .apart]) ∧
        Outline.IsSpaced [.text token, .apart]) := by
  decide +kernel

/-- Every infix token may stand between its operands. -/
theorem operator_sound : ∀ d ∈ all, ∀ op ∈ BinaryOp.all, ∀ b,
    (d.rules.operator op b).all fun token =>
      let k : Outline :=
        [.text "(", .inPlace, .text " ", .text token, .text " ", .inPlace, .text ")"]
      decide (k.Sound ∧ k.IsSpaced) := by
  decide +kernel

/-- Every template of every dialect passes the checks, and no text of one has a brace. All is
    decided at once, since most of the work is to take the texts apart. -/
theorem table_checked : ∀ d ∈ all, ∀ x ∈ d.rules.table,
    x.1.Sound x.2 ∧ (∀ piece ∈ x.1, piece.isBraceless) ∧ x.1.outline.IsSpaced := by
  decide +kernel

/-- **The dialects are sound.** Every form of every dialect closes its literals and parentheses,
    keeps its operands apart from its texts, and mentions each of them. -/
theorem sound (d : Dialect) : d.rules.Sound where
  template hu := (table_checked d d.mem_all _ (Rules.mem_table_of_uses d.constructsDates hu)).1
  prefixed := fun {op kind token} ht => by
    have h := unary_sound d d.mem_all op op.mem_all kind kind.mem_all
    rw [ht, Option.all_some, decide_eq_true_eq] at h
    exact h.1
  infixed := fun {op b token} ht => by
    have h := operator_sound d d.mem_all op op.mem_all b
    rw [ht, Option.all_some, decide_eq_true_eq] at h
    exact h.1
  concat := by
    cases d
    all_goals first
      | exact fun n => rfl
      | exact ⟨some 'T', rfl⟩

/-- **The dialects are spaced.** No form of any dialect opens a comment, whatever it is filled
    with. -/
theorem spaced (d : Dialect) : d.rules.Spaced where
  template hu :=
    (table_checked d d.mem_all _ (Rules.mem_table_of_uses d.constructsDates hu)).2.2
  prefixed := fun {op kind token} ht => by
    have h := unary_sound d d.mem_all op op.mem_all kind kind.mem_all
    rw [ht, Option.all_some, decide_eq_true_eq] at h
    exact h.2
  infixed := fun {op b token} ht => by
    have h := operator_sound d d.mem_all op op.mem_all b
    rw [ht, Option.all_some, decide_eq_true_eq] at h
    exact h.2
  concat := by cases d <;> rfl

end Dialect

end WhereClause
