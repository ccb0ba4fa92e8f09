import WhereClause.Expr.Build
import WhereClause.Proofs.Simulation
import WhereClause.Proofs.Written

namespace WhereClause

/-!
# Names of columns

Columns can get other names while the text is written, or before that in the tree. Both come to the
same: a name that was looked up is written as any other would be, whatever characters it is made of,
and nothing but columns is looked up.

* `Expr.renamed` — a tree with other names for its columns;
* `Error.SameCause` — errors that differ at most in the text of a construct;
* `Expr.layout_renamed` — both trees are written alike in every role;
* `Renderer.query_renamed` — and so are whole queries.
-/

/-! ### Trees with other names -/

namespace Expr

mutual

/-- The tree with other names for its columns. Properties of values and methods keep theirs. -/
def renamed (f : String → String) : Expr → Expr
  | constant k c => constant k c
  | column k name family => column k (f name) family
  | member k object name family => member k (renamed f object) name family
  | unary k op operand => unary k op (renamed f operand)
  | binary k op left right => binary k op (renamed f left) (renamed f right)
  | call k family method receiver args =>
    call k family method (renamed f receiver) (listRenamed f args)
  | callStatic k family method args => callStatic k family method (listRenamed f args)
  | conditional k test ifTrue ifFalse =>
    conditional k (renamed f test) (renamed f ifTrue) (renamed f ifFalse)
  | construct k type args => construct k type (listRenamed f args)
  | array k items => array k (listRenamed f items)

/-- Trees with other names for their columns. -/
def listRenamed (f : String → String) : List Expr → List Expr
  | [] => []
  | e :: es => renamed f e :: listRenamed f es

end

variable {f : String → String} {e : Expr}

/-- Each tree of a list is renamed by itself. -/
theorem listRenamed_eq_map (f : String → String) (es : List Expr) :
    listRenamed f es = es.map (renamed f) := by
  induction es with
  | nil => rfl
  | cons e es ih => rw [listRenamed, ih, List.map_cons]

/-- The subtrees are renamed. -/
theorem children_renamed (f : String → String) (e : Expr) :
    (e.renamed f).children = e.children.map (renamed f) := by
  cases e <;> simp [renamed, children, listRenamed_eq_map]

/-- Only a column looks different itself. -/
theorem sameHead_renamed (h : ∀ k name family, e ≠ .column k name family) :
    SameHead Eq e (e.renamed f) := by
  have hlength : ∀ es : List Expr, es.length = (listRenamed f es).length := fun es => by
    rw [listRenamed_eq_map, List.length_map]
  cases e with
  | constant => exact .constant rfl
  | column k name family => exact absurd rfl (h k name family)
  | member => exact .member
  | unary => exact .unary
  | binary => exact .binary
  | call => exact .call (hlength _)
  | callStatic => exact .callStatic (hlength _)
  | conditional => exact .conditional
  | construct => exact .construct (hlength _)
  | array => exact .array (hlength _)

/-- The children of the renamed tree are the renamed children. -/
theorem eq_renamed_of_opposite {i : Nat} {c c' : Expr} (h : Opposite e (e.renamed f) i c c') :
    c' = c.renamed f := by
  obtain ⟨hc, hc'⟩ := h
  rw [children_renamed, List.getElem?_map, hc] at hc'
  exact (Option.some.inj hc').symm

end Expr

/-! ### Writings -/

/-- Two errors that are the same, except perhaps for the text of a construct that a dialect does not
    have. -/
def Error.SameCause (err err' : Error) : Prop :=
  err = err' ∨ ∃ dialect t t', err = .unsupported dialect t ∧ err' = .unsupported dialect t'

/-- Settings that look up the new names of columns. -/
def Settings.renaming (w : Settings) (f : String → String) : Settings :=
  { w with resolve := w.resolve ∘ f }

namespace Draft

/-- Two drafts that are written alike if the new names of columns are looked up for the first. -/
abbrev Renamed (w : Settings) (f : String → String) : Draft → Draft → Prop :=
  Matches (w.renaming f) w Error.SameCause Eq

variable {w : Settings} {f : String → String}

/-- Faults of the same cause, which may mention columns, are renamed. -/
theorem renamed_fault {err err' : Error} (h : err.SameCause err') :
    Renamed w f (.fault err) (.fault err') := by
  rintro s _ rfl
  exact ⟨rfl, .some h⟩

/-- A column is renamed. -/
theorem renamed_column (name : String) : Renamed w f (.column name) (.column (f name)) := by
  rintro s _ rfl
  exact ⟨rfl, .none⟩

/-- A constant stays as it is. -/
theorem renamed_constant (place : Position) (c : Constant) :
    Renamed w f (.constant place c) (.constant place c) := by
  rintro s _ rfl
  refine ⟨rfl, ?_⟩
  show Option.Rel Error.SameCause (writeConstant w place c s).error?
    (writeConstant w place c s).error?
  cases (writeConstant w place c s).error? with
  | none => exact .none
  | some err => exact .some (.inl rfl)

/-- Every form keeps drafts from being written differently. -/
theorem renamed_preserves (w : Settings) (f : String → String) :
    w.rules.Preserves fun s s' => Renamed w f s.draft s'.draft := by
  have hrows : Congruence Eq (Renamed w f) := State.stable_eq.congruence
  have hlimit : (w.renaming f).maxDepth = w.maxDepth := rfl
  exact Sql.preserves_of_congruence hrows (fun _ => rfl)
    (State.stable_eq.level hlimit fun _ => .inl rfl) (fun _ => renamed_fault (.inl rfl)) w.rules

end Draft

namespace Expr

open Layout (Related)

/-- **Names of columns.** A tree whose columns are looked up and the tree with the names that are
    found are written alike in every role. -/
theorem layout_renamed (w : Settings) (f : String → String) (e : Expr) (p : Position) :
    Similar e (e.renamed f) ∧
      Related True True (fun s s' => Draft.Renamed w f s.draft s'.draft) (e.layout w.rules p)
        ((e.renamed f).layout w.rules p) := by
  have hforms := Draft.renamed_preserves w f
  induction e using Expr.induction_children generalizing p with
  | node e ih =>
    -- A renamed column is the one node whose head changes, so it is left out of the common step.
    by_cases hcolumn : ∃ k name family, e = .column k name family
    · obtain ⟨k, name, family, rfl⟩ := hcolumn
      exact ⟨⟨rfl, rfl, rfl⟩,
        Layout.ofNode_related hforms w.rules.agrees_refl false (Draft.renamed_column name)⟩
    · have hother : ∀ k name family, e ≠ .column k name family :=
        fun k name family he => hcolumn ⟨k, name, family, he⟩
      have hfaults : Rules.FaultsRelated (fun s s' => Draft.Renamed w f s.draft s'.draft)
          w.rules w.rules e (e.renamed f) :=
        ⟨Draft.renamed_fault (.inr ⟨_, _, _, rfl, rfl⟩), fun _ => Draft.renamed_fault (.inl rfl)⟩
      have hconstant : ∀ c c' : Constant, c = c' → c.value.isNull = c'.value.isNull ∧
          Draft.Renamed w f (Sql.constant p c).draft (Sql.constant p c').draft := by
        rintro c _ rfl
        exact ⟨rfl, Draft.renamed_constant p c⟩
      refine layout_node_related hforms w.rules.agrees_refl hfaults (sameHead_renamed hother)
        hconstant (fun k name family he => absurd he (hother k name family))
        (fun q _ => hforms.propertyRelated q) fun i c c' hc => ?_
      obtain rfl := eq_renamed_of_opposite hc
      obtain ⟨hsimilar, hrelated⟩ := ih c (List.mem_of_getElem? hc.1) (p.child i)
      exact ⟨hsimilar, hrelated.mono (fun _ => trivial) (fun _ => trivial)⟩

end Expr

namespace Renderer

/-- **A resolver renames columns and does nothing else.** What a tree is rendered to with a resolver
    is what the tree with the resolved names is rendered to without one: the same text and the same
    parameters. If one of them cannot be rendered, neither can the other, for the same cause. -/
theorem query_renamed (r : Renderer) (mode : Mode) (f : String → String) (e : Expr) :
    let resolved := { r with resolver := some f }.settings mode
    let plain := { r with resolver := none }.settings mode
    (∃ q, resolved.query e = .ok q ∧ plain.query (e.renamed f) = .ok q) ∨
    (∃ err err', resolved.query e = .error err ∧ plain.query (e.renamed f) = .error err' ∧
      err.SameCause err') := by
  intro resolved plain
  have hpredicate := (e.layout_renamed plain f (.root 0)).2.predicate
  rcases (hpredicate .initial .initial rfl).done_or_failed with
    ⟨s, _, hs, hs', rfl⟩ | ⟨s, s', err, err', hs, hs', -, herr⟩
  · exact .inl ⟨_, Settings.query_of_write hs, Settings.query_of_write hs'⟩
  · exact .inr ⟨err, err', Settings.query_of_write_error hs,
      Settings.query_of_write_error hs', herr⟩

example :
    let tree := Build.binary .equal (Build.unary .negate (Build.column "n" .integer))
      (Build.member .string "Length" (Build.column "0" .string))
    let names (name : String) := "-" ++ name ++ "\x7b0\x7d"
    { of .generic with resolver := some names }.inline tree =
        .ok "(-(-n\x7b0\x7d) = CHAR_LENGTH(-0\x7b0\x7d))" ∧
      (of .generic).inline (tree.renamed names) =
        .ok "(-(-n\x7b0\x7d) = CHAR_LENGTH(-0\x7b0\x7d))" := by
  decide +kernel

end Renderer

end WhereClause
