import Mathlib.Logic.Relation
import WhereClause.Expr.Build
import WhereClause.Proofs.Sessions

namespace WhereClause

/-!
# Writing a node again

Some templates mention an operand several times, and trees can be written into one state again and
again. Whatever happens after a node has been written, its constants keep their parameters. So the
node can be written at any later moment on the same level: this binds nothing, and adds the text
that it added before unless a hyphen in front of it makes the difference.

* `State.Step`, `State.Later` — what can happen to a state, step by step;
* `Draft.later_write`, `Visit.later_run` — writings and whole sessions are made of such steps;
* `Written.again` — a draft that was written to its end can be written again;
* `Renderer.visit_again` — the same for a node in either of its roles.
-/

/-! ### Later states -/

namespace State

/-- What the writer does to its state from one moment to the next. The text is added to, set aside
    while an operand is written, and taken up again; a place is bound; a level is entered or
    left. -/
inductive Step (w : Settings) : State → State → Prop
  | text (s : State) (t : String) : Step w s { s with text := t }
  | bound (s : State) (place : Position) (c : Constant) :
      Step w s { s with bindings := (s.bindings.bind w.rules.paramMark w.rules.types place c).2 }
  | depth (s : State) (n : Nat) : Step w s { s with depth := n }

/-- A state that the writer can come to from another one. -/
def Later (w : Settings) : State → State → Prop := Relation.ReflTransGen (Step w)

variable {w : Settings} {s t : State}

/-- One step takes no parameter away. -/
theorem Step.bindings_le (h : Step w s t) : s.bindings ≤ t.bindings := by
  cases h with
  | text => exact Bindings.le_refl _
  | bound => exact Bindings.le_bind ..
  | depth => exact Bindings.le_refl _

/-- All parameters are still there later. -/
theorem Later.bindings_le (h : Later w s t) : s.bindings ≤ t.bindings := by
  induction h with
  | refl => exact Bindings.le_refl _
  | tail _ hstep ih => exact Bindings.le_trans ih hstep.bindings_le

/-- Text added twice is text added once. -/
theorem put_put (s : State) (t t' : String) : (s.put t).put t' = s.put (t ++ t') := by
  simp only [put, String.append_assoc]

end State

namespace Draft

variable {w : Settings}

theorem later_writeConstant (place : Position) (c : Constant) (s : State) :
    State.Later w s (writeConstant w place c s).state := by
  unfold writeConstant
  split
  · split
    · next t b hb =>
      have hbound := Relation.ReflTransGen.single (State.Step.bound (w := w) s place c)
      rw [hb] at hbound
      exact hbound.tail (.text _ _)
    · next err b hb =>
      have hbound := Relation.ReflTransGen.single (State.Step.bound (w := w) s place c)
      rwa [hb] at hbound
  · split
    · exact .single (.text _ _)
    · exact .refl

/-- **Writings go step by step.** What a writing leaves behind, complete or not, is a later
    state. -/
theorem later_write (d : Draft) (s : State) : State.Later w s (d.write w s).state := by
  induction d generalizing s with
  | empty | fault => exact .refl
  | text | column => exact .single (.text _ _)
  | constant place c => exact later_writeConstant place c s
  | append first second ih₁ ih₂ =>
    have hfirst := ih₁ s
    rw [write]
    rcases ho : first.write w s with ⟨s₁, _ | err⟩
    · rw [ho] at hfirst
      exact hfirst.trans (ih₂ s₁)
    · rw [ho] at hfirst
      exact hfirst
  | operand d ih =>
    -- The text is set aside and taken up again, with the operand or without it.
    have hinner := (Relation.ReflTransGen.single (.text s "")).trans (ih { s with text := "" })
    rw [write]
    rcases ho : d.write w { s with text := "" } with ⟨s₁, _ | err⟩
    · rw [ho] at hinner
      exact hinner.tail (.text _ _)
    · rw [ho] at hinner
      exact hinner.tail (.text _ _)
  | level d ih =>
    have hentered : State.Later w s { s with depth := s.depth + 1 } := .single (.depth _ _)
    rw [write]
    split
    · exact hentered
    · exact (hentered.trans (ih { s with depth := s.depth + 1 })).tail (.depth _ _)

end Draft

/-- After any visits the state is a later one. -/
theorem Visit.later_run (w : Settings) (vs : List Visit) (s : State) :
    State.Later w s (run w vs s) := by
  induction vs generalizing s with
  | nil => exact .refl
  | cons v vs ih =>
    have hvisit : State.Later w s (v.write w s).state := by
      rw [write_eq]
      exact Draft.later_write _ s
    exact hvisit.trans (ih _)

/-! ### The same draft -/

namespace Bindings

/-- A place that has been bound gets its parameter again, whatever it is asked for. -/
theorem bind_of_le {mark : String} {types : TypeSystem} {b b' b'' : Bindings} {place : Position}
    {c : Constant} {t : String} (hb : b.bind mark types place c = (.ok t, b')) (hle : b' ≤ b'') :
    b''.bind mark types place c = (.ok t, b'') := by
  obtain ⟨p, hp, rfl⟩ := exists_find?_of_bind hb
  exact bind_of_find? (find?_of_le hle hp)

end Bindings

namespace Written

variable {w : Settings} {d : Draft} {s s' t : State}

/-- **Once more.** A draft that was written to its end can be written again on the same level once
    its parameters are known, and then nothing but text is added. -/
theorem again (h : Written w d s s') (hle : s'.bindings ≤ t.bindings) (hdepth : t.depth = s.depth) :
    ∃ more, Written w d t (t.put more) := by
  induction h generalizing t with
  | empty => exact ⟨"", by simpa [State.put] using Written.empty⟩
  | text => exact ⟨_, .text⟩
  | column => exact ⟨_, .column⟩
  | bound hbinds hb => exact ⟨_, .bound hbinds (Bindings.bind_of_le hb hle)⟩
  | literal hbinds ht => exact ⟨_, .literal hbinds ht⟩
  | append h₁ h₂ ih₁ ih₂ =>
    obtain ⟨more₁, hmore₁⟩ := ih₁ (Bindings.le_trans h₂.bindings_le hle) hdepth
    -- The second part starts on the level at which the first one did.
    obtain ⟨more₂, hmore₂⟩ := @ih₂ (t.put more₁) hle (hdepth.trans h₁.depth_eq.symm)
    refine ⟨more₁ ++ more₂, ?_⟩
    rw [← State.put_put]
    exact hmore₁.append hmore₂
  | operand _ ih =>
    obtain ⟨more, hmore⟩ := @ih { t with text := "" } hle hdepth
    exact ⟨_, hmore.operand⟩
  | level hlimit _ ih =>
    obtain ⟨more, hmore⟩ := @ih { t with depth := t.depth + 1 } hle (by simp only [hdepth])
    exact ⟨more, hmore.level (by omega)⟩

/-- The text that is added is the same if both texts before it end in a hyphen or neither does. -/
theorem text_again (h : Written w d s s') (hle : s'.bindings ≤ t.bindings) {more : String}
    (hmore : Written w d t (t.put more))
    (hhyphen : s.text.endsWith '-' = t.text.endsWith '-') : s'.text = s.text ++ more := by
  have hfirst := h.text_eq hle
  have hsecond : t.text ++ more = t.text ++ _ := hmore.text_eq (Bindings.le_refl t.bindings)
  -- Both are spelled with the parameters that are known in the end.
  rw [← hhyphen] at hsecond
  rw [hfirst, (String.append_right_inj t.text).mp hsecond]

end Written

namespace Renderer

/-- **A node is repeated exactly.** If a node was written in one of its roles, it can be written
    again in that role at any later moment on the same level. Parameters and level stay as they are,
    and the text that is added is the one that was added before, provided that both texts before it
    end in a hyphen or neither does. -/
theorem visit_again (r : Renderer) (mode : Mode) (v : Visit) {s s' t : State}
    (hfirst : v.write (r.settings mode) s = .done s') (hlater : State.Later (r.settings mode) s' t)
    (hdepth : t.depth = s.depth) :
    ∃ more, v.write (r.settings mode) t = .done (t.put more) ∧
      (s.text.endsWith '-' = t.text.endsWith '-' → s'.text = s.text ++ more) := by
  rw [Visit.write_eq] at hfirst ⊢
  have hwritten := written_of_write hfirst
  have hle := hlater.bindings_le
  obtain ⟨more, hmore⟩ := hwritten.again hle hdepth
  exact ⟨more, hmore.write_eq, fun hhyphen => hwritten.text_again hle hmore hhyphen⟩

/-- A comparison that mentions its operands twice is written, then a tree that cannot be, and then
    the comparison once more: it has the same parameter and the same text. -/
theorem visit_again_compare :
    let w := (of .oracle).settings (.parameterized .all)
    let comparison := Visit.value (.root 0)
      (Build.compareTo (Build.column "Name" .string) (Build.literal (.string "dr")))
    let refused := Visit.predicate (.root 1) (Build.binary .equal
      (Build.literal (.string "x")) (Build.unary .not (Build.column "Flags" .integer)))
    let s := (comparison.write w .initial).state
    let t := Visit.run w [refused] s
    comparison.write w .initial = .done s ∧ t.text = s.text ++ "(:p1 = " ∧
      t.bindings.parameters.map Parameter.name = ["p0", "p1"] ∧
      comparison.write w t = .done (t.put s.text) ∧
      s.text = "(case when Name = :p0 then 0 when Name < :p0 then -1 else 1 end)" := by
  intro w comparison refused s t
  have hruns : (comparison.write w .initial).error? = none ∧ t.depth = 0 ∧
      State.initial.text.endsWith '-' = t.text.endsWith '-' ∧
      t.text = s.text ++ "(:p1 = " ∧ t.bindings.parameters.map Parameter.name = ["p0", "p1"] ∧
      s.text = "(case when Name = :p0 then 0 when Name < :p0 then -1 else 1 end)" := by
    decide +kernel
  obtain ⟨herror, hdepth, hhyphen, htext, hnames, hsame⟩ := hruns
  have hfirst : comparison.write w .initial = .done s := by rw [Outcome.done, ← herror]
  obtain ⟨more, hmore, hagain⟩ :=
    visit_again (of .oracle) (.parameterized .all) comparison hfirst
      (Visit.later_run w [refused] s) hdepth
  obtain rfl : s.text = more := by simpa [State.initial] using hagain hhyphen
  exact ⟨hfirst, htext, hnames, hmore, hsame⟩

end Renderer

end WhereClause
