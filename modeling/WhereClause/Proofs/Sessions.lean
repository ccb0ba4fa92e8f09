import WhereClause.Proofs.Supported

namespace WhereClause

/-!
# Trees written one after another

A state can take any number of trees, and it goes on from what was written before also if some of
them fail. It only grows; and it comes back to its level, unless a tree is nested too deeply, which
costs every later tree one level.

* `Draft.write_extends` — what one writing does to a state;
* `Draft.write_lifted` — levels that are counted already act as a lower limit;
* `Visit`, `Visit.run` — trees written as conditions or as values, in any order;
* `Renderer.run_visit` — states between visits, and the visit after them.
-/

/-! ### Outcomes -/

/-- The error says that a tree is nested more deeply than the limit. -/
def Error.isNesting : Error → Bool
  | malformed (.nesting _) => true
  | _ => false

/-- A state with some more levels entered. -/
def State.lifted (s : State) (k : Nat) : State := { s with depth := s.depth + k }

/-- Settings with a lower limit. -/
def Settings.lowered (w : Settings) (k : Nat) : Settings := { w with maxDepth := w.maxDepth - k }

/-- The names of the parameters are those of the numbers given out so far, in order. -/
def Register.Numbered (r : Register) : Prop :=
  r.parameters.map Parameter.name = (List.range r.next).map Bindings.nameOf

namespace Outcome

/-- The writing stopped at the limit of nesting. -/
def exceeds (o : Outcome) : Bool := o.error?.any Error.isNesting

/-- What a writing leaves of the state it began with: text and parameters are only added to, and the
    level is the same again, except that one above the limit stays counted. -/
structure Extends (s : State) (o : Outcome) : Prop where
  text : s.text.toList <+: o.state.text.toList
  bindings : s.bindings ≤ o.state.bindings
  numbered : s.bindings.Numbered → o.state.bindings.Numbered
  depth : o.state.depth = s.depth + o.exceeds.toNat

/-- Putting a text adds to the state and touches nothing else. -/
theorem extends_done_put (s : State) (t : String) : Extends s (done (s.put t)) where
  text := by simp [done, State.put]
  bindings := Bindings.le_refl _
  numbered := id
  depth := rfl

/-- Nothing happened but an error. -/
theorem extends_failed (s : State) {err : Error} (herr : err.isNesting = false) :
    Extends s (failed s err) where
  text := List.prefix_rfl
  bindings := Bindings.le_refl _
  numbered := id
  depth := by simp [failed, exceeds, herr]

/-- Two outcomes that differ by a number of levels, and in the limit if it was exceeded. -/
structure Lifted (k : Nat) (o o' : Outcome) : Prop where
  state : o'.state = o.state.lifted k
  error : Option.Rel (fun a b => a = b ∨ (a.isNesting ∧ b.isNesting)) o.error? o'.error?

/-- Outcomes that differ by levels fail together. -/
theorem Lifted.error?_eq_none_iff {k : Nat} {o o' : Outcome} (h : Lifted k o o') :
    o'.error? = none ↔ o.error? = none := by
  obtain ⟨-, herror⟩ := h
  generalize o.error? = err at herror
  generalize o'.error? = err' at herror
  cases herror <;> simp

end Outcome

/-! ### One writing -/

namespace Register.Numbered

variable {r : Register}

/-- A parameter that is named by the next number keeps the order of the names. -/
theorem push (h : r.Numbered) (place : Position) {p : Parameter}
    (hp : p.name = Bindings.nameOf r.next) : (r.push place p).Numbered := by
  simpa [Numbered, Register.push, List.range_succ, hp] using h

/-- As many numbers were given out as there are parameters. -/
theorem next_eq (h : r.Numbered) : r.next = r.parameters.length := by
  simpa using (congrArg List.length h).symm

/-- Every parameter has its number in its name. -/
theorem name_eq (h : r.Numbered) {i : Nat} {p : Parameter} (hp : r.parameters[i]? = some p) :
    p.name = Bindings.nameOf i := by
  have hname := congrArg (·[i]?) h
  simp only [List.getElem?_map, hp, Option.map_some] at hname
  obtain ⟨j, hj, hname⟩ := Option.map_eq_some_iff.mp hname.symm
  rw [← hname]
  congr 1
  simpa using (List.getElem?_eq_some_iff.mp hj).2.symm

end Register.Numbered

/-- Binding a place keeps the order of the names. -/
theorem Bindings.numbered_bind {b : Bindings} (h : b.Numbered) (mark : String) (types : TypeSystem)
    (place : Position) (c : Constant) : (b.bind mark types place c).2.Numbered := by
  rcases b.bind_cases mark types place c with ⟨_, -, hb⟩ | ⟨-, -, hb⟩ | ⟨_, -, -, hb⟩
  · rwa [hb]
  · rwa [hb]
  · rw [hb]
    exact h.push place rfl

namespace Draft

variable {w : Settings} {d : Draft}

/-- Writing a constant adds a literal or a parameter, or fails with the parameters that were there.
    -/
theorem writeConstant_extends (place : Position) (c : Constant) (s : State) :
    (writeConstant w place c s).Extends s := by
  unfold writeConstant
  split
  · split
    · next t b hb =>
      have hput := Outcome.extends_done_put s t
      have hle := s.bindings.le_bind w.rules.paramMark w.rules.types place c
      have hnumbered := fun h : s.bindings.Numbered =>
        Bindings.numbered_bind h w.rules.paramMark w.rules.types place c
      rw [hb] at hle hnumbered
      exact ⟨hput.text, hle, hnumbered, hput.depth⟩
    · next err b hb =>
      -- A request that fails leaves the bindings as they are.
      obtain ⟨rfl, -, rfl⟩ := Bindings.resolve?_of_bind_error hb
      exact Outcome.extends_failed s rfl
  · split
    · exact Outcome.extends_done_put s _
    · exact Outcome.extends_failed s rfl

/-- **What a writing does.** If no fault of a draft speaks of nesting, then writing the draft only
    adds to a state, and keeps its level unless a level is above the limit. -/
theorem write_extends (hfaults : ∀ err ∈ d.faults, err.isNesting = false) (s : State) :
    (d.write w s).Extends s := by
  induction d generalizing s with
  | empty => exact ⟨List.prefix_rfl, Bindings.le_refl _, id, rfl⟩
  | text t => exact Outcome.extends_done_put s t
  | column name => exact Outcome.extends_done_put s (w.resolve name)
  | constant place c => exact writeConstant_extends place c s
  | append first second ih₁ ih₂ =>
    have h₁ := ih₁ (fun err he => hfaults err (List.mem_append_left _ he)) s
    have h₂ := ih₂ (fun err he => hfaults err (List.mem_append_right _ he))
    simp only [write]
    generalize first.write w s = o at h₁ ⊢
    rcases o with ⟨s₁, _ | err⟩
    · -- The second part goes on where the first one ended.
      have hdepth : s₁.depth = s.depth := h₁.depth
      have h₂ := h₂ s₁
      exact ⟨h₁.text.trans h₂.text, Bindings.le_trans h₁.bindings h₂.bindings,
        fun h => h₂.numbered (h₁.numbered h), by rw [← hdepth, h₂.depth]⟩
    · exact h₁
  | operand d ih =>
    have h := ih hfaults { s with text := "" }
    simp only [write]
    generalize d.write w { s with text := "" } = o at h ⊢
    rcases o with ⟨s₁, _ | err⟩
    · exact ⟨by simp [Outcome.done], h.bindings, h.numbered, h.depth⟩
    · exact ⟨List.prefix_rfl, h.bindings, h.numbered, h.depth⟩
  | level d ih =>
    have h := ih hfaults { s with depth := s.depth + 1 }
    simp only [write]
    split
    · exact ⟨List.prefix_rfl, Bindings.le_refl _, id, rfl⟩
    · have hdepth := h.depth
      refine ⟨h.text, h.bindings, h.numbered, ?_⟩
      rw [hdepth]
      simp only [Outcome.exceeds]
      omega
  | fault err => exact Outcome.extends_failed s (hfaults err (List.mem_singleton.mpr rfl))

/-- A constant is written in the same way on every level. -/
theorem writeConstant_lifted (place : Position) (c : Constant) (s : State) (k : Nat) :
    (writeConstant (w.lowered k) place c s).Lifted k (writeConstant w place c (s.lifted k)) := by
  simp only [writeConstant, Settings.lowered, State.lifted]
  by_cases hbinds : w.mode.binds c.value
  · simp only [hbinds, ↓reduceIte]
    rcases s.bindings.bind w.rules.paramMark w.rules.types place c with ⟨_ | _, b⟩
    · exact ⟨rfl, .some (.inl rfl)⟩
    · exact ⟨rfl, .none⟩
  · simp only [hbinds, Bool.false_eq_true, ↓reduceIte]
    cases w.rules.literal c.value with
    | some t => exact ⟨rfl, .none⟩
    | none => exact ⟨rfl, .some (.inl rfl)⟩

/-- **Levels and limits.** To begin with some levels counted is the same as to begin with none under
    a limit that is lower by as many. -/
theorem write_lifted (hfaults : ∀ err ∈ d.faults, err.isNesting = false) (s : State) (k : Nat) :
    (d.write (w.lowered k) s).Lifted k (d.write w (s.lifted k)) := by
  induction d generalizing s with
  | empty | text | column => exact ⟨rfl, .none⟩
  | constant place c => exact writeConstant_lifted place c s k
  | append first second ih₁ ih₂ =>
    have h₁ := ih₁ (fun err he => hfaults err (List.mem_append_left _ he)) s
    have h₂ := ih₂ (fun err he => hfaults err (List.mem_append_right _ he))
    simp only [write]
    generalize first.write (w.lowered k) s = o at h₁ ⊢
    generalize first.write w (s.lifted k) = o' at h₁ ⊢
    obtain ⟨s₁, err⟩ := o
    obtain ⟨s₁', err'⟩ := o'
    obtain ⟨rfl, herror⟩ := h₁
    cases herror with
    | none => exact h₂ s₁
    | some h => exact ⟨rfl, .some h⟩
  | operand d ih =>
    have h : Outcome.Lifted k (d.write (w.lowered k) { s with text := "" })
      (d.write w { s.lifted k with text := "" }) := ih hfaults { s with text := "" }
    simp only [write]
    generalize d.write (w.lowered k) { s with text := "" } = o at h ⊢
    generalize d.write w { s.lifted k with text := "" } = o' at h ⊢
    obtain ⟨s₁, err⟩ := o
    obtain ⟨s₁', err'⟩ := o'
    obtain ⟨rfl, herror⟩ := h
    cases herror with
    | none => exact ⟨rfl, .none⟩
    | some h => exact ⟨rfl, .some h⟩
  | level d ih =>
    have hiff : (w.lowered k).maxDepth < s.depth + 1 ↔ w.maxDepth < (s.lifted k).depth + 1 := by
      simp only [Settings.lowered, State.lifted]
      omega
    have hentered : { s.lifted k with depth := (s.lifted k).depth + 1 } =
        State.lifted { s with depth := s.depth + 1 } k := by
      simp only [State.lifted, Nat.add_right_comm]
    simp only [write, hiff, hentered]
    split
    · exact ⟨rfl, .some (.inr ⟨rfl, rfl⟩)⟩
    · -- The level that was entered is still counted when it is left.
      have hdepth := (write_extends (w := w.lowered k) (d := d) hfaults
        { s with depth := s.depth + 1 }).depth
      have h := ih hfaults { s with depth := s.depth + 1 }
      generalize d.write (w.lowered k) { s with depth := s.depth + 1 } = o at h hdepth ⊢
      generalize d.write w (State.lifted { s with depth := s.depth + 1 } k) = o' at h ⊢
      obtain ⟨s₁, err⟩ := o
      obtain ⟨s₁', err'⟩ := o'
      obtain ⟨rfl, herror⟩ := h
      have hpos : 1 ≤ s₁.depth := by
        simp only at hdepth
        omega
      refine ⟨?_, herror⟩
      simp only [State.lifted, Nat.sub_add_comm hpos]
  | fault err => exact ⟨rfl, .some (.inl rfl)⟩

end Draft

/-! ### Visits -/

/-- The fault of a node never speaks of nesting. -/
theorem Expr.isNesting_of_fault? {d : Rules} {n : Expr} {err : Error}
    (h : n.fault? d = some err) : err.isNesting = false := by
  have hcall : ∀ {e : Expr} {family : Family} {name : String} {hasReceiver onArray : Bool}
      {args : Nat}, callFault? d e family name hasReceiver onArray args = some err →
      err.isNesting = false := by
    intro e family name hasReceiver onArray args h
    unfold callFault? at h
    grind [Error.isNesting]
  cases n with
  | constant | column | binary | conditional => exact absurd h (by simp [fault?])
  | call | callStatic => exact hcall h
  | member | unary | construct | array =>
    simp only [fault?] at h
    grind [Error.isNesting]

/-- A tree that is to be written in one of two roles, with its place among all trees. -/
inductive Visit where
  | predicate (place : Position) (tree : Expr)
  | value (place : Position) (tree : Expr)

namespace Visit

/-- The draft of the tree in its role. -/
def draft (d : Rules) : Visit → Draft
  | predicate place tree => (tree.predicate d place).draft
  | value place tree => (tree.value d place).draft

/-- The tree written after what a state holds. -/
def write (w : Settings) : Visit → State → Outcome
  | predicate place tree, s => s.writePredicate w place tree
  | value place tree, s => s.writeValue w place tree

/-- A visit writes its draft. -/
theorem write_eq (w : Settings) (v : Visit) (s : State) :
    v.write w s = (v.draft w.rules).write w s := by
  cases v <;> rfl

/-- The outcomes of visits one after another, each from the state that the one before left. -/
def outcomes (w : Settings) : List Visit → State → List Outcome
  | [], _ => []
  | v :: vs, s => v.write w s :: outcomes w vs (v.write w s).state

/-- The state after visits one after another. -/
def run (w : Settings) (vs : List Visit) (s : State) : State :=
  vs.foldl (fun s v => (v.write w s).state) s

variable {d : Dialect} {w : Settings}

/-- The draft of a tree has no fault that speaks of nesting. -/
theorem isNesting_of_mem_faults (hw : w.rules = d.rules) (v : Visit) :
    ∀ err ∈ (v.draft w.rules).faults, err.isNesting = false := by
  intro err herr
  rw [hw] at herr
  cases v with
  | predicate place tree =>
    obtain ⟨n, -, hn⟩ := (tree.layout_explained d.sound d.complete place).predicate.cause _
      (List.mem_singleton.mpr rfl) err herr
    exact Expr.isNesting_of_fault? hn
  | value place tree =>
    obtain ⟨n, -, hn⟩ := (tree.layout_explained d.sound d.complete place).value.cause _
      (List.mem_singleton.mpr rfl) err herr
    exact Expr.isNesting_of_fault? hn

/-- One visit only adds to a state. -/
theorem write_extends (hw : w.rules = d.rules) (v : Visit) (s : State) :
    (v.write w s).Extends s := by
  rw [write_eq]
  exact Draft.write_extends (v.isNesting_of_mem_faults hw) s

/-- **Runs.** Visits number parameters, and a run counts one level for each visit that is nested too
    deeply. -/
theorem run_extends (hw : w.rules = d.rules) (vs : List Visit) {s : State}
    (hs : s.bindings.Numbered) :
    (run w vs s).bindings.Numbered ∧
      (run w vs s).depth = s.depth + (outcomes w vs s).countP Outcome.exceeds := by
  induction vs generalizing s with
  | nil => exact ⟨hs, rfl⟩
  | cons v vs ih =>
    have h := v.write_extends hw s
    obtain ⟨hnumbered, hdepth⟩ := ih (h.numbered hs)
    refine ⟨hnumbered, ?_⟩
    rw [outcomes, List.countP_cons, run, List.foldl_cons]
    rw [run] at hdepth
    rw [hdepth, h.depth, Nat.add_assoc]
    -- A visit that exceeds the limit is the only one that leaves the depth one higher.
    cases (v.write w s).exceeds <;> simp [Nat.add_comm]

/-- A visit after `k` levels have been counted is like one at level zero with a lower limit. -/
theorem write_lifted (hw : w.rules = d.rules) (v : Visit) (s : State) :
    (v.write (w.lowered s.depth) { s with depth := 0 }).Lifted s.depth (v.write w s) := by
  have hlifted := Draft.write_lifted (w := w) (v.isNesting_of_mem_faults hw) { s with depth := 0 }
    s.depth
  have hs : State.lifted { s with depth := 0 } s.depth = s := by
    simp only [State.lifted, Nat.zero_add]
  rw [write_eq, write_eq]
  rwa [hs] at hlifted

end Visit

namespace Renderer

/-- **Sessions.** After any visits, successful or not, one more visit only adds to the text and to
    the parameters, which are numbered in order. The level is the number of visits so far that were
    nested too deeply; all others leave it as it was. So the visit succeeds or fails, and adds the
    same text and parameters, as it would at level zero under a limit lower by that number. -/
theorem run_visit (r : Renderer) (mode : Mode) (vs : List Visit) (v : Visit) :
    let w := r.settings mode
    let s := Visit.run w vs .initial
    let k := (Visit.outcomes w vs .initial).countP Outcome.exceeds
    let o := v.write w s
    let o' := v.write { w with maxDepth := w.maxDepth - k } { s with depth := 0 }
    s.text.toList <+: o.state.text.toList ∧
    s.bindings.parameters <+: o.state.bindings.parameters ∧
    (∀ (i : Nat) (p : Parameter), o.state.bindings.parameters[i]? = some p →
      p.name = "p" ++ i.repr) ∧
    o.state.bindings.next = o.state.bindings.parameters.length ∧
    s.depth = k ∧ o.state.depth = (if o.exceeds then k + 1 else k) ∧
    (o.error? = none ↔ o'.error? = none) ∧ o.state.text = o'.state.text ∧
    o.state.bindings = o'.state.bindings := by
  intro w s k o o'
  have hw : w.rules = r.dialect.rules := rfl
  obtain ⟨hnumbered, hrun⟩ := Visit.run_extends hw vs (s := .initial) rfl
  have hdepth : s.depth = k := hrun.trans (Nat.zero_add k)
  have hextends : o.Extends s := v.write_extends hw s
  -- The depth left behind only lowers the limit: the visit is the one from depth zero, lifted.
  have hlifted : o'.Lifted k o := by
    have h := v.write_lifted hw s
    rwa [hdepth] at h
  refine ⟨hextends.text, hextends.bindings.1, fun i p => ?_, ?_, hdepth, ?_, ?_, ?_, ?_⟩
  · exact (hextends.numbered hnumbered).name_eq
  · exact (hextends.numbered hnumbered).next_eq
  · rw [hextends.depth, hdepth]
    cases o.exceeds <;> rfl
  · exact hlifted.error?_eq_none_iff
  · rw [hlifted.state]
    rfl
  · rw [hlifted.state]
    rfl

end Renderer

end WhereClause
