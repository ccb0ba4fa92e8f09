import WhereClause.Proofs.Framing
import WhereClause.Proofs.Sessions

namespace WhereClause

/-!
# Parts in place

Some parts of an expression are written in place, at the end of the text before them, and some are
captured: written apart, into a text of their own, which is then added. Only an operand looks at the
text it is added to, and only for a hyphen at its end. No part in place ever follows a hyphen, so it
makes no difference which of these parts are captured.

* `Draft.write_after` — a draft is written in the same way after any text that ends in no hyphen;
* `Draft.captured_endsAlike` — so there it can be captured as well;
* `Sql.Step`, `Sql.steps`, `Sql.write_steps` — an expression as a row of texts and parts;
* `Sql.StepWrites`, `Sql.RowWrites` — the writings in which any part in place may be captured;
* `Sql.indifferent_of_parts` — these end alike for an expression if they do for its parts;
* `Renderer.visit_in_place` — trees in both roles.
-/

/-! ### After other text -/

/-- A state with some text before its own. -/
def State.after (before : String) (s : State) : State := { s with text := before ++ s.text }

/-- An operand is guarded by what is before it only if that ends in a hyphen. -/
theorem guarded_append {before : String} (hbefore : before.endsWith '-' = false)
    (text operand : String) : guarded (before ++ text) operand = guarded text operand := by
  have hends : (before ++ text).endsWith '-' = text.endsWith '-' := by
    have halone := endsWith_append_hyphen "" text
    rw [String.empty_append, endsWith_empty_hyphen] at halone
    rw [endsWith_append_hyphen, hbefore, halone]
  simp only [guarded, hends]

/-- **After other text.** What is written does not depend on the text before it, unless that ends in
    a hyphen. -/
theorem Draft.write_after {w : Settings} {before : String}
    (hbefore : before.endsWith '-' = false) (d : Draft) (s : State) :
    d.write w (s.after before) = ⟨(d.write w s).state.after before, (d.write w s).error?⟩ := by
  induction d generalizing s with
  | empty => rfl
  | text t => simp [write, Outcome.done, State.put, State.after, String.append_assoc]
  | column name => simp [write, Outcome.done, State.put, State.after, String.append_assoc]
  | constant place c =>
    simp only [write, writeConstant, State.after]
    split
    · rcases s.bindings.bind w.rules.paramMark w.rules.types place c with ⟨_ | _, b⟩
      · rfl
      · simp [Outcome.done, State.put, String.append_assoc]
    · cases w.rules.literal c.value with
      | some t => simp [Outcome.done, State.put, String.append_assoc]
      | none => rfl
  | append first second ihFirst ihSecond =>
    simp only [write, ihFirst]
    obtain ⟨s', error?⟩ := first.write w s
    cases error? with
    | none => exact ihSecond s'
    | some err => rfl
  | operand d =>
    -- An operand is written apart, from the same state in both cases.
    have hapart : { s.after before with text := "" } = { s with text := "" } := rfl
    simp only [write, hapart]
    obtain ⟨s', error?⟩ := d.write w { s with text := "" }
    cases error? with
    | none =>
      simp only [Outcome.done, State.after, guarded_append hbefore, String.append_assoc]
    | some err => rfl
  | level d ih =>
    simp only [write]
    split
    · rename_i hlimit
      rw [if_pos (show w.maxDepth < s.depth + 1 from hlimit)]
      rfl
    · rename_i hlimit
      rw [if_neg (show ¬ w.maxDepth < s.depth + 1 from hlimit)]
      have hinner := ih { s with depth := s.depth + 1 }
      simp only [State.after] at hinner ⊢
      rw [hinner]
  | fault err => rfl

/-! ### Outcomes -/

namespace Outcome

/-- Two writings that end alike: both complete in one state, or both stopped by one error, with the
    same parameters and on the same level. The texts of stopped writings are not compared. -/
inductive EndsAlike : Outcome → Outcome → Prop
  | done (s : State) : EndsAlike (.done s) (.done s)
  | failed {text text' : String} {bindings : Bindings} {depth : Nat} (e : Error) :
      EndsAlike (.failed ⟨text, bindings, depth⟩ e) (.failed ⟨text', bindings, depth⟩ e)

/-- What is written next, if a writing is complete. -/
def andThen (o : Outcome) (next : State → Outcome) : Outcome :=
  match o.error? with
  | none => next o.state
  | some e => .failed o.state e

/-- What was written apart, added in some shape to the text before it, or dropped if it is not
    complete. -/
def added (before : String) (shape : String → String) (o : Outcome) : Outcome :=
  match o.error? with
  | none => .done { o.state with text := before ++ shape o.state.text }
  | some e => .failed { o.state with text := before } e

variable {o o' o'' : Outcome}

/-- Going on without doing anything changes nothing. -/
@[simp] theorem andThen_done (o : Outcome) : o.andThen done = o := by
  obtain ⟨s, _ | e⟩ := o <;> rfl

/-- It does not matter how steps in a row are grouped. -/
@[simp] theorem andThen_assoc (o : Outcome) (f g : State → Outcome) :
    (o.andThen f).andThen g = o.andThen fun s => (f s).andThen g := by
  obtain ⟨s, _ | e⟩ := o <;> rfl

namespace EndsAlike

/-- An outcome ends like itself. -/
theorem refl (o : Outcome) : o.EndsAlike o := by
  obtain ⟨s, _ | e⟩ := o
  · exact .done s
  · exact .failed e

/-- What ends alike with a third ends alike. -/
theorem trans (h : o.EndsAlike o') (h' : o'.EndsAlike o'') : o.EndsAlike o'' := by
  cases h with
  | done s => exact h'
  | failed e =>
    cases h' with
    | failed e => exact .failed e

/-- A complete writing ends like no other. -/
theorem eq_of_done {s : State} (h : EndsAlike (.done s) o) : o = .done s := by
  cases h
  rfl

/-- What would come next does not matter to a writing that stopped. -/
theorem andThen_of_failed {s : State} {e : Error} (h : EndsAlike (.failed s e) o)
    (next : State → Outcome) : EndsAlike (.failed s e) (o.andThen next) := by
  cases h
  exact .failed e

/-- Outcomes that end alike still do after what they wrote is put into a text. -/
theorem added (h : o.EndsAlike o') (before : String) (shape : String → String) :
    (o.added before shape).EndsAlike (o'.added before shape) := by
  cases h with
  | done s => exact .refl _
  | failed e => exact .failed e

/-- Outcomes that end alike still do at another depth. -/
theorem atDepth (h : o.EndsAlike o') (level : Nat → Nat) :
    EndsAlike ⟨{ o.state with depth := level o.state.depth }, o.error?⟩
      ⟨{ o'.state with depth := level o'.state.depth }, o'.error?⟩ := by
  cases h with
  | done s => exact .refl _
  | failed e => exact .failed e

end EndsAlike

end Outcome

namespace Draft

variable {w : Settings}

/-- Two drafts are written one after the other. -/
theorem write_append (a b : Draft) :
    (a ++ b).write w = fun s => (a.write w s).andThen (b.write w) := by
  funext s
  show (append a b).write w s = _
  rw [write]
  obtain ⟨s', _ | e⟩ := a.write w s <;> rfl

/-- An operand is written into an empty text, which is then put at the end. -/
theorem write_operand (d : Draft) (s : State) : (operand d).write w s =
    (d.write w { s with text := "" }).added s.text (guarded s.text) := by
  rw [write]
  obtain ⟨s', _ | e⟩ := d.write w { s with text := "" } <;> rfl

/-- **Capturing.** A draft that is captured after a text which ends in no hyphen is written as if it
    were in place. -/
theorem captured_endsAlike (d : Draft) {s : State} (hs : s.text.endsWith '-' = false) :
    ((d.write w { s with text := "" }).added s.text id).EndsAlike (d.write w s) := by
  have hafter := write_after (w := w) hs d { s with text := "" }
  rw [State.after, String.append_empty] at hafter
  rw [hafter]
  obtain ⟨s', _ | e⟩ := d.write w { s with text := "" }
  · exact .done _
  · exact .failed e

end Draft

/-- The text between the parts of a concatenation does not end in a hyphen. -/
theorem Rules.Sound.hyphenAfter_separator {d : Rules} (hd : d.Sound) {token : String}
    (h : d.concat = .infixed token) (before : Bool) : hyphenAfter before token = false := by
  have hsound := hd.concat
  rw [h] at hsound
  have hlast : some ' ' = token.toList.getLast? := (Status.admits_of_text (hsound 0)).last
  rw [hyphenAfter, ← hlast]
  rfl

/-! ### Expressions as rows -/

namespace Sql

/-- A step in writing an expression from left to right. -/
inductive Step where
  | text (t : String)
  /-- A column, a constant or a fault. -/
  | leaf (d : Draft)
  /-- A part that is written in place. -/
  | inPlace (x : Sql)
  /-- A part that is captured and added as an operand. -/
  | operand (x : Sql)
  /-- A part that is written in place, one level further down. -/
  | deeper (x : Sql)

namespace Step

/-- A step as a draft. -/
def draft : Step → Draft
  | text t => .text t
  | leaf d => d
  | inPlace x => x.draft
  | operand x => .operand x.draft
  | deeper x => .level x.draft

/-- The part that a step writes. -/
def part? : Step → Option Sql
  | text _ | leaf _ => none
  | inPlace x | operand x | deeper x => some x

/-- The step writes a part in place. -/
def isInPlace : Step → Bool
  | inPlace _ | deeper _ => true
  | _ => false

/-- Whether the text may end in a hyphen after a step, if it is known for what was before. -/
def mayEndInHyphen (before : Bool) : Step → Bool
  | text t => hyphenAfter before t
  | _ => true

end Step

/-- Parts in place, with a text between them. -/
def joinSteps (separator : String) : List Sql → List Step
  | [] => []
  | [x] => [.inPlace x]
  | x :: xs => .inPlace x :: .text separator :: joinSteps separator xs

/-- A piece of a template among its operands. -/
def pieceStep (t : Template) (operands : List Sql) : Piece → Step
  | .text s => .text s
  | .slot i =>
    match operands[i]? with
    | some x => .operand x
    | none => .leaf (.fault (.malformed (.operand t i operands.length)))

/-- Joined strings. -/
def concatSteps (style : ConcatStyle) (parts : List Sql) : List Step :=
  match parts with
  | [] => [.text "''"]
  | [x] => [.inPlace x]
  | xs =>
    match style with
    | .infixed token => .text "(" :: joinSteps token xs ++ [.text ")"]
    | .function name => .text name :: .text "(" :: joinSteps ", " xs ++ [.text ")"]

/-- Membership in a list. -/
def inListSteps (needle : Sql) (items : List Sql) : List Step :=
  match items with
  | [] => [.text "(1 = 0)"]
  | xs => .text "(" :: .inPlace needle :: .text " in (" :: joinSteps ", " xs ++ [.text "))"]

/-- The branches of a `case`. -/
def branchSteps (branches : List (Sql × Sql)) : List Step :=
  branches.flatMap fun b => [.text " when ", .inPlace b.1, .text " then ", .inPlace b.2]

/-- The steps in which an expression is written. -/
def steps : Sql → List Step
  | column name => [.leaf (.column name)]
  | constant place c => [.leaf (.constant place c)]
  | form t operands => t.map (pieceStep t operands)
  | prefixed token operand => [.text token, .operand operand]
  | infixed token left right =>
    [.text "(", .inPlace left, .text " ", .text token, .text " ", .inPlace right, .text ")"]
  | concat style parts => concatSteps style parts
  | coalesce parts => .text "COALESCE(" :: joinSteps ", " parts ++ [.text ")"]
  | inList needle items => inListSteps needle items
  | caseWhen branches otherwise =>
    .text "(case" :: branchSteps branches ++ [.text " else ", .inPlace otherwise, .text " end)"]
  | level x => [.deeper x]
  | fault e => [.leaf (.fault e)]

/-- The parts that are written in a row of steps. -/
def parts (k : List Step) : List Sql := k.filterMap Step.part?

/-- A row of steps as a draft. -/
def rowDraft (k : List Step) : Draft := k.foldr (fun a rest => a.draft ++ rest) .empty

variable {w : Settings}

/-- No steps do nothing. -/
@[simp] theorem write_rowDraft_nil : (rowDraft []).write w = .done := rfl

/-- Unfolding lemma: the first step is taken before the others. -/
@[simp] theorem write_rowDraft_cons (a : Step) (k : List Step) :
    (rowDraft (a :: k)).write w = fun s => (a.draft.write w s).andThen ((rowDraft k).write w) :=
  Draft.write_append _ _

/-- Two rows of steps are taken one after the other. -/
@[simp] theorem write_rowDraft_append (k l : List Step) : (rowDraft (k ++ l)).write w =
    fun s => ((rowDraft k).write w s).andThen ((rowDraft l).write w) := by
  induction k with
  | nil => rfl
  | cons a k ih => simp [ih]

/-- The step for a piece of a template writes that piece. -/
theorem draft_pieceStep (t : Template) (operands : List Sql) (piece : Piece) :
    (pieceStep t operands piece).draft = pieceDraft t (draftList operands) piece := by
  cases piece with
  | text s => rfl
  | slot i =>
    simp only [pieceStep, pieceDraft, draftList_eq_map, List.getElem?_map, List.length_map]
    cases operands[i]? <;> rfl

/-- The steps of a template make its draft. -/
theorem rowDraft_pieces (t : Template) (operands : List Sql) :
    rowDraft (t.map (pieceStep t operands)) = formDraft t (draftList operands) := by
  simp only [rowDraft, formDraft, List.foldr_map, draft_pieceStep]

/-- The steps of a list write the list. -/
theorem write_joinSteps (separator : String) (xs : List Sql) :
    (rowDraft (joinSteps separator xs)).write w =
      (Draft.join separator (draftList xs)).write w := by
  induction xs with
  | nil => rfl
  | cons x xs ih =>
    cases xs with
    | nil => simp [joinSteps, draftList, Draft.join, Step.draft]
    | cons y ys => simp [joinSteps, draftList, Draft.join, Step.draft, Draft.write_append, ih]

/-- The steps of a concatenation write it. -/
theorem write_concatSteps (style : ConcatStyle) (xs : List Sql) :
    (rowDraft (concatSteps style xs)).write w = (concatDraft style (draftList xs)).write w := by
  rcases xs with _ | ⟨x, _ | ⟨y, ys⟩⟩
  · simp [concatSteps, concatDraft, draftList, Step.draft]
  · simp [concatSteps, concatDraft, draftList, Step.draft]
  · have hjoin := fun separator => write_joinSteps (w := w) separator (x :: y :: ys)
    cases style with
    | infixed token =>
      simp [concatSteps, concatDraft, hjoin, draftList, Step.draft, Draft.write_append]
    | function name =>
      simp [concatSteps, concatDraft, hjoin, draftList, Step.draft, Draft.write_append]

/-- The steps of a search write it. -/
theorem write_inListSteps (needle : Sql) (items : List Sql) :
    (rowDraft (inListSteps needle items)).write w =
      (inListDraft needle.draft (draftList items)).write w := by
  cases items with
  | nil => simp [inListSteps, inListDraft, draftList, Step.draft]
  | cons x xs =>
    have hjoin := write_joinSteps (w := w) ", " (x :: xs)
    simp [inListSteps, inListDraft, hjoin, draftList, Step.draft, Draft.write_append]

/-- The steps of branches write them. -/
theorem write_branchSteps (branches : List (Sql × Sql)) :
    (rowDraft (branchSteps branches)).write w = (draftBranches branches).write w := by
  induction branches with
  | nil => rfl
  | cons b branches ih =>
    obtain ⟨test, value⟩ := b
    simp only [branchSteps, List.flatMap_cons] at ih ⊢
    simp [ih, draftBranches, Step.draft, Draft.write_append]

/-- **Steps.** An expression is written step by step. -/
theorem write_steps (x : Sql) : (rowDraft x.steps).write w = x.draft.write w := by
  cases x with
  | column | constant | level | fault => simp [steps, draft, Step.draft]
  | form t operands => rw [steps, rowDraft_pieces, draft]
  | prefixed | infixed => simp [steps, draft, Step.draft, Draft.write_append]
  | concat style parts => rw [steps, write_concatSteps, draft]
  | coalesce parts => simp [steps, draft, Step.draft, Draft.write_append, write_joinSteps]
  | inList needle items => rw [steps, write_inListSteps, draft]
  | caseWhen => simp [steps, draft, Step.draft, Draft.write_append, write_branchSteps]

/-- Unfolding lemma: the part of the first step, if it has one, and those of the others. -/
@[simp] theorem parts_cons (a : Step) (k : List Step) :
    parts (a :: k) = a.part?.toList ++ parts k := by
  rw [parts, List.filterMap_cons]
  cases a.part? <;> rfl

/-- No steps have no parts. -/
@[simp] theorem parts_nil : parts [] = [] := rfl

/-- What holds of all parts holds of the first and of the others. -/
theorem forall_parts_cons {P : Sql → Prop} {a : Step} {k : List Step} :
    (∀ x ∈ parts (a :: k), P x) ↔ (∀ x ∈ a.part?, P x) ∧ ∀ x ∈ parts k, P x := by
  simp [or_imp, forall_and]

/-- The parts of two rows are those of both. -/
@[simp] theorem parts_append (k l : List Step) : parts (k ++ l) = parts k ++ parts l :=
  List.filterMap_append

/-- The parts of a list are its items. -/
@[simp] theorem parts_joinSteps (separator : String) (xs : List Sql) :
    parts (joinSteps separator xs) = xs := by
  induction xs with
  | nil => rfl
  | cons x xs ih =>
    cases xs with
    | nil => rfl
    | cons y ys => exact congrArg (x :: ·) ih

/-- The parts of a concatenation are what it joins. -/
theorem parts_concatSteps (style : ConcatStyle) (xs : List Sql) :
    parts (concatSteps style xs) = xs := by
  rcases xs with _ | ⟨x, _ | ⟨y, ys⟩⟩
  · rfl
  · rfl
  · cases style <;> simp [concatSteps, Step.part?]

/-- The parts of branches are their tests and values. -/
@[simp] theorem parts_branchSteps (branches : List (Sql × Sql)) :
    parts (branchSteps branches) = branchParts branches := by
  induction branches with
  | nil => rfl
  | cons b branches ih => exact congrArg (b.1 :: b.2 :: ·) ih

/-! ### Writings with captures -/

mutual

/-- A step can be written from a state with this outcome. What stands in place is written there, or
    it is captured and then added as it is. -/
inductive StepWrites (w : Settings) : Step → State → Outcome → Prop
  | text {t : String} {s : State} : StepWrites w (.text t) s (.done (s.put t))
  | leaf {d : Draft} {s : State} : StepWrites w (.leaf d) s (d.write w s)
  | inPlace {x : Sql} {s : State} {o : Outcome} : RowWrites w x.steps s o →
      StepWrites w (.inPlace x) s o
  | captured {x : Sql} {s : State} {o : Outcome} : RowWrites w x.steps { s with text := "" } o →
      StepWrites w (.inPlace x) s (o.added s.text id)
  | operand {x : Sql} {s : State} {o : Outcome} : RowWrites w x.steps { s with text := "" } o →
      StepWrites w (.operand x) s (o.added s.text (guarded s.text))
  | tooDeep {x : Sql} {s : State} : w.maxDepth < s.depth + 1 →
      StepWrites w (.deeper x) s
        (.failed { s with depth := s.depth + 1 } (.malformed (.nesting w.maxDepth)))
  | deeper {x : Sql} {s : State} {o : Outcome} : ¬ w.maxDepth < s.depth + 1 →
      StepWrites w (.inPlace x) { s with depth := s.depth + 1 } o →
      StepWrites w (.deeper x) s ⟨{ o.state with depth := o.state.depth - 1 }, o.error?⟩

/-- Steps can be written one after another with this outcome. -/
inductive RowWrites (w : Settings) : List Step → State → Outcome → Prop
  | nil {s : State} : RowWrites w [] s (.done s)
  | cons {a : Step} {k : List Step} {s s' : State} {o : Outcome} :
      StepWrites w a s (.done s') → RowWrites w k s' o → RowWrites w (a :: k) s o
  | stop {a : Step} {k : List Step} {s s' : State} {e : Error} :
      StepWrites w a s (.failed s' e) → RowWrites w (a :: k) s (.failed s' e)

end

/-- It makes no difference which parts of an expression are captured: to write all of them in place
    is one way, and every other way ends alike if the text before ends in no hyphen. -/
structure Indifferent (w : Settings) (x : Sql) : Prop where
  inPlace : ∀ s, RowWrites w x.steps s (x.draft.write w s)
  endsAlike : ∀ {s o}, s.text.endsWith '-' = false → RowWrites w x.steps s o →
    o.EndsAlike (x.draft.write w s)

/-- No part in place can follow a hyphen in a row of steps, given whether the text before the row
    may end in one. -/
def isClear : Bool → List Step → Bool
  | _, [] => true
  | hyphen, a :: k => !(a.isInPlace && hyphen) && isClear (a.mayEndInHyphen hyphen) k

variable {a : Step} {k : List Step} {s : State} {o : Outcome}

/-- A step can be written without capturing anything. -/
theorem stepWrites_draft (hpart : ∀ x ∈ a.part?, Indifferent w x) (s : State) :
    StepWrites w a s (a.draft.write w s) := by
  cases a with
  | text t => exact .text
  | leaf d => exact .leaf
  | inPlace x => exact .inPlace ((hpart x rfl).inPlace s)
  | operand x =>
    rw [Step.draft, Draft.write_operand]
    exact .operand ((hpart x rfl).inPlace _)
  | deeper x =>
    rw [Step.draft, Draft.write]
    split
    · next hlimit => exact .tooDeep hlimit
    · next hlimit => exact .deeper hlimit (.inPlace ((hpart x rfl).inPlace _))

/-- **One step.** However a step is written, it ends like its draft. -/
theorem StepWrites.endsAlike (h : StepWrites w a s o) (hpart : ∀ x ∈ a.part?, Indifferent w x)
    (hs : a.isInPlace → s.text.endsWith '-' = false) : o.EndsAlike (a.draft.write w s) := by
  have hinPlace : ∀ {x s o}, StepWrites w (.inPlace x) s o → Indifferent w x →
      s.text.endsWith '-' = false → o.EndsAlike (x.draft.write w s) := by
    intro x s o h hx hs
    cases h with
    | inPlace h => exact hx.endsAlike hs h
    | captured h =>
      -- Apart there is no text before the part, so the part ends like its draft there.
      exact ((hx.endsAlike endsWith_empty_hyphen h).added s.text id).trans
        (x.draft.captured_endsAlike hs)
  cases a with
  | text t =>
    cases h
    exact .refl _
  | leaf d =>
    cases h
    exact .refl _
  | inPlace x => exact hinPlace h (hpart x rfl) (hs rfl)
  | operand x =>
    cases h with
    | operand h =>
      rw [Step.draft, Draft.write_operand]
      exact ((hpart x rfl).endsAlike endsWith_empty_hyphen h).added _ _
  | deeper x =>
    rw [Step.draft, Draft.write]
    cases h with
    | tooDeep hlimit =>
      rw [if_pos hlimit]
      exact .refl _
    | deeper hlimit h =>
      rw [if_neg hlimit]
      exact (hinPlace h (hpart x rfl) (hs rfl)).atDepth (· - 1)

/-- If the text may end in a hyphen only where this is said before a step, the same is true after
    it. -/
theorem endsWith_of_step {hyphen : Bool} {s' : State} (hs : s.text.endsWith '-' → hyphen)
    (h : StepWrites w a s (.done s')) : s'.text.endsWith '-' → a.mayEndInHyphen hyphen := by
  cases a with
  | text t =>
    generalize ho : Outcome.done s' = o at h
    cases h
    obtain rfl : s' = s.put t := congrArg Outcome.state ho
    rw [State.put, endsWith_append_hyphen, Step.mayEndInHyphen]
    unfold hyphenAfter
    split
    · exact hs
    · exact id
  | _ => exact fun _ => rfl

/-- A row of steps can be written without capturing anything. -/
theorem rowWrites_draft (hparts : ∀ x ∈ parts k, Indifferent w x) (s : State) :
    RowWrites w k s ((rowDraft k).write w s) := by
  induction k generalizing s with
  | nil => exact .nil
  | cons a k ih =>
    obtain ⟨hpart, hparts⟩ := forall_parts_cons.mp hparts
    have ha := stepWrites_draft hpart s
    simp only [write_rowDraft_cons]
    rcases hstep : a.draft.write w s with ⟨s', _ | e⟩
    · rw [hstep] at ha
      exact .cons ha (ih hparts s')
    · rw [hstep] at ha
      exact .stop ha

/-- **A row of steps.** However the steps of a row are written, they end like its draft. -/
theorem RowWrites.endsAlike {hyphen : Bool} (h : RowWrites w k s o)
    (hparts : ∀ x ∈ parts k, Indifferent w x) (hclear : isClear hyphen k)
    (hs : s.text.endsWith '-' → hyphen) : o.EndsAlike ((rowDraft k).write w s) := by
  -- The induction is on the row; what is known of a hyphen before it changes from step to step.
  induction k generalizing s hyphen with
  | nil =>
    cases h
    exact .refl _
  | cons a k ih =>
    obtain ⟨hpart, hparts⟩ := forall_parts_cons.mp hparts
    simp only [isClear, Bool.and_eq_true, Bool.not_eq_true', Bool.and_eq_false_iff] at hclear
    have hplace : a.isInPlace → s.text.endsWith '-' = false := by
      intro ha
      have hnone : hyphen = false := hclear.1.resolve_left (by simp [ha])
      simpa [hnone] using hs
    simp only [write_rowDraft_cons]
    cases h with
    | cons ha hk =>
      -- A complete step leaves the very state in which its draft ends.
      rw [(ha.endsAlike hpart hplace).eq_of_done]
      exact ih hk hparts hclear.2 (endsWith_of_step hs ha)
    | stop ha => exact (ha.endsAlike hpart hplace).andThen_of_failed _

/-- **One expression.** It makes no difference what is captured in an expression, if none of its
    parts in place can follow a hyphen and if it makes none in its parts. -/
theorem indifferent_of_parts {x : Sql} (hparts : ∀ y ∈ parts x.steps, Indifferent w y)
    (hclear : isClear false x.steps) : Indifferent w x where
  inPlace := fun s => by
    rw [← write_steps]
    exact rowWrites_draft hparts s
  endsAlike := fun {s o} hs h => by
    rw [← write_steps]
    exact h.endsAlike hparts hclear (by simp [hs])

/-! ### The forms of a dialect -/

/-- Where no part is in place, none follows a hyphen. -/
theorem isClear_of_apart (h : ∀ a ∈ k, a.isInPlace = false) (hyphen : Bool) :
    isClear hyphen k := by
  induction k generalizing hyphen with
  | nil => rfl
  | cons a k ih =>
    simp [isClear, h a List.mem_cons_self, ih fun b hb => h b (List.mem_cons_of_mem a hb)]

/-- A row of parts is clear if the text between them does not end in a hyphen. -/
theorem isClear_joinSteps {separator : String} (hs : hyphenAfter true separator = false)
    (hk : isClear true k) (x : Sql) (xs : List Sql) :
    isClear false (joinSteps separator (x :: xs) ++ k) := by
  induction xs generalizing x with
  | nil => simpa [joinSteps, isClear, Step.mayEndInHyphen] using hk
  | cons y ys ih =>
    simpa [joinSteps, isClear, Step.isInPlace, Step.mayEndInHyphen, hs] using ih y

/-- Branches are clear wherever they begin, and so is what follows their last value. -/
theorem isClear_branchSteps (branches : List (Sql × Sql)) (hyphen : Bool) (hk : isClear false k) :
    isClear hyphen (branchSteps branches ++ .text " else " :: k) := by
  induction branches generalizing hyphen with
  | nil => exact hk
  | cons b branches ih => exact ih true

/-- A template has no part in place, and its pieces write no part but its operands. -/
theorem indifferent_form (t : Template) {xs : List Sql} (h : ∀ x ∈ xs, Indifferent w x) :
    Indifferent w (.form t xs) := by
  -- Every slot of a form is captured apart from what stands before it, so the row is clear without
  -- a look at its texts.
  have hpiece : ∀ piece, (pieceStep t xs piece).isInPlace = false ∧
      ∀ x ∈ (pieceStep t xs piece).part?, x ∈ xs := by
    intro piece
    cases piece with
    | text s => simp [pieceStep, Step.isInPlace, Step.part?]
    | slot i =>
      rw [pieceStep]
      cases hi : xs[i]? with
      | none => simp [Step.isInPlace, Step.part?]
      | some x => simpa [Step.isInPlace, Step.part?] using List.mem_of_getElem? hi
  refine indifferent_of_parts ?_ (isClear_of_apart ?_ false)
  · intro x hx
    obtain ⟨a, ha, hax⟩ := List.mem_filterMap.mp hx
    obtain ⟨piece, -, rfl⟩ := List.mem_map.mp ha
    exact h x ((hpiece piece).2 x hax)
  · simp only [steps, List.forall_mem_map]
    exact fun piece _ => (hpiece piece).1

/-- A blank stands before the right operand, whatever the token ends in. -/
theorem indifferent_infixed (token : String) {l r : Sql} (hl : Indifferent w l)
    (hr : Indifferent w r) : Indifferent w (.infixed token l r) :=
  indifferent_of_parts (by simp [steps, Step.part?, hl, hr]) rfl

/-- A concatenation does not depend on where it is written, if its parts do not and its token ends
    in no hyphen. -/
theorem indifferent_concat {style : ConcatStyle}
    (hstyle : ∀ token, style = .infixed token → hyphenAfter true token = false) {xs : List Sql}
    (h : ∀ x ∈ xs, Indifferent w x) : Indifferent w (.concat style xs) := by
  refine indifferent_of_parts ?_ ?_
  · rwa [steps, parts_concatSteps]
  · rcases xs with _ | ⟨x, _ | ⟨y, ys⟩⟩
    · rfl
    · rfl
    · cases style with
      | infixed token => exact isClear_joinSteps (hstyle token rfl) rfl x (y :: ys)
      | function name => exact isClear_joinSteps rfl rfl x (y :: ys)

/-- Nor does a choice of the first value that is not null. -/
theorem indifferent_coalesce {xs : List Sql} (h : ∀ x ∈ xs, Indifferent w x) :
    Indifferent w (.coalesce xs) := by
  refine indifferent_of_parts (by simpa [steps, Step.part?] using h) ?_
  cases xs with
  | nil => rfl
  | cons x xs => exact isClear_joinSteps rfl rfl x xs

/-- Nor does a search in a list. -/
theorem indifferent_inList {needle : Sql} (hn : Indifferent w needle) {xs : List Sql}
    (h : ∀ x ∈ xs, Indifferent w x) : Indifferent w (.inList needle xs) := by
  cases xs with
  | nil => exact indifferent_of_parts (by simp [steps, inListSteps, Step.part?]) rfl
  | cons x xs =>
    refine indifferent_of_parts (by simpa [steps, inListSteps, Step.part?, hn] using h) ?_
    exact isClear_joinSteps rfl rfl x xs

/-- Nor do branches. -/
theorem indifferent_caseWhen {branches : List (Sql × Sql)}
    (h : ∀ b ∈ branches, Indifferent w b.1 ∧ Indifferent w b.2) {otherwise : Sql}
    (ho : Indifferent w otherwise) : Indifferent w (.caseWhen branches otherwise) := by
  refine indifferent_of_parts ?_ (isClear_branchSteps branches false rfl)
  have hbranches : ∀ x ∈ branchParts branches, Indifferent w x := by
    intro x hx
    obtain ⟨b, hb, hxb⟩ := List.mem_flatMap.mp hx
    rcases List.mem_pair.mp hxb with rfl | rfl
    · exact (h b hb).1
    · exact (h b hb).2
  simpa [steps, Step.part?, or_imp, forall_and, ho] using hbranches

/-- **Forms.** In every form of sound rules it makes no difference which parts are captured. -/
theorem indifferent_respects {d : Rules} (hd : d.Sound) :
    d.Respects (fun x _ => Indifferent w x) where
  form := fun _ h => indifferent_form _ (forall_mem_left h)
  prefixed := fun _ h => indifferent_of_parts (by simp [steps, Step.part?, h]) rfl
  infixed := fun _ hl hr => indifferent_infixed _ hl hr
  concat := fun h =>
    indifferent_concat (fun _ ht => hd.hyphenAfter_separator ht true) (forall_mem_left h)
  coalesce := fun h => indifferent_coalesce (forall_mem_left h)
  inList := fun hn h => indifferent_inList hn (forall_mem_left h)
  caseWhen := fun h ho => indifferent_caseWhen (forall_mem_left h) ho
  level := fun h => indifferent_of_parts (by simp [steps, Step.part?, h]) rfl
  fault := fun _ _ => indifferent_of_parts (by simp [steps, Step.part?]) rfl

end Sql

/-! ### Trees -/

namespace Visit

/-- The expression of the tree in its role. -/
def sql (d : Rules) : Visit → Sql
  | predicate place tree => tree.predicate d place
  | value place tree => tree.value d place

/-- The draft of a visit is that of its expression. -/
theorem draft_eq (d : Rules) (v : Visit) : v.draft d = (v.sql d).draft := by
  cases v <;> rfl

/-- It makes no difference which parts of a tree are captured. -/
theorem indifferent {w : Settings} (hw : w.rules.Sound) (v : Visit) :
    (v.sql w.rules).Indifferent w := by
  have hconstant : ∀ p c, (Sql.constant p c).Indifferent w := fun _ _ =>
    Sql.indifferent_of_parts (by simp [Sql.steps, Sql.Step.part?]) rfl
  have hcolumn : ∀ name, (Sql.column name).Indifferent w := fun _ =>
    Sql.indifferent_of_parts (by simp [Sql.steps, Sql.Step.part?]) rfl
  have hlayout := fun e p => Expr.layout_related (Sql.indifferent_respects (w := w) hw)
    (fun _ _ h => by rw [h]) (fun p c _ _ => hconstant p c) hcolumn
    (Expr.alike_refl (fun _ => rfl) e) p
  cases v with
  | predicate place tree => exact (hlayout tree place).predicate
  | value place tree => exact (hlayout tree place).value

end Visit

namespace Renderer

/-- **In place or captured.** After a text that ends in no hyphen a tree is written, in either role,
    as it is written alone: both writings are complete or both stop with the same error, with the
    same parameters and on the same level, and the text is the one before followed by the one that
    the tree has alone. So the tree may as well be captured. The same holds of every part that is
    written in place while the tree is written: to capture no part is one of the writings in which
    some may be captured, and all of these end alike. -/
theorem visit_in_place (r : Renderer) (mode : Mode) (v : Visit) {s : State}
    (hs : s.text.endsWith '-' = false) :
    let w := r.settings mode
    let alone := v.write w { s with text := "" }
    v.write w s = ⟨{ alone.state with text := s.text ++ alone.state.text }, alone.error?⟩ ∧
      Sql.RowWrites w (v.sql w.rules).steps s (v.write w s) ∧
      ∀ o, Sql.StepWrites w (.inPlace (v.sql w.rules)) s o → o.EndsAlike (v.write w s) := by
  intro w alone
  have hv := v.indifferent (w := w) r.dialect.sound
  simp only [alone, Visit.write_eq, Visit.draft_eq]
  refine ⟨?_, hv.inPlace s, fun o ho => ?_⟩
  -- The first part is the special case in which nothing has been written before.
  · have hafter := (v.sql w.rules).draft.write_after (w := w) hs { s with text := "" }
    rwa [State.after, String.append_empty] at hafter
  · exact ho.endsAlike (by simpa [Sql.Step.part?] using hv) fun _ => hs

/-- A sign that is written as nothing, before a negated number, in a comparison: what is written
    after a blank is what is written alone, and it may as well be captured. After a hyphen the
    number has parentheses, which it does not have alone. -/
theorem visit_in_place_plus :
    let w := (of .access).settings .inline
    let number := Build.unary .plus (Build.unary .negate (Build.column "b" .integer))
    let v := Visit.predicate (.root 0)
      (Build.binary .greaterThan (Build.column "a" .integer) number)
    let s : State := ⟨"(c = 1) and ", .empty, 2⟩
    let alone := v.write w { s with text := "" }
    s.text.endsWith '-' = false ∧ alone.error? = none ∧ alone.state.text = "(a > -b)" ∧
      (v.write w s).error? = none ∧ (v.write w s).state.text = "(c = 1) and (a > -b)" ∧
      (alone.added s.text id).EndsAlike (v.write w s) ∧
      ((Visit.value (.root 1) number).write w (s.put "-")).state.text = "(c = 1) and -(-b)" := by
  intro w number v s alone
  have hruns : s.text.endsWith '-' = false ∧ alone.error? = none ∧
      alone.state.text = "(a > -b)" ∧
      ((Visit.value (.root 1) number).write w (s.put "-")).state.text = "(c = 1) and -(-b)" := by
    decide +kernel
  obtain ⟨hs, herror, htext, hhyphen⟩ := hruns
  obtain ⟨halone, -, halike⟩ := visit_in_place (of .access) .inline v hs
  obtain ⟨-, hsteps, -⟩ :=
    visit_in_place (of .access) .inline v (s := { s with text := "" }) endsWith_empty_hyphen
  refine ⟨hs, herror, htext, ?_, ?_, halike _ (.captured hsteps), hhyphen⟩
  · rw [halone]
    exact herror
  · rw [halone]
    exact congrArg ("(c = 1) and " ++ ·) htext

end Renderer

end WhereClause
