import WhereClause.Proofs.Simulation
import WhereClause.Proofs.Written

namespace WhereClause

/-!
# Constants at other places

The place of a constant tells it apart from all others, and nothing else comes of it. If the
constants of a draft are moved so that no two of them come to one place, and none is at two, then
the same text is written and the same parameters are bound.

* `Position.OneToOne` — places that correspond one to one;
* `Position.Scattered`, `Position.Carried` — places that are apart from each other, and whole
  subtrees that are carried from such places to others;
* `Draft.Moved` — two drafts that differ in the places of their constants, and in their faults;
* `Draft.moved_simulates` — every step of two writings keeps what they have in common;
* `Settings.query_of_moved` — trees laid out to such drafts have the same query, or both have none;
* `Expr.layout_abreast`, `Settings.queryFrom_initial_eq` — one tree at two places is written alike,
  and fails with the same error.
-/

namespace Position

/-- A correspondence between places that takes no two of them for one, on either side. -/
def OneToOne (M : Position → Position → Prop) : Prop :=
  ∀ {p p' q q'}, M p p' → M q q' → (p = q ↔ p' = q')

/-! ### Subtrees that are carried to other places -/

/-- Two places that have nothing below them in common. -/
def Apart (p q : Position) : Prop := ∀ x, p.Below x → ¬ q.Below x

/-- Places below a given one, each apart from all others. -/
structure Scattered (q : Position) (ps : List Position) : Prop where
  below : ∀ p ∈ ps, q.Below p
  apart : ps.Pairwise Apart

/-- One place is not below another. -/
theorem scattered_self (p : Position) : Scattered p [p] :=
  ⟨by simp [below_self], List.pairwise_singleton _ _⟩

/-- Scattered places are different. -/
theorem Scattered.nodup {q : Position} {ps : List Position} (h : Scattered q ps) : ps.Nodup := by
  refine h.apart.imp ?_
  rintro p _ hapart rfl
  exact hapart p p.below_self p.below_self

/-- Places below a child of a node, and after them places below children with greater numbers. -/
theorem Scattered.append {p : Position} {i : Nat} {ps qs : List Position}
    (hps : Scattered (p.child i) ps) (hqs : qs.Pairwise Apart)
    (hlater : ∀ q ∈ qs, ∃ j, i < j ∧ (p.child j).Below q) : Scattered p (ps ++ qs) := by
  refine ⟨?_, List.pairwise_append.mpr ⟨hps.apart, hqs, ?_⟩⟩
  · intro q hq
    rcases List.mem_append.mp hq with hq | hq
    · exact (hps.below q hq).of_child
    · obtain ⟨j, -, hbelow⟩ := hlater q hq
      exact hbelow.of_child
  · intro q hq q' hq' x hx hx'
    -- What stands below two children with different numbers is not the same.
    obtain ⟨j, hij, hbelow⟩ := hlater q' hq'
    exact not_below_of_ne (by omega) ((hps.below q hq).trans hx) (hbelow.trans hx')

/-- A place that is carried to another one: it stands below a place in the first list and goes below
    the place with the same number in the second list. What is not below the given place stays. -/
def Carried (q : Position) (ps ps' : List Position) (x x' : Position) : Prop :=
  (x = x' ∧ ¬ q.Below x) ∨
    ∃ (i : Nat) (p p' : Position) (steps : List Nat), ps[i]? = some p ∧ ps'[i]? = some p' ∧
      x = p.descend steps ∧ x' = p'.descend steps

variable {q x x' y y' : Position} {ps ps' : List Position}

/-- What is carried to a place is carried back from it. -/
theorem Carried.symm (h : Carried q ps ps' x x') : Carried q ps' ps x' x := by
  rcases h with ⟨rfl, hout⟩ | ⟨i, p, p', steps, hp, hp', hx, hx'⟩
  · exact .inl ⟨rfl, hout⟩
  · exact .inr ⟨i, p', p, steps, hp', hp, hx', hx⟩

/-- A place is carried to no more than one other. -/
theorem Carried.unique (h : Scattered q ps) (hx : Carried q ps ps' x x')
    (hy : Carried q ps ps' x y') : x' = y' := by
  have hbelow : ∀ {i : Nat} {p : Position} {steps}, ps[i]? = some p → q.Below (p.descend steps) :=
    fun hp => (h.below _ (List.mem_of_getElem? hp)).trans (below_descend _ _)
  rcases hx with ⟨rfl, hout⟩ | ⟨i, p, p', steps, hp, hp', rfl, rfl⟩
  · rcases hy with ⟨rfl, -⟩ | ⟨j, r, r', steps', hr, -, rfl, -⟩
    · rfl
    · exact absurd (hbelow hr) hout
  · rcases hy with ⟨-, hout⟩ | ⟨j, r, r', steps', hr, hr', hsame, rfl⟩
    · exact absurd (hbelow hp) hout
    · -- The place is below both, so these are one.
      obtain rfl : i = j := by
        by_contra hij
        have hp_below : p.Below (p.descend steps) := p.below_descend steps
        have hr_below : r.Below (p.descend steps) := hsame ▸ r.below_descend steps'
        obtain ⟨hi, rfl⟩ := List.getElem?_eq_some_iff.mp hp
        obtain ⟨hj, rfl⟩ := List.getElem?_eq_some_iff.mp hr
        rcases Nat.lt_or_gt_of_ne hij with hlt | hlt
        · exact List.pairwise_iff_getElem.mp h.apart i j hi hj hlt _ hp_below hr_below
        · exact List.pairwise_iff_getElem.mp h.apart j i hj hi hlt _ hr_below hp_below
      obtain rfl : p = r := Option.some.inj (hp.symm.trans hr)
      obtain rfl : p' = r' := Option.some.inj (hp'.symm.trans hr')
      have hsteps : steps = steps' := by simpa [descend] using hsame
      rw [hsteps]

/-- **Subtrees carried one by one.** Between scattered places the correspondence is one to one. -/
theorem carried_oneToOne (h : Scattered q ps) (h' : Scattered q ps') :
    OneToOne (Carried q ps ps') := by
  intro x x' y y' hx hy
  constructor
  · rintro rfl
    exact hx.unique h hy
  · rintro rfl
    exact hx.symm.unique h' hy.symm

end Position

/-! ### Drafts with moved constants -/

/-- Two drafts that are the same except for the places of their constants, which correspond, and for
    the errors at their faults. -/
def Draft.Moved (M : Position → Position → Prop) : Draft → Draft → Prop :=
  Alike Eq fun x x' => M x.1 x'.1 ∧ x.2 = x'.2

/-- Every form keeps drafts from differing in more. -/
theorem Draft.moved_respects (M : Position → Position → Prop) (d : Rules) :
    d.Respects fun s s' => s.draft.Moved M s'.draft :=
  Sql.alike_respects (fun _ => rfl) d

/-- The same numbers and parameters, bound for places that correspond. -/
structure Bindings.Moved (M : Position → Position → Prop) (b b' : Bindings) : Prop where
  next : b.next = b'.next
  parameters_eq : b.parameters = b'.parameters
  slots : List.Forall₂ (fun x x' => M x.1 x'.1 ∧ x.2 = x'.2) b.slots b'.slots

/-- Two states that differ in nothing but the places for which parameters are bound. -/
structure State.Moved (M : Position → Position → Prop) (s s' : State) : Prop where
  text : s.text = s'.text
  bindings : s.bindings.Moved M s'.bindings
  depth : s.depth = s'.depth

variable {M : Position → Position → Prop}

/-- Before the first constant there is nothing to move. -/
theorem State.moved_initial : State.initial.Moved M State.initial := ⟨rfl, ⟨rfl, rfl, .nil⟩, rfl⟩

namespace Bindings

variable {b b' : Bindings}

/-- Places that correspond have the same slot, or none. -/
theorem Moved.slot?_eq (hM : Position.OneToOne M) (h : b.Moved M b') {place place' : Position}
    (hplace : M place place') : b.slot? place = b'.slot? place' := by
  have hslots := h.slots
  rw [Register.slot?, Register.slot?]
  generalize b.slots = slots at hslots ⊢
  generalize b'.slots = slots' at hslots ⊢
  induction hslots with
  | nil => rfl
  | @cons x x' _ _ hx _ ih =>
    obtain ⟨q, i⟩ := x
    obtain ⟨q', i'⟩ := x'
    obtain ⟨hq, rfl⟩ : M q q' ∧ i = i' := hx
    -- Places carried one to one meet the same entry of the map at the same step of the search.
    have hsame : (place == q) = (place' == q') := by
      rw [Bool.eq_iff_iff, beq_iff_eq, beq_iff_eq]
      exact hM hplace hq
    rw [List.lookup_cons, List.lookup_cons, hsame, ih]

/-- Places that correspond have the same parameter, or none. -/
theorem Moved.find?_eq (hM : Position.OneToOne M) (h : b.Moved M b') {place place' : Position}
    (hplace : M place place') : b.find? place = b'.find? place' := by
  rw [Bindings.find?, Bindings.find?, h.slot?_eq hM hplace, h.parameters_eq]

/-- Places that correspond get the same placeholder, or the same error. -/
theorem Moved.bind (hM : Position.OneToOne M) (h : b.Moved M b') {place place' : Position}
    (hplace : M place place') (mark : String) (types : TypeSystem) (c : Constant) :
    ∃ answer b₁ b₁', b.bind mark types place c = (answer, b₁) ∧
      b'.bind mark types place' c = (answer, b₁') ∧ b₁.Moved M b₁' := by
  have hfind := h.find?_eq hM hplace
  rcases b.bind_cases mark types place c with
    ⟨p, hfound, hb⟩ | ⟨hnew, htype, hb⟩ | ⟨type, hnew, htype, hb⟩
  · exact ⟨_, b, b', hb, bind_of_find? (hfind ▸ hfound), h⟩
  · exact ⟨_, b, b', hb, bind_of_unresolved (hfind ▸ hnew) htype, h⟩
  · refine ⟨_, _, b'.push place' ⟨nameOf b.next, c.host, type, c.value⟩, hb, ?_, ?_⟩
    · rw [h.next]
      exact bind_of_resolved (hfind ▸ hnew) htype
    · exact
        { next := congrArg Nat.succ h.next
          parameters_eq := by simp [push, Register.push, h.parameters_eq]
          slots := List.rel_append h.slots (.cons ⟨hplace, by rw [h.parameters_eq]⟩ .nil) }

end Bindings

namespace Draft

variable {w : Settings}

/-- A constant at a moved place gets the parameter that it had, with the same name. -/
theorem writeConstant_moved (hM : Position.OneToOne M) {place place' : Position}
    (hplace : M place place') (c : Constant) {s s' : State} (hs : s.Moved M s') :
    (writeConstant w place c s).Matched Eq (State.Moved M) (writeConstant w place' c s') := by
  simp only [writeConstant]
  split
  · obtain ⟨answer, b, b', hb, hb', hbindings⟩ :=
      hs.bindings.bind hM hplace w.rules.paramMark w.rules.types c
    rw [hb, hb']
    cases answer with
    | ok t => exact ⟨⟨by simp [Outcome.done, State.put, hs.text], hbindings, hs.depth⟩, .none⟩
    -- The error names the host and not the place, so both sides report the same one.
    | error err => exact ⟨⟨hs.text, hbindings, hs.depth⟩, .some rfl⟩
  · cases w.rules.literal c.value with
    | none => exact ⟨hs, .some rfl⟩
    | some t =>
      exact ⟨⟨by simp [Outcome.done, State.put, hs.text], hs.bindings, hs.depth⟩, .none⟩

/-- Every step keeps two states from differing in anything but places. -/
theorem moved_simulates (hM : Position.OneToOne M) :
    w.Simulates w Eq (fun x x' => M x.1 x'.1 ∧ x.2 = x'.2) (State.Moved M) where
  text := fun ht hs => ⟨by simp [State.put, ht, hs.text], hs.bindings, hs.depth⟩
  column := fun _ _ _ hs => ⟨by simp [State.put, hs.text], hs.bindings, hs.depth⟩
  constant := by
    rintro ⟨place, c⟩ ⟨place', _⟩ s s' ⟨hplace, rfl⟩ hs
    exact (writeConstant_moved hM hplace c hs).paired
  apart := fun hs => ⟨rfl, hs.bindings, hs.depth⟩
  added := fun hs ht => ⟨by simp [hs.text, ht.text], ht.bindings, ht.depth⟩
  dropped := fun hs ht => ⟨hs.text, ht.bindings, ht.depth⟩
  depth := fun hs => hs.depth
  atDepth := fun _ _ _ hs => ⟨hs.text, hs.bindings, rfl⟩
  limit := rfl

end Draft

/-- **Moved constants.** Two trees that are laid out to the same drafts, except that constants stand
    at corresponding places, have the same query or both have none. -/
theorem Settings.query_of_moved {w : Settings} (hM : Position.OneToOne M) {e e' : Expr}
    (h : (e.predicate w.rules (.root 0)).draft.Moved M (e'.predicate w.rules (.root 0)).draft) :
    (w.query e).toOption = (w.query e').toOption := by
  have hpaired := Draft.write_simulates (Draft.moved_simulates (w := w) hM) h State.moved_initial
  rcases hpaired.done_or_failed with
    ⟨s, s', hs, hs', hstate⟩ | ⟨s, s', err, err', hs, hs', -⟩
  · rw [query_of_write hs, query_of_write hs', hstate.text, hstate.bindings.parameters_eq]
  · rw [query_of_write_error hs, query_of_write_error hs']
    rfl

/-! ### A tree at two places -/

/-- Two places that the same steps lead to from two given ones. -/
def Position.Abreast (p p' x x' : Position) : Prop :=
  ∃ steps, x = p.descend steps ∧ x' = p'.descend steps

/-- Places abreast of each other correspond one to one. -/
theorem Position.abreast_oneToOne (p p' : Position) : OneToOne (Abreast p p') := by
  rintro _ _ _ _ ⟨steps, rfl, rfl⟩ ⟨steps', rfl, rfl⟩
  simp [descend]

/-- **A tree at two places.** In every role the two drafts are written alike, with the same
    errors. -/
theorem Expr.layout_abreast (w : Settings) (e : Expr) (p p' : Position) :
    Layout.Related True True
      (fun s s' => s.draft.Matches w w Eq (State.Moved (Position.Abreast p p')) s'.draft)
      (e.layout w.rules p) (e.layout w.rules p') := by
  have hM : Position.OneToOne (Position.Abreast p p') := Position.abreast_oneToOne p p'
  have hsteps := Draft.moved_simulates (w := w) hM
  have hfault : ∀ err, (Draft.fault err).Matches w w Eq (State.Moved (Position.Abreast p p'))
      (.fault err) := fun _ _ _ hs => ⟨hs, .some rfl⟩
  have hforms := Sql.preserves_of_congruence hsteps.congruence (fun _ => rfl)
    (hsteps.level rfl fun _ => rfl) hfault w.rules
  exact layout_related_places hforms hfault (fun name _ _ hs => ⟨hsteps.column name hs, .none⟩) e
    fun steps c _ _ hs => Draft.writeConstant_moved hM ⟨steps, rfl, rfl⟩ c hs

/-- A query does not depend on the place at which its tree stands. -/
theorem Settings.queryFrom_initial_eq (w : Settings) (e : Expr) (p p' : Position) :
    w.queryFrom p .initial e = w.queryFrom p' .initial e := by
  simp only [queryFrom, State.writePredicate]
  rcases ((e.layout_abreast w p p').predicate _ _ State.moved_initial).done_or_failed with
    ⟨s, s', hs, hs', hstate⟩ | ⟨s, s', err, _, hs, hs', -, rfl⟩
  · rw [Expr.predicate, Expr.predicate, hs, hs']
    simp only [hstate.text, hstate.bindings.parameters_eq]
  · rw [Expr.predicate, Expr.predicate, hs, hs']

end WhereClause
