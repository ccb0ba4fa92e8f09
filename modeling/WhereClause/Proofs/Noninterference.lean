import WhereClause.Expr.Build
import WhereClause.Proofs.Coverage
import WhereClause.Proofs.Simulation
import WhereClause.Proofs.Tables

namespace WhereClause

/-!
# Bound values do not show

If two trees differ only in values that are handed over as parameters, they are written side by
side: at every step both writings have the same text and the same places bound under the same names
and types, and one of them fails only if the other does.

* `Policy.Exchangeable` — two constants that a policy does not let show in the text;
* `State.Twin`, `Draft.twin_simulates` — two states that differ in nothing but the values of
  parameters, which every step of two writings keeps so;
* `Renderer.parameterized_of_alike` — the text of a query does not depend on bound values.
-/

/-- Two constants of the same host type whose values are the same or are both bound. -/
def Policy.Exchangeable (policy : Policy) (c c' : Constant) : Prop :=
  c.host = c'.host ∧ (c.value = c'.value ∨ (policy.binds c.value ∧ policy.binds c'.value))

/-- Two such constants at one place. -/
def Policy.ExchangeableAt (policy : Policy) (x x' : Position × Constant) : Prop :=
  x.1 = x'.1 ∧ policy.Exchangeable x.2 x'.2

namespace Policy

variable {policy : Policy} {c c' : Constant}

/-- Of two exchangeable constants both are bound or neither. -/
theorem Exchangeable.binds_eq (h : policy.Exchangeable c c') :
    policy.binds c.value = policy.binds c'.value := by
  obtain ⟨-, hvalue | ⟨hb, hb'⟩⟩ := h
  · rw [hvalue]
  · rw [hb, hb']

/-- Constants that are not bound can be exchanged only for themselves. -/
theorem Exchangeable.eq_of_not_binds (h : policy.Exchangeable c c')
    (hb : policy.binds c.value = false) : c = c' := by
  obtain ⟨hhost, hvalue | ⟨hb', -⟩⟩ := h
  · cases c
    cases c'
    simp_all
  · exact absurd hb (by simp [hb'])

/-- Of two exchangeable constants both are null or neither. -/
theorem Exchangeable.isNull_eq (h : policy.Exchangeable c c') :
    c.value.isNull = c'.value.isNull := by
  obtain ⟨-, hvalue | ⟨hb, hb'⟩⟩ := h
  · rw [hvalue]
  · rw [isNull_of_binds hb, isNull_of_binds hb']

end Policy

/-! ### Writing side by side -/

/-- Two parameters that differ in nothing but their values. -/
structure Parameter.Twin (p p' : Parameter) : Prop where
  name : p.name = p'.name
  host : p.host = p'.host
  type : p.type = p'.type

/-- The same numbers and slots with parameters that differ in nothing but their values. -/
structure Bindings.Twin (b b' : Bindings) : Prop where
  next : b.next = b'.next
  slots : b.slots = b'.slots
  parameters : List.Forall₂ Parameter.Twin b.parameters b'.parameters

/-- Two states that differ in nothing but the values of parameters. -/
structure State.Twin (s s' : State) : Prop where
  text : s.text = s'.text
  bindings : s.bindings.Twin s'.bindings
  depth : s.depth = s'.depth

namespace Bindings

variable {b b' : Bindings}

/-- Twins have parameters at the same places, and these are twins. -/
theorem Twin.find? (h : b.Twin b') (place : Position) :
    Option.Rel Parameter.Twin (b.find? place) (b'.find? place) := by
  have hsame : b.slot? place = b'.slot? place := congrArg (List.lookup place) h.slots
  rw [Bindings.find?, Bindings.find?, ← hsame]
  cases hslot : b.slot? place with
  | none => exact .none
  | some i =>
    have hi : i < b.parameters.length := b.inRange.lt_length hslot
    have hi' : i < b'.parameters.length := b'.inRange.lt_length (hsame ▸ hslot)
    simp only [Option.bind_some, List.getElem?_eq_getElem hi, List.getElem?_eq_getElem hi']
    exact .some (h.parameters.get hi hi')

/-- A place gets the same placeholder on both sides, or none on either. -/
theorem Twin.bind (h : b.Twin b') (mark : String) (types : TypeSystem) (place : Position)
    {c c' : Constant} (hc : c.host = c'.host) :
    (∃ t b₁ b₁', b.bind mark types place c = (.ok t, b₁) ∧
      b'.bind mark types place c' = (.ok t, b₁') ∧ b₁.Twin b₁') ∨
    (∃ e e', b.bind mark types place c = (.error e, b) ∧
      b'.bind mark types place c' = (.error e', b')) := by
  have hfind := h.find? place
  generalize hfound : b.find? place = o at hfind
  generalize hfound' : b'.find? place = o' at hfind
  cases hfind with
  | some hp =>
    refine .inl ⟨_, b, b', bind_of_find? hfound, ?_, h⟩
    rw [bind_of_find? hfound', hp.name]
  | none =>
    cases htype : types.resolve? c.host with
    | none =>
      exact .inr ⟨_, _, bind_of_unresolved hfound htype, bind_of_unresolved hfound' (hc ▸ htype)⟩
    -- The type is found from the host alone, which the two constants share; the values go into the
    -- parameters and nowhere else.
    | some type =>
      refine .inl ⟨_, _, b'.push place ⟨nameOf b.next, c'.host, type, c'.value⟩,
        bind_of_resolved hfound htype, ?_, ?_⟩
      · rw [h.next]
        exact bind_of_resolved hfound' (hc ▸ htype)
      · exact
          { next := congrArg Nat.succ h.next
            slots := by simp [push, Register.push, h.slots, h.parameters.length_eq]
            parameters := List.rel_append h.parameters (.cons ⟨rfl, hc, rfl⟩ .nil) }

/-- Entry by entry, the places are the same and the parameters differ in nothing but their
    values. -/
theorem Twin.entries (h : b.Twin b') :
    List.Forall₂ (fun y y' => y.1 = y'.1 ∧ y.2.Twin y'.2) b.entries b'.entries := by
  have hzip : ∀ {ps ps' : List Parameter} (places : List Position),
      List.Forall₂ Parameter.Twin ps ps' →
      List.Forall₂ (fun y y' => y.1 = y'.1 ∧ y.2.Twin y'.2) (places.zip ps) (places.zip ps') := by
    intro ps ps' places hps
    induction hps generalizing places with
    | nil => simp
    | cons hp _ ih =>
      cases places with
      | nil => exact .nil
      | cons place places => exact .cons ⟨rfl, hp⟩ (ih places)
  rw [Register.entries, Register.entries, ← h.slots]
  exact hzip _ h.parameters

end Bindings

namespace Draft

variable {policy : Policy} {w : Settings} {s s' : State}

/-- Exchangeable constants are written alike: bound to twins, or the same literal. -/
theorem writeConstant_twin (hw : w.mode = .parameterized policy) (place : Position)
    {c c' : Constant} (hc : policy.Exchangeable c c') (hs : s.Twin s') :
    (writeConstant w place c s).Paired State.Twin (writeConstant w place c' s') := by
  have hmode : ∀ v, w.mode.binds v = policy.binds v := fun v => by rw [hw]; rfl
  simp only [writeConstant, hmode, ← hc.binds_eq]
  split
  · rcases hs.bindings.bind w.rules.paramMark w.rules.types place hc.1 with
      ⟨t, b, b', hb, hb', hbindings⟩ | ⟨e, e', he, he'⟩
    · rw [hb, hb']
      exact ⟨⟨by simp [Outcome.done, State.put, hs.text], hbindings, hs.depth⟩, rfl⟩
    · rw [he, he']
      exact ⟨hs, rfl⟩
  -- A value that is not bound is written out, so the two constants are the same one.
  · next hb =>
    obtain rfl := hc.eq_of_not_binds (by simpa using hb)
    cases w.rules.literal c.value with
    | none => exact ⟨hs, rfl⟩
    | some t =>
      exact ⟨⟨by simp [Outcome.done, State.put, hs.text], hs.bindings, hs.depth⟩, rfl⟩

/-- Every step keeps two states from differing in anything but the values of parameters. -/
theorem twin_simulates (hw : w.mode = .parameterized policy) :
    w.Simulates w Eq policy.ExchangeableAt State.Twin where
  text := fun ht hs => ⟨by simp [State.put, ht, hs.text], hs.bindings, hs.depth⟩
  column := fun _ _ _ hs => ⟨by simp [State.put, hs.text], hs.bindings, hs.depth⟩
  constant := by
    rintro ⟨place, c⟩ ⟨_, c'⟩ s s' ⟨rfl, hc⟩ hs
    exact writeConstant_twin hw place hc hs
  apart := fun hs => ⟨rfl, hs.bindings, hs.depth⟩
  added := fun hs ht => ⟨by simp [hs.text, ht.text], ht.bindings, ht.depth⟩
  dropped := fun hs ht => ⟨hs.text, ht.bindings, ht.depth⟩
  depth := fun hs => hs.depth
  atDepth := fun _ _ _ hs => ⟨hs.text, hs.bindings, rfl⟩
  limit := rfl

end Draft

/-! ### Queries -/

/-- The drafts of two conditions differ in constants only, as the trees do. -/
theorem Expr.predicate_alike {policy : Policy} {e e' : Expr}
    (h : e.Alike policy.Exchangeable e') (d : Rules) (p : Position) :
    (e.predicate d p).draft.Alike Eq policy.ExchangeableAt (e'.predicate d p).draft :=
  (Expr.layout_related (Sql.alike_respects (fun _ => rfl) d) (fun _ _ hc => hc.isNull_eq)
    (fun _ _ _ hc => .constant ⟨rfl, hc⟩) (fun _ => .column) h p).predicate

/-- Two parameters of the same name and types, which carry the constants that stand at one and the
    same place of two trees. -/
def Parameter.Corresponds (e e' : Expr) (p p' : Parameter) : Prop :=
  p.name = p'.name ∧ p.host = p'.host ∧ p.type = p'.type ∧
    ∃ place c c', (place, c) ∈ e.constants (.root 0) ∧ (place, c') ∈ e'.constants (.root 0) ∧
      p.value = c.value ∧ p'.value = c'.value

/-- The parameters of two complete writings side by side carry the constants of the two trees, place
    by place. -/
theorem Bindings.Twin.corresponds {d : Rules} (hd : d.Sound) {e e' : Expr} {b b' : Bindings}
    (h : b.Twin b') {keep : Position × Constant → Bool}
    (hb : b.Lists d.types ((e.predicate d (.root 0)).draft.constants.filter keep))
    (hb' : b'.Lists d.types ((e'.predicate d (.root 0)).draft.constants.filter keep)) :
    List.Forall₂ (Parameter.Corresponds e e') b.parameters b'.parameters := by
  have hentries := h.entries
  rw [← hb.aligned.map_snd_entries, ← hb'.aligned.map_snd_entries, List.forall₂_map_left_iff,
    List.forall₂_map_right_iff, List.forall₂_iff_zip]
  refine ⟨hentries.length_eq, fun {y y'} hy => ?_⟩
  obtain ⟨hplace, htwin⟩ := List.forall₂_zip hentries hy
  -- Each of two twin parameters carries a constant of its own tree, and both entries stand at one
  -- place.
  obtain ⟨c, hc, hcarries⟩ := hb.carries y (List.of_mem_zip hy).1
  obtain ⟨c', hc', hcarries'⟩ := hb'.carries y' (List.of_mem_zip hy).2
  refine ⟨htwin.name, htwin.host, htwin.type, y.1, c, c', ?_, ?_, hcarries.value, hcarries'.value⟩
  · exact Expr.mem_constants_of_mem_draft hd (List.mem_filter.mp hc).1
  · rw [hplace]
    exact Expr.mem_constants_of_mem_draft hd (List.mem_filter.mp hc').1

namespace Renderer

/-- **Bound values do not show.** If two trees differ only in values that the policy binds, both can
    be rendered or neither can. The texts are the same, and so are the names and the types of the
    parameters, which carry the constants of either tree place by place. -/
theorem parameterized_of_alike (r : Renderer) {e e' : Expr}
    (h : e.Alike r.policy.Exchangeable e') :
    (∃ q q', r.parameterized e = .ok q ∧ r.parameterized e' = .ok q' ∧ q.sql = q'.sql ∧
      List.Forall₂ (Parameter.Corresponds e e') q.parameters q'.parameters) ∨
    (∃ err err', r.parameterized e = .error err ∧ r.parameterized e' = .error err') := by
  have hinitial : State.initial.Twin State.initial := ⟨rfl, ⟨rfl, rfl, .nil⟩, rfl⟩
  have htwin := Draft.write_simulates
    (Draft.twin_simulates (w := r.settings (.parameterized r.policy)) rfl)
    (Expr.predicate_alike h r.dialect.rules (.root 0)) hinitial
  rcases htwin.done_or_failed with ⟨s, s', hs, hs', hstate⟩ | ⟨s, s', err, err', hs, hs', -⟩
  · -- The writings end in states with the same text, and each lists the constants of its own tree.
    have hlists := ((written_of_write hs).lists (Bindings.lists_empty _)).2
    have hlists' := ((written_of_write hs').lists (Bindings.lists_empty _)).2
    exact .inl ⟨_, _, Settings.query_of_write hs, Settings.query_of_write hs', hstate.text,
      hstate.bindings.corresponds r.dialect.sound hlists hlists'⟩
  · exact .inr ⟨err, err', Settings.query_of_write_error hs, Settings.query_of_write_error hs'⟩

/-- A name with a quote in it is compared with a column in place of another name. -/
theorem parameterized_of_alike_names :
    let tree name :=
      Build.binary .equal (Build.column "Name" .string) (Build.literal (.string name))
    let r := Renderer.of .oracle
    (tree "Ann").Alike r.policy.Exchangeable (tree "O'Hara") ∧
      ((∃ q q', r.parameterized (tree "Ann") = .ok q ∧ r.parameterized (tree "O'Hara") = .ok q' ∧
        q.sql = q'.sql ∧ List.Forall₂ (Parameter.Corresponds (tree "Ann") (tree "O'Hara"))
          q.parameters q'.parameters) ∨
      (∃ err err', r.parameterized (tree "Ann") = .error err ∧
        r.parameterized (tree "O'Hara") = .error err')) := by
  intro tree r
  have h : (tree "Ann").Alike r.policy.Exchangeable (tree "O'Hara") :=
    .binary .column (.constant ⟨rfl, .inr ⟨rfl, rfl⟩⟩)
  exact ⟨h, parameterized_of_alike r h⟩

end Renderer

end WhereClause
