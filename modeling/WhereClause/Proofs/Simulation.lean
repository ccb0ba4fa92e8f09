import WhereClause.Proofs.Compound
import WhereClause.Writer

namespace WhereClause

/-!
# Writings side by side

Two drafts are written step by step. A relation between states that holds before and that every
single step keeps therefore holds afterwards, and one writing stops only where the other does. What
rows and operands do to such a relation is the same whatever the drafts are made of, so it is said
once for all relations between drafts, and with it what the forms of a dialect do.

* `Draft.Congruence`, `Sql.preserves_of_congruence` — relations between drafts that rows and
  operands keep, and so do all forms;
* `Draft.Alike`, `Sql.alike_respects` — drafts of the same shape, and the forms that keep it;
* `State.Stable`, `Draft.Matches` — relations between states that fixed texts and levels keep, and
  drafts whose writings keep them;
* `Settings.Simulates` — what single steps have to keep;
* `Draft.write_simulates` — then whole writings keep it.
-/

/-! ### Relations between drafts -/

/-- A relation between drafts that passes from parts to the whole, if fixed texts are related. -/
structure Draft.Congruence (T : String → String → Prop) (P : Draft → Draft → Prop) : Prop where
  empty : P .empty .empty
  text : ∀ {t t'}, T t t' → P (.text t) (.text t')
  append : ∀ {a a' b b' : Draft}, P a a' → P b b' → P (a ++ b) (a' ++ b')
  operand : ∀ {d d'}, P d d' → P (.operand d) (.operand d')

/-- Two pieces with the same slot, or with texts that are related. -/
inductive Piece.Alike (T : String → String → Prop) : Piece → Piece → Prop
  | text {t t'} : T t t' → Alike T (.text t) (.text t')
  | slot {i} : Alike T (.slot i) (.slot i)

namespace Sql

variable {T : String → String → Prop} {P : Draft → Draft → Prop} {ds ds' : List Draft}

/-- Lists that are related one by one are related at every number. -/
private theorem rel_getElem? {α β : Type} {P : α → β → Prop} {l : List α} {l' : List β}
    (h : List.Forall₂ P l l') (i : Nat) : Option.Rel P l[i]? l'[i]? := by
  induction h generalizing i with
  | nil => exact .none
  | cons ha _ ih =>
    cases i with
    | zero => exact .some ha
    | succ i => exact ih i

/-- Related expressions have related drafts, one by one. -/
theorem draftList_related {ss ss' : List Sql}
    (h : List.Forall₂ (fun s s' => P s.draft s'.draft) ss ss') :
    List.Forall₂ P (draftList ss) (draftList ss') := by
  rw [draftList_eq_map, draftList_eq_map]
  rwa [List.forall₂_map_left_iff, List.forall₂_map_right_iff]

variable (hP : Draft.Congruence T P)

include hP

/-- Templates that differ in fixed texts only are filled to related drafts. -/
theorem formDraft_related {t t' : Template} (ht : List.Forall₂ (Piece.Alike T) t t')
    (hmissing : ∀ i, P (.fault (.malformed (.operand t i ds.length)))
      (.fault (.malformed (.operand t' i ds'.length))))
    (h : List.Forall₂ P ds ds') : P (formDraft t ds) (formDraft t' ds') := by
  have hpiece : ∀ {piece piece' : Piece}, piece.Alike T piece' →
      P (pieceDraft t ds piece) (pieceDraft t' ds' piece') := by
    intro piece piece' hpiece
    cases hpiece with
    | text ht => exact hP.text ht
    | @slot i =>
      -- The two lists are equally long, so a slot is filled in both or missing in both.
      have hi := rel_getElem? h i
      have hnone := hmissing i
      simp only [pieceDraft]
      revert hi
      generalize ds[i]? = o
      generalize ds'[i]? = o'
      rintro (hd | _)
      · exact hP.operand hd
      · exact hnone
  have hpieces : ∀ {pieces pieces' : Template}, List.Forall₂ (Piece.Alike T) pieces pieces' →
      P (pieces.foldr (fun piece rest => pieceDraft t ds piece ++ rest) .empty)
        (pieces'.foldr (fun piece rest => pieceDraft t' ds' piece ++ rest) .empty) := by
    intro pieces pieces' hpieces
    induction hpieces with
    | nil => exact hP.empty
    | cons hp _ ih => exact hP.append (hpiece hp) ih
  exact hpieces ht

/-! From here on fixed texts are the same, so they need only be related to themselves. -/

variable (hT : ∀ t, T t t)

include hT

omit hP in
/-- A template is like itself, if texts are. -/
theorem pieces_alike_refl (t : Template) : List.Forall₂ (Piece.Alike T) t t := by
  refine List.forall₂_same.mpr fun piece _ => ?_
  cases piece with
  | text t => exact .text (hT t)
  | slot i => exact .slot

/-- Related drafts with one text between them. -/
theorem join_related (separator : String) (h : List.Forall₂ P ds ds') :
    P (Draft.join separator ds) (Draft.join separator ds') := by
  induction h with
  | nil => exact hP.empty
  | cons hd hds ih =>
    cases hds with
    | nil => exact hd
    | cons hd' hds => exact hP.append (hP.append hd (hP.text (hT _))) ih

/-- Concatenations of related drafts in one style. -/
theorem concatDraft_related (style : ConcatStyle) (h : List.Forall₂ P ds ds') :
    P (concatDraft style ds) (concatDraft style ds') := by
  have htext : ∀ t, P (.text t) (.text t) := fun t => hP.text (hT t)
  -- The style matters from two parts on: none gives the empty literal, one stands for itself.
  have hjoin := fun separator => join_related hP hT separator h
  cases h with
  | nil => exact htext _
  | cons hd hrest =>
    cases hrest with
    | nil => exact hd
    | cons =>
      cases style with
      | infixed token => exact hP.append (hP.append (htext _) (hjoin token)) (htext _)
      | function name =>
        exact hP.append (hP.append (hP.append (htext _) (htext _)) (hjoin ", ")) (htext _)

/-- Searches for related drafts among related ones. -/
theorem inListDraft_related {n n' : Draft} (hn : P n n') (h : List.Forall₂ P ds ds') :
    P (inListDraft n ds) (inListDraft n' ds') := by
  have htext : ∀ t, P (.text t) (.text t) := fun t => hP.text (hT t)
  have hjoin := join_related hP hT ", " h
  cases h with
  | nil => exact htext _
  | cons =>
    exact hP.append (hP.append (hP.append (hP.append (htext _) hn) (htext _)) hjoin) (htext _)

/-- Branches with related tests and values. -/
theorem draftBranches_related {bs bs' : List (Sql × Sql)}
    (h : List.Forall₂ (fun b b' => P b.1.draft b'.1.draft ∧ P b.2.draft b'.2.draft) bs bs') :
    P (draftBranches bs) (draftBranches bs') := by
  have htext : ∀ t, P (.text t) (.text t) := fun t => hP.text (hT t)
  induction h with
  | nil => exact hP.empty
  | @cons b b' _ _ hb _ ih =>
    obtain ⟨test, value⟩ := b
    obtain ⟨test', value'⟩ := b'
    exact hP.append (hP.append (hP.append (hP.append (htext _) hb.1) (htext _)) hb.2) ih

/-- **Forms.** A relation between drafts that rows, operands and levels keep is kept by every
    form. -/
theorem preserves_of_congruence (hlevel : ∀ {d d'}, P d d' → P (.level d) (.level d'))
    (hfault : ∀ err, P (.fault err) (.fault err)) (d : Rules) :
    d.Preserves fun s s' => P s.draft s'.draft := by
  have htext : ∀ t, P (.text t) (.text t) := fun t => hP.text (hT t)
  exact {
    form := fun _ h => by
      have hds := draftList_related h
      exact formDraft_related hP (pieces_alike_refl hT _) (fun i => hds.length_eq ▸ hfault _) hds
    prefixed := fun _ h => hP.append (htext _) (hP.operand h)
    infixed := fun _ hl hr =>
      hP.append (hP.append (hP.append (hP.append (hP.append (hP.append (htext _) hl) (htext _))
        (htext _)) (htext _)) hr) (htext _)
    concat := fun h => concatDraft_related hP hT _ (draftList_related h)
    coalesce := fun h =>
      hP.append (hP.append (htext _) (join_related hP hT ", " (draftList_related h))) (htext _)
    inList := fun hn h => inListDraft_related hP hT hn (draftList_related h)
    caseWhen := fun h ho =>
      hP.append (hP.append (hP.append (hP.append (htext _) (draftBranches_related hP hT h))
        (htext _)) ho) (htext _)
    level := hlevel }

end Sql

/-! ### Drafts of the same shape -/

/-- Two drafts that are the same except for their fixed texts and their constants with their places,
    which are related one by one, and for the errors at their faults. -/
inductive Draft.Alike (T : String → String → Prop)
    (R : Position × Constant → Position × Constant → Prop) : Draft → Draft → Prop
  | empty : Alike T R .empty .empty
  | text {t t'} : T t t' → Alike T R (.text t) (.text t')
  | column {name} : Alike T R (.column name) (.column name)
  | constant {p p' c c'} : R (p, c) (p', c') → Alike T R (.constant p c) (.constant p' c')
  | append {a a' b b'} : Alike T R a a' → Alike T R b b' →
      Alike T R (.append a b) (.append a' b')
  | operand {d d'} : Alike T R d d' → Alike T R (.operand d) (.operand d')
  | level {d d'} : Alike T R d d' → Alike T R (.level d) (.level d')
  | fault {e e'} : Alike T R (.fault e) (.fault e')

/-- Being alike leaf by leaf is kept by rows, operands and levels. -/
theorem Draft.alike_congruence (T : String → String → Prop)
    (R : Position × Constant → Position × Constant → Prop) : Congruence T (Alike T R) :=
  ⟨.empty, .text, .append, .operand⟩

namespace Sql

open Draft (Alike alike_congruence)

variable {T : String → String → Prop} {R : Position × Constant → Position × Constant → Prop}

/-- Templates that differ in fixed texts only are filled to drafts of the same shape. -/
theorem formDraft_alike {t t' : Template} {ds ds' : List Draft}
    (ht : List.Forall₂ (Piece.Alike T) t t') (h : List.Forall₂ (Alike T R) ds ds') :
    Alike T R (formDraft t ds) (formDraft t' ds') :=
  formDraft_related (alike_congruence T R) ht (fun _ => .fault) h

/-- Every form keeps the shape of drafts. -/
theorem alike_respects (hT : ∀ t, T t t) (d : Rules) :
    d.Respects (fun s s' => Alike T R s.draft s'.draft) :=
  { preserves_of_congruence (alike_congruence T R) hT .level (fun _ => .fault) d with
    fault := fun _ _ => .fault }

end Sql

/-! ### Steps -/

/-- Two writings that ended in related states, both complete or both stopped by related errors. -/
structure Outcome.Matched (F : Error → Error → Prop) (S : State → State → Prop)
    (o o' : Outcome) : Prop where
  state : S o.state o'.state
  error : Option.Rel F o.error? o'.error?

/-- Two writings that ended in related states, both complete or both stopped. -/
structure Outcome.Paired (S : State → State → Prop) (o o' : Outcome) : Prop where
  state : S o.state o'.state
  error : o.error?.isSome = o'.error?.isSome

namespace Outcome

variable {F : Error → Error → Prop} {S : State → State → Prop} {o o' : Outcome}

/-- Both writings are complete, or both stopped. -/
theorem Matched.done_or_failed (h : o.Matched F S o') :
    (∃ s s', o = ⟨s, none⟩ ∧ o' = ⟨s', none⟩ ∧ S s s') ∨
    (∃ s s' e e', o = ⟨s, some e⟩ ∧ o' = ⟨s', some e'⟩ ∧ S s s' ∧ F e e') := by
  obtain ⟨s, error⟩ := o
  obtain ⟨s', error'⟩ := o'
  obtain ⟨hstate, herror⟩ := h
  cases herror with
  | none => exact .inl ⟨s, s', rfl, rfl, hstate⟩
  | some he => exact .inr ⟨s, s', _, _, rfl, rfl, hstate, he⟩

/-- Outcomes that match are paired, whatever their faults are. -/
theorem Matched.paired (h : o.Matched F S o') : o.Paired S o' := by
  refine ⟨h.state, ?_⟩
  have herror := h.error
  generalize o.error? = err at herror ⊢
  generalize o'.error? = err' at herror ⊢
  cases herror <;> rfl

/-- Paired outcomes match if any faults do. -/
theorem Paired.matched (h : o.Paired S o') : o.Matched (fun _ _ => True) S o' := by
  refine ⟨h.state, ?_⟩
  have herror := h.error
  generalize o.error? = err at herror ⊢
  generalize o'.error? = err' at herror ⊢
  cases err <;> cases err' <;> simp at herror
  · exact .none
  · exact .some trivial

/-- Paired outcomes are both done or have both failed. -/
theorem Paired.done_or_failed (h : o.Paired S o') :
    (∃ s s', o = ⟨s, none⟩ ∧ o' = ⟨s', none⟩ ∧ S s s') ∨
    (∃ s s' e e', o = ⟨s, some e⟩ ∧ o' = ⟨s', some e'⟩ ∧ S s s') := by
  rcases h.matched.done_or_failed with hdone | ⟨s, s', e, e', ho, ho', hstate, -⟩
  · exact .inl hdone
  · exact .inr ⟨s, s', e, e', ho, ho', hstate⟩

end Outcome

/-- A relation between states that fixed texts, operands and levels keep. -/
structure State.Stable (T : String → String → Prop) (S : State → State → Prop) : Prop where
  text : ∀ {t t' s s'}, T t t' → S s s' → S (s.put t) (s'.put t')
  /-- An operand begins with an empty text. -/
  apart : ∀ {s s'}, S s s' → S { s with text := "" } { s' with text := "" }
  /-- It is added to the text before it, or left out. -/
  added : ∀ {s s' t t'}, S s s' → S t t' →
    S { t with text := s.text ++ guarded s.text t.text }
      { t' with text := s'.text ++ guarded s'.text t'.text }
  dropped : ∀ {s s' t t'}, S s s' → S t t' → S { t with text := s.text } { t' with text := s'.text }
  depth : ∀ {s s'}, S s s' → s.depth = s'.depth
  atDepth : ∀ n {s s'}, S s s' → S { s with depth := n } { s' with depth := n }

/-- Every step keeps equal states equal. -/
theorem State.stable_eq : State.Stable Eq Eq where
  text := by
    rintro t _ s _ rfl rfl
    rfl
  apart := by
    rintro s _ rfl
    rfl
  added := by
    rintro s _ t _ rfl rfl
    rfl
  dropped := by
    rintro s _ t _ rfl rfl
    rfl
  depth := congrArg State.depth
  atDepth := by
    rintro n s _ rfl
    rfl

/-- Two drafts whose writings, from related states on, end in related states and with related
    errors. -/
def Draft.Matches (w w' : Settings) (F : Error → Error → Prop) (S : State → State → Prop)
    (d d' : Draft) : Prop :=
  ∀ s s', S s s' → (d.write w s).Matched F S (d'.write w' s')

namespace State.Stable

open Draft (Matches)

variable {w w' : Settings} {F : Error → Error → Prop} {T : String → String → Prop}
  {S : State → State → Prop}

/-- **Rows and operands.** Drafts whose parts match do so themselves. -/
theorem congruence (hS : Stable T S) : Draft.Congruence T (Matches w w' F S) where
  empty := fun _ _ hs => ⟨hs, .none⟩
  text := fun ht _ _ hs => ⟨hS.text ht hs, .none⟩
  append := by
    intro a a' b b' ha hb s s' hs
    show Outcome.Matched F S ((Draft.append a b).write w s) ((Draft.append a' b').write w' s')
    simp only [Draft.write]
    rcases (ha s s' hs).done_or_failed with
      ⟨t, t', ht, ht', hstate⟩ | ⟨t, t', e, e', ht, ht', hstate, he⟩
    · rw [ht, ht']
      exact hb t t' hstate
    · rw [ht, ht']
      exact ⟨hstate, .some he⟩
  -- An operand is written apart and put back afterwards; one that fails loses its text, on both
  -- sides alike.
  operand := by
    intro d d' hd s s' hs
    simp only [Draft.write]
    rcases (hd _ _ (hS.apart hs)).done_or_failed with
      ⟨t, t', ht, ht', hstate⟩ | ⟨t, t', e, e', ht, ht', hstate, he⟩
    · rw [ht, ht']
      exact ⟨hS.added hs hstate, .none⟩
    · rw [ht, ht']
      exact ⟨hS.dropped hs hstate, .some he⟩

/-- A level under the same limit is entered in both writings or in neither. -/
theorem level (hS : Stable T S) (hlimit : w.maxDepth = w'.maxDepth)
    (hF : ∀ err, F err err) {d d' : Draft} (h : d.Matches w w' F S d') :
    (Draft.level d).Matches w w' F S (.level d') := by
  intro s s' hs
  have hentered := hS.atDepth (s.depth + 1) hs
  have hd := h _ _ hentered
  simp only [Draft.write, ← hS.depth hs, ← hlimit] at hd ⊢
  split
  · exact ⟨hentered, .some (hF _)⟩
  · refine ⟨?_, hd.error⟩
    simp only [← hS.depth hd.state]
    exact hS.atDepth _ hd.state

end State.Stable

/-- A relation between states that every single step of two writings keeps, for drafts whose fixed
    texts and constants are related one by one. -/
structure Settings.Simulates (w w' : Settings) (T : String → String → Prop)
    (R : Position × Constant → Position × Constant → Prop) (S : State → State → Prop) : Prop
    extends State.Stable T S where
  column : ∀ name {s s'}, S s s' → S (s.put (w.resolve name)) (s'.put (w'.resolve name))
  constant : ∀ {x x' s s'}, R x x' → S s s' →
    (Draft.writeConstant w x.1 x.2 s).Paired S (Draft.writeConstant w' x'.1 x'.2 s')
  limit : w.maxDepth = w'.maxDepth

namespace Draft

variable {w w' : Settings} {T : String → String → Prop}
  {R : Position × Constant → Position × Constant → Prop} {S : State → State → Prop}

/-- **Two writings side by side.** If single steps keep a relation between states, then so do the
    writings of two drafts of the same shape, and both are complete or both stop. -/
theorem write_simulates (hw : w.Simulates w' T R S) {d d' : Draft} (h : d.Alike T R d')
    {s s' : State} (hs : S s s') : (d.write w s).Paired S (d'.write w' s') := by
  -- Any two errors match here: what is kept of a failure is that both sides fail, and the states.
  have hrows : Congruence T (Matches w w' (fun _ _ => True) S) := hw.toStable.congruence
  have hmatches : d.Matches w w' (fun _ _ => True) S d' := by
    induction h with
    | empty => exact hrows.empty
    | text ht => exact hrows.text ht
    | column => exact fun _ _ hs => ⟨hw.column _ hs, .none⟩
    | constant hx => exact fun _ _ hs => (hw.constant hx hs).matched
    | append _ _ iha ihb => exact hrows.append iha ihb
    | operand _ ih => exact hrows.operand ih
    | level _ ih => exact hw.toStable.level hw.limit (fun _ => trivial) ih
    | fault => exact fun _ _ hs => ⟨hs, .some trivial⟩
  exact (hmatches s s' hs).paired

end Draft

end WhereClause
