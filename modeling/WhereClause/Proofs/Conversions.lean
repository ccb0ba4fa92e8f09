import WhereClause.Proofs.Limits
import WhereClause.Proofs.Relocation

namespace WhereClause

/-!
# Conversions

A conversion is written as its operand. It makes neither a condition of a value nor a value of a
condition, whatever kinds it goes through, so that a chain of conversions never adds a coercion to
the one that its operand needs. All that it costs is a level for each of them, and under a limit
that is higher by as many levels everything is as if they were not there.

* `Expr.converted` — a tree inside some conversions;
* `Error.SameButLimit` — errors that differ at most in the limit they name;
* `Draft.level_matches` — one more level under a limit that is higher by one;
* `Expr.conversion_matches`, `Expr.converted_matches` — one conversion, and a chain of them;
* `Renderer.query_converted` — visits of such trees in both roles, and whole queries.
-/

/-- A tree inside conversions to some kinds, the outermost first. -/
def Expr.converted (kinds : List ValueKind) (e : Expr) : Expr :=
  kinds.foldr (fun k e => .unary k .convert e) e

/-- Two errors that are the same, except perhaps for the limit that a refusal names. -/
def Error.SameButLimit (err err' : Error) : Prop :=
  err = err' ∨ (err.isNesting ∧ err'.isNesting)

/-- Errors that differ in their limits from a third differ in limits only. -/
theorem Error.SameButLimit.trans {a b c : Error} (h : a.SameButLimit b) (h' : b.SameButLimit c) :
    a.SameButLimit c := by
  rcases h with rfl | ⟨ha, hb⟩
  · exact h'
  · rcases h' with rfl | ⟨-, hc⟩
    · exact .inr ⟨ha, hb⟩
    · exact .inr ⟨ha, hc⟩

/-- Settings with another limit. -/
def Settings.within (w : Settings) (limit : Nat) : Settings := { w with maxDepth := limit }

namespace Draft

/-- Two drafts that are written alike, each under its own limit. -/
abbrev Within (w : Settings) (limit limit' : Nat) : Draft → Draft → Prop :=
  Matches (w.within limit) (w.within limit') Error.SameButLimit Eq

variable {w : Settings} {limit limit' limit'' : Nat} {d d' d'' : Draft}

/-- Steps between limits add up. -/
theorem Within.trans (h : Within w limit limit' d d') (h' : Within w limit' limit'' d' d'') :
    Within w limit limit'' d d'' := by
  rintro s _ rfl
  obtain ⟨hstate, herror⟩ := h s s rfl
  obtain ⟨hstate', herror'⟩ := h' s s rfl
  refine ⟨hstate.trans hstate', ?_⟩
  generalize (d.write (w.within limit) s).error? = a at herror ⊢
  generalize (d'.write (w.within limit') s).error? = b at herror herror'
  generalize (d''.write (w.within limit'') s).error? = c at herror' ⊢
  cases herror with
  | none => exact herror'
  | some hab =>
    cases herror' with
    | some hbc => exact .some (hab.trans hbc)

/-- **One more level.** Entering a level twice under a limit that is higher by one is entering it
    once: it is refused in the same cases, and counted once if it is. -/
theorem level_matches (hfaults : ∀ err ∈ d.faults, err.isNesting = false) :
    Within w limit (limit + 1) (.level d) (.level (.level d)) := by
  rintro s _ rfl
  by_cases hlimit : limit + 1 < s.depth + 1
  · -- The outer level is refused, and so is the single one.
    have hsingle : limit < s.depth + 1 := by omega
    simp only [write, Settings.within, hlimit, hsingle, if_true]
    exact ⟨rfl, .some (.inr ⟨rfl, rfl⟩)⟩
  · have hlifted : ((level d).write (w.within limit) s).Lifted 1
        ((level d).write (w.within (limit + 1)) (s.lifted 1)) :=
      write_lifted (w := w.within (limit + 1)) (d := level d) hfaults s 1
    have houter : (level (level d)).write (w.within (limit + 1)) s =
        ⟨{ ((level d).write (w.within (limit + 1)) (s.lifted 1)).state with
            depth := ((level d).write (w.within (limit + 1)) (s.lifted 1)).state.depth - 1 },
          ((level d).write (w.within (limit + 1)) (s.lifted 1)).error?⟩ := by
      have hentered : ¬ (w.within (limit + 1)).maxDepth < s.depth + 1 := hlimit
      rw [write, if_neg hentered]
      rfl
    rw [houter, hlifted.state]
    exact ⟨rfl, hlifted.error⟩

/-- A template is written alike if its operand is. -/
theorem within_form (t : Template) (h : Within w limit limit' d d') :
    Within w limit limit' (Sql.formDraft t [d]) (Sql.formDraft t [d']) := by
  have hrows : Congruence Eq (Within w limit limit') := State.stable_eq.congruence
  refine Sql.formDraft_related hrows (Sql.pieces_alike_refl (fun _ => rfl) t) (fun i => ?_)
    (.cons h .nil)
  rintro s _ rfl
  exact ⟨rfl, .some (.inl rfl)⟩

end Draft

namespace Expr

variable {d : Dialect} {w : Settings}

/-- No fault of a layout is about its height. -/
theorem isNesting_of_mem_natural_faults (d : Dialect) (e : Expr) (p : Position) :
    ∀ err ∈ (e.layout d.rules p).natural.draft.faults, err.isNesting = false := by
  intro err herr
  obtain ⟨n, -, hn⟩ := (e.layout_explained d.sound d.complete p).natural.cause _
    (List.mem_singleton.mpr rfl) err herr
  exact isNesting_of_fault? hn

/-- **One conversion.** In both roles a conversion is written as its operand is under a limit that
    is lower by one. -/
theorem conversion_matches (hw : w.rules = d.rules) (k : ValueKind) (e : Expr) (p : Position)
    (limit : Nat) :
    Draft.Within w limit (limit + 1) (e.predicate w.rules (p.child 0)).draft
        ((unary k .convert e).predicate w.rules p).draft ∧
      Draft.Within w limit (limit + 1) (e.value w.rules (p.child 0)).draft
        ((unary k .convert e).value w.rules p).draft := by
  have hnatural : Draft.Within w limit (limit + 1) (e.layout w.rules (p.child 0)).natural.draft
      ((unary k .convert e).layout w.rules p).natural.draft := by
    show Draft.Within w limit (limit + 1) _ (.level (e.layout w.rules (p.child 0)).natural.draft)
    have hfaults := isNesting_of_mem_natural_faults d e (p.child 0)
    rw [← hw] at hfaults
    obtain ⟨body, hbody⟩ := exists_natural_eq w.rules (p.child 0) e
    rw [hbody] at hfaults ⊢
    exact Draft.level_matches hfaults
  -- A conversion is a condition if its operand is one, so both need the same coercion or none.
  have hsame : (unary k .convert e).isPredicate = e.isPredicate := rfl
  rw [predicate_eq, predicate_eq, value_eq, value_eq, hsame]
  cases e.isPredicate with
  | false => exact ⟨Draft.within_form _ hnatural, hnatural⟩
  | true => exact ⟨hnatural, Draft.within_form _ hnatural⟩

/-- **A chain of conversions.** In both roles it is written as the tree inside it is under a limit
    that is lower by their number. -/
theorem converted_matches (hw : w.rules = d.rules) (kinds : List ValueKind) (e : Expr)
    (p : Position) (limit : Nat) :
    let inner := p.descend (List.replicate kinds.length 0)
    Draft.Within w limit (limit + kinds.length) (e.predicate w.rules inner).draft
        ((e.converted kinds).predicate w.rules p).draft ∧
      Draft.Within w limit (limit + kinds.length) (e.value w.rules inner).draft
        ((e.converted kinds).value w.rules p).draft := by
  induction kinds generalizing p with
  | nil =>
    have hrefl : ∀ a : Draft, Draft.Within w limit limit a a := by
      rintro a s _ rfl
      refine ⟨rfl, ?_⟩
      cases (a.write (w.within limit) s).error? with
      | none => exact .none
      | some err => exact .some (.inl rfl)
    exact ⟨hrefl _, hrefl _⟩
  | cons k kinds ih =>
    obtain ⟨hpredicate, hvalue⟩ := ih (p.child 0)
    obtain ⟨hpredicate', hvalue'⟩ :=
      conversion_matches hw k (e.converted kinds) p (limit + kinds.length)
    have hinner : (p.child 0).descend (List.replicate kinds.length 0) =
        p.descend (List.replicate (kinds.length + 1) 0) := by
      rw [Position.child_descend, ← List.replicate_succ']
    rw [hinner] at hpredicate hvalue
    exact ⟨hpredicate.trans hpredicate', hvalue.trans hvalue'⟩

end Expr

namespace Renderer

/-- **Conversions do not show.** In any state, a tree inside conversions is written as a condition
    or as a value in the same way as the tree itself under a limit that is lower by the number of
    the conversions: the same text and parameters are added, or the same error stops it and leaves
    the same state. Only the limit that a refusal names is another. The same holds for whole
    queries. -/
theorem query_converted (r : Renderer) (mode : Mode) (kinds : List ValueKind) (e : Expr)
    (limit : Nat) :
    let w := { r with maxDepth := limit }.settings mode
    let w' := { r with maxDepth := limit + kinds.length }.settings mode
    (∀ (s : State) (p : Position),
      let inner := p.descend (List.replicate kinds.length 0)
      (s.writePredicate w inner e).Matched Error.SameButLimit Eq
          (s.writePredicate w' p (e.converted kinds)) ∧
        (s.writeValue w inner e).Matched Error.SameButLimit Eq
          (s.writeValue w' p (e.converted kinds))) ∧
    ((∃ q, w.query e = .ok q ∧ w'.query (e.converted kinds) = .ok q) ∨
      ∃ err err', w.query e = .error err ∧ w'.query (e.converted kinds) = .error err' ∧
        err.SameButLimit err') := by
  intro w w'
  have hmatches := Expr.converted_matches (d := r.dialect) (w := w) rfl kinds e
  refine ⟨fun s p => ?_, ?_⟩
  · obtain ⟨hpredicate, hvalue⟩ := hmatches p limit
    exact ⟨hpredicate s s rfl, hvalue s s rfl⟩
  · -- The tree inside stands at another place than the tree alone, which makes no difference.
    have hplace := w.queryFrom_initial_eq e (.root 0)
      ((Position.root 0).descend (List.replicate kinds.length 0))
    obtain ⟨hpredicate, -⟩ := hmatches (.root 0) limit
    have hlimit : w.within limit = w := rfl
    rw [Settings.query, hplace, Settings.queryFrom, State.writePredicate]
    rcases (hpredicate .initial .initial rfl).done_or_failed with
      ⟨s, _, hs, hs', rfl⟩ | ⟨s, s', err, err', hs, hs', -, herr⟩
    · rw [hlimit] at hs
      exact .inl ⟨⟨s.text, s.bindings.parameters⟩, by rw [hs], Settings.query_of_write hs'⟩
    · rw [hlimit] at hs
      exact .inr ⟨err, err', by rw [hs], Settings.query_of_write_error hs', herr⟩

end Renderer

end WhereClause
