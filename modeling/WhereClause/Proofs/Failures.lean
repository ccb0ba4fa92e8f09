import WhereClause.Proofs.Compound
import WhereClause.Proofs.Written

namespace WhereClause

/-!
# Why a writing fails

A writing stops at the first part of the draft that cannot be written. That part is a fault, or a
level above the limit, or a constant which has no literal and is not bound, or which is bound and
has no counterpart in the database. A writing that meets none of these comes to its end.

* `Draft.faults`, `Draft.levels` — the faults of a draft, and how deep its levels go;
* `Draft.Failure`, `Draft.failure_of_write` — the ways to fail, and that there are no others;
* `Settings.exists_query` — a tree whose draft has no way to fail has a query.
-/

namespace Draft

/-- The errors at the faults of a draft, from left to right. -/
def faults : Draft → List Error
  | append first second => faults first ++ faults second
  | operand d => faults d
  | level d => faults d
  | fault e => [e]
  | _ => []

/-- The greatest number of levels of a draft that lie inside one another. -/
def levels : Draft → Nat
  | append first second => Nat.max (levels first) (levels second)
  | operand d => levels d
  | level d => levels d + 1
  | _ => 0

/-- A draft holds no fault if it lists none. -/
theorem isFaultless_iff {d : Draft} : d.isFaultless ↔ d.faults = [] := by
  induction d with
  | append first second ih₁ ih₂ => simp [isFaultless, faults, ih₁, ih₂]
  | operand d ih => exact ih
  | level d ih => exact ih
  | fault e => simp [isFaultless, faults]
  | empty | text | column | constant => simp [isFaultless, faults]

/-! ### Drafts put together from others -/

variable {ds : List Draft} {d : Draft}

/-- The faults of a compound are those of its parts. -/
theorem Compound.mem_faults_iff (h : Compound ds d) {err : Error} :
    err ∈ d.faults ↔ ∃ t ∈ ds, err ∈ t.faults := by
  induction h with
  | empty | text => simp [faults]
  | part => simp
  | operand _ ih => exact ih
  | @append ds es a b _ _ iha ihb =>
    show err ∈ a.faults ++ b.faults ↔ _
    rw [List.mem_append, iha, ihb]
    simp only [List.mem_append, or_and_right, exists_or]
  | of_mem_iff _ hmem ih =>
    rw [ih]
    simp only [hmem]

/-- A compound goes no deeper than its parts. -/
theorem Compound.levels_le (h : Compound ds d) {n : Nat} (hn : ∀ t ∈ ds, t.levels ≤ n) :
    d.levels ≤ n := by
  induction h with
  | empty | text => exact Nat.zero_le n
  | part => exact hn _ (by simp)
  | operand _ ih => exact ih hn
  | append _ _ iha ihb =>
    exact Nat.max_le.mpr ⟨iha fun t ht => hn t (List.mem_append_left _ ht),
      ihb fun t ht => hn t (List.mem_append_right _ ht)⟩
  | of_mem_iff _ hmem ih => exact ih fun t ht => hn t ((hmem t).mp ht)

/-! ### Failures -/

/-- The ways in which a draft can fail if it is written when `depth` levels have been entered. -/
inductive Failure (w : Settings) (depth : Nat) (d : Draft) : Error → Prop
  | fault {err : Error} : err ∈ d.faults → Failure w depth d err
  | nesting : w.maxDepth < depth + d.levels →
      Failure w depth d (.malformed (.nesting w.maxDepth))
  | literal {x : Position × Constant} : x ∈ d.constants → w.mode.binds x.2.value = false →
      w.rules.literal x.2.value = none →
      Failure w depth d (.unsupported w.rules.name x.2.value.text)
  | type {x : Position × Constant} : x ∈ d.constants → w.mode.binds x.2.value →
      w.rules.types.resolve? x.2.host = none →
      Failure w depth d (.typeResolution x.2.host.kind.text)

variable {w : Settings} {s s' : State} {err : Error}

/-- A draft fails in every way in which a part of it does. -/
theorem Failure.of_part {part : Draft} {depth depth' : Nat} (h : part.Failure w depth err)
    (hfaults : ∀ e ∈ part.faults, e ∈ d.faults) (hconstants : ∀ x ∈ part.constants, x ∈ d.constants)
    (hlevels : depth + part.levels ≤ depth' + d.levels) : d.Failure w depth' err := by
  cases h with
  | fault hf => exact .fault (hfaults _ hf)
  | nesting hn => exact .nesting (by omega)
  | literal hx hb hl => exact .literal (hconstants _ hx) hb hl
  | type hx hb ht => exact .type (hconstants _ hx) hb ht

/-- A constant fails for want of a literal or of a type. -/
theorem failure_of_writeConstant {place : Position} {c : Constant}
    (h : writeConstant w place c s = ⟨s', some err⟩) :
    (constant place c).Failure w s.depth err := by
  have hmem : (place, c) ∈ (constant place c).constants := List.mem_singleton.mpr rfl
  simp only [writeConstant] at h
  split at h
  · next hbinds =>
    split at h
    · exact absurd (congrArg Outcome.error? h) (by simp [Outcome.done])
    · next e b he =>
      obtain rfl : e = err := Option.some.inj (congrArg Outcome.error? h)
      -- Only a place that is new can fail to be bound.
      obtain ⟨-, hresolve, rfl⟩ := Bindings.resolve?_of_bind_error he
      exact .type hmem hbinds hresolve
  · next hbinds =>
    split at h
    · exact absurd (congrArg Outcome.error? h) (by simp [Outcome.done])
    · next hliteral =>
      obtain rfl := Option.some.inj (congrArg Outcome.error? h)
      exact .literal hmem (by simpa using hbinds) hliteral

/-- **Why a writing fails.** Its error is a fault of the draft, or says that a level is above the
    limit, or that a constant of the draft has no literal or no type. -/
theorem failure_of_write (h : d.write w s = ⟨s', some err⟩) : d.Failure w s.depth err := by
  induction d generalizing s s' with
  | empty | text | column =>
    exact absurd (congrArg Outcome.error? h) (by simp [write, Outcome.done])
  | constant place c => exact failure_of_writeConstant h
  | append first second ih₁ ih₂ =>
    have hleft : first.levels ≤ (append first second).levels := Nat.le_max_left _ _
    have hright : second.levels ≤ (append first second).levels := Nat.le_max_right _ _
    simp only [write] at h
    split at h
    · next s₁ h₁ =>
      -- The second part is written from the level at which the first one began.
      have hdepth : s₁.depth = s.depth := (written_of_write h₁).depth_eq
      exact (ih₂ h).of_part (fun e he => List.mem_append_right _ he)
        (fun x hx => List.mem_append_right _ hx) (by omega)
    · next s₁ e h₁ =>
      obtain rfl : e = err := Option.some.inj (congrArg Outcome.error? h)
      exact (ih₁ h₁).of_part (fun e he => List.mem_append_left _ he)
        (fun x hx => List.mem_append_left _ hx) (by omega)
  | operand d ih =>
    simp only [write] at h
    split at h
    · exact absurd (congrArg Outcome.error? h) (by simp [Outcome.done])
    · next s₁ e h₁ =>
      obtain rfl : e = err := Option.some.inj (congrArg Outcome.error? h)
      exact (ih h₁).of_part (fun _ => id) (fun _ => id) (Nat.le_refl _)
  | level d ih =>
    have hlevels : (level d).levels = d.levels + 1 := rfl
    simp only [write] at h
    split at h
    · next hdepth =>
      obtain rfl := Option.some.inj (congrArg Outcome.error? h)
      exact .nesting (by omega)
    · have herror : (d.write w { s with depth := s.depth + 1 }).error? = some err :=
        congrArg Outcome.error? h
      have hwrite : d.write w { s with depth := s.depth + 1 } =
          ⟨(d.write w { s with depth := s.depth + 1 }).state, some err⟩ := by rw [← herror]
      have hinner := ih hwrite
      refine hinner.of_part (fun _ => id) (fun _ => id) ?_
      show s.depth + 1 + d.levels ≤ s.depth + (level d).levels
      omega
  | fault e =>
    obtain rfl : e = err := Option.some.inj (congrArg Outcome.error? h)
    exact .fault (List.mem_singleton.mpr rfl)

end Draft

namespace Settings

variable {w : Settings} {e : Expr}

/-- A query that fails does so in one of the ways in which its draft can. -/
theorem failure_of_query {err : Error} (h : w.query e = .error err) :
    (e.predicate w.rules (.root 0)).draft.Failure w 0 err := by
  simp only [query, queryFrom, State.writePredicate] at h
  split at h
  · exact absurd h (by simp)
  · next s err' hwrite =>
    obtain rfl := Except.error.inj h
    exact Draft.failure_of_write hwrite

/-- A tree whose draft has no way to fail has a query. -/
theorem exists_query (h : ∀ err, ¬ (e.predicate w.rules (.root 0)).draft.Failure w 0 err) :
    ∃ q, w.query e = .ok q := by
  cases hq : w.query e with
  | ok q => exact ⟨q, rfl⟩
  | error err => exact absurd (failure_of_query hq) (h err)

end Settings

end WhereClause
