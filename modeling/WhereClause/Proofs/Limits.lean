import WhereClause.Expr.Build
import WhereClause.Proofs.Sessions
import WhereClause.Proofs.Shapes

namespace WhereClause

/-!
# The nesting limit

The limit is looked at only where a level is entered, and all it can do there is to stop the
writing. A result that does not speak of the limit is therefore the result under every higher one,
and under a lower one there is this result or the refusal. How deep the levels go is bounded by the
height of the tree, although conversions, chains and repeated operands enter them at other places
than the nodes they belong to.

* `Draft.write_of_le` — a writing that stays within one limit is the same under every higher one;
* `Renderer.queryWithin` — the query of a tree under a given limit;
* `Renderer.queryWithin_limits` — what the results under different limits have to do with each
  other.
-/

namespace Draft

variable {w : Settings} {d : Draft} {limit : Nat}

/-- **Higher limits.** A writing that stays within its limit, whether it succeeds or not, is the
    same under every higher limit. -/
theorem write_of_le (hle : w.maxDepth ≤ limit) {s : State} (h : (d.write w s).exceeds = false) :
    d.write { w with maxDepth := limit } s = d.write w s := by
  induction d generalizing s with
  | empty | text | column | constant | fault => rfl
  | append first second ih₁ ih₂ =>
    simp only [write] at h ⊢
    -- If the first part stopped at the limit, then the whole did.
    have hfirst : (first.write w s).exceeds = false := by
      rcases ho : first.write w s with ⟨s₁, _ | err⟩
      · rfl
      · rw [ho] at h
        exact h
    rw [ih₁ hfirst]
    rcases ho : first.write w s with ⟨s₁, _ | err⟩
    · rw [ho] at h
      exact ih₂ h
    · rfl
  | operand d ih =>
    simp only [write] at h ⊢
    have hinner : (d.write w { s with text := "" }).exceeds = false := by
      rcases ho : d.write w { s with text := "" } with ⟨s₁, _ | err⟩
      · rfl
      · rw [ho] at h
        exact h
    rw [ih hinner]
  | level d ih =>
    simp only [write] at h ⊢
    by_cases hlimit : w.maxDepth < s.depth + 1
    · -- Here the limit stops the writing, which was ruled out.
      rw [if_pos hlimit] at h
      exact absurd h (by simp [Outcome.exceeds, Outcome.failed, Error.isNesting])
    · rw [if_neg hlimit] at h
      rw [if_neg hlimit, if_neg (by omega), ih h]

end Draft

/-- A query that does not stop at its limit is the same under every higher limit. -/
theorem Settings.query_of_le {w : Settings} {e : Expr} {limit : Nat} (hle : w.maxDepth ≤ limit)
    (h : ∀ err, w.query e = .error err → err.isNesting = false) :
    { w with maxDepth := limit }.query e = w.query e := by
  have hexceeds : ((e.predicate w.rules (.root 0)).draft.write w .initial).exceeds = false := by
    rcases ho : (e.predicate w.rules (.root 0)).draft.write w .initial with ⟨s, _ | err⟩
    · rfl
    · exact h err (query_of_write_error ho)
  simp only [query, queryFrom, State.writePredicate]
  rw [Draft.write_of_le hle hexceeds]

namespace Renderer

/-- The query of a tree in a mode, under a given nesting limit in place of the renderer's own. -/
def queryWithin (r : Renderer) (mode : Mode) (e : Expr) (limit : Nat) : Except Error Query :=
  ({ r with maxDepth := limit }.settings mode).query e

variable {r : Renderer} {mode : Mode} {e : Expr} {limit : Nat}

/-- Whoever speaks of nesting speaks of the limit in force, and of a tree that is higher. -/
theorem eq_nesting_of_queryWithin {err : Error} (h : r.queryWithin mode e limit = .error err)
    (hnesting : err.isNesting) : err = .malformed (.nesting limit) ∧ limit < e.height := by
  cases err with
  | malformed cause =>
    rcases exists_fault_of_malformed h with ⟨rfl, hheight⟩ | ⟨n, -, hfault⟩
    · exact ⟨rfl, hheight⟩
    · -- The faults of nodes have other reasons.
      rw [Expr.isNesting_of_fault? hfault] at hnesting
      exact absurd hnesting (by simp)
  | _ => exact absurd hnesting (by simp [Error.isNesting])

/-- A result that is not the refusal at its limit is the result under every higher limit. -/
theorem queryWithin_of_le {limit' : Nat} (hle : limit ≤ limit')
    (h : r.queryWithin mode e limit ≠ .error (.malformed (.nesting limit))) :
    r.queryWithin mode e limit' = r.queryWithin mode e limit := by
  refine Settings.query_of_le (w := { r with maxDepth := limit }.settings mode) hle ?_
  intro err herr
  by_contra hnesting
  rw [Bool.not_eq_false] at hnesting
  obtain ⟨rfl, -⟩ := eq_nesting_of_queryWithin herr hnesting
  exact h herr

/-- **The limit only cuts.** A result that is not the refusal of a tree as nested too deeply is the
    result under every higher limit as well, and under a lower limit there is either this result or
    the refusal, which names that limit. A limit of at least the height of the tree never leads to
    the refusal. -/
theorem queryWithin_limits (r : Renderer) (mode : Mode) (e : Expr) :
    let refusal (limit : Nat) : Except Error Query := .error (.malformed (.nesting limit))
    (∀ limit, r.queryWithin mode e limit ≠ refusal limit →
      (∀ higher, limit ≤ higher →
        r.queryWithin mode e higher = r.queryWithin mode e limit) ∧
      ∀ lower, lower < limit →
        r.queryWithin mode e lower = r.queryWithin mode e limit ∨
          r.queryWithin mode e lower = refusal lower) ∧
    (∀ limit, e.height ≤ limit → ∀ other, r.queryWithin mode e limit ≠ refusal other) ∧
    ∀ limit, (Malformed.nesting limit).message =
      "expression nesting exceeds " ++ limit.repr ++ " levels" := by
  intro refusal
  refine ⟨?_, ?_, fun _ => rfl⟩
  · intro limit hlimit
    refine ⟨fun higher hle => queryWithin_of_le hle hlimit, ?_⟩
    intro lower hlt
    by_cases hlower : r.queryWithin mode e lower = refusal lower
    · exact .inr hlower
    · exact .inl (queryWithin_of_le (Nat.le_of_lt hlt) hlower).symm
  · intro limit hheight other hother
    obtain ⟨-, hlt⟩ := eq_nesting_of_queryWithin hother rfl
    omega

/-- A chain of alternatives to null is written on one level, so that a tree of height five needs
    three levels. -/
theorem queryWithin_limits_chain :
    let r := Renderer.of .generic
    let column name := Build.column name .integer
    let e := Build.binary .greaterThan
      (Build.binary .coalesce (column "A")
        (Build.binary .coalesce (column "B") (Build.binary .coalesce (column "C") (column "D"))))
      (column "E")
    let q : Query := ⟨"(COALESCE(A, B, C, D) > E)", []⟩
    e.height = 5 ∧ r.queryWithin .inline e 3 = .ok q ∧
      (∀ higher, 3 ≤ higher → r.queryWithin .inline e higher = .ok q) ∧
      r.queryWithin .inline e 2 = .error (.malformed (.nesting 2)) := by
  intro r column e q
  have hresults : r.queryWithin .inline e 3 = .ok q ∧
      r.queryWithin .inline e 2 = .error (.malformed (.nesting 2)) := by decide +kernel
  obtain ⟨hthree, htwo⟩ := hresults
  obtain ⟨hhigher, -⟩ := (queryWithin_limits r .inline e).1 3 (by simp [hthree])
  exact ⟨by decide, hthree, fun higher hle => (hhigher higher hle).trans hthree, htwo⟩

end Renderer

end WhereClause
