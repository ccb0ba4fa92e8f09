import WhereClause.Proofs.Outline
import WhereClause.Proofs.Written

namespace WhereClause

/-!
# Framed drafts as text

The outlines of a framed draft keep its parts apart. Whoever reads the text finds each segment as if
it stood alone, and parentheses close around every gap, whatever stands in it.

* `Status.Free` — a text may follow where the reader is;
* `Reads`, `Framed.read_eq` — a reader that takes single segments takes whole drafts;
* `Framed.depth_eq` — the depth of parentheses is that of the outline.
-/

/-! ### Single steps -/

namespace Status

/-- What is known of a text that may stand somewhere in an outline. -/
structure Admits (σ : Status) (cs : List Char) (σ' : Status) : Prop where
  ne_nil : cs ≠ []
  unmarked : isUnmarked '@' cs ∧ isUnmarked ':' cs
  apart : σ.isLoose → ∀ c ∈ cs.head?, isSticky c = false
  depth : depthAfter σ.depth (scan .outside cs) = some σ'.depth
  last : σ'.last = cs.getLast?

/-- A text is admitted where its lexemes are closed. -/
theorem admits_of_text {σ σ' : Status} {cs : List Char} (h : σ.text cs = some σ') :
    σ.Admits cs σ' := by
  unfold text at h
  split at h
  · next hcheck =>
    simp only [Bool.and_eq_true, Bool.not_eq_true', List.isEmpty_eq_false_iff] at hcheck
    obtain ⟨⟨⟨hne, hat⟩, hcolon⟩, hapart⟩ := hcheck
    obtain ⟨depth, hdepth, rfl⟩ := Option.map_eq_some_iff.mp h
    refine ⟨hne, ⟨hat, hcolon⟩, fun hloose c hc => ?_, hdepth, rfl⟩
    rw [hloose, Bool.true_and, Option.mem_def.mp hc] at hapart
    simpa using hapart
  · exact absurd h (by simp)

/-- A gap follows a text that is not loose, and leads to where nothing is known of the text. -/
theorem gap_eq_some {σ σ' : Status} {inPlace : Bool} (h : σ.gap inPlace = some σ') :
    σ.isLoose = false ∧ (inPlace → σ.last ≠ some '-') ∧ σ' = ⟨σ.depth, none⟩ := by
  unfold gap at h
  split at h
  · exact absurd h (by simp)
  · next hcheck =>
    simp only [Bool.or_eq_true, Bool.and_eq_true, decide_eq_true_eq, not_or, not_and,
      Bool.not_eq_true] at hcheck
    exact ⟨hcheck.1, hcheck.2, (Option.some.inj h).symm⟩

/-- A text may follow: nothing in front of it runs together with its first character. -/
def Free (σ : Status) (rest : List Char) : Prop :=
  σ.isLoose → ∀ c ∈ rest.head?, isSticky c = false

/-- What does not end in a quote may be followed by anything. -/
theorem free_of_not_loose {σ : Status} (h : σ.isLoose = false) (rest : List Char) : σ.Free rest :=
  fun hloose => absurd hloose (by simp [h])

/-- The end may follow anything. -/
theorem free_nil (σ : Status) : σ.Free [] := by simp [Free]

/-- What may follow a gap may follow anything. -/
theorem Free.of_gap {n : Nat} {rest : List Char} (h : Free ⟨n, none⟩ rest) (σ : Status) :
    σ.Free rest :=
  fun _ => h rfl

end Status

namespace Outline

/-- An outline of one part takes one step. -/
theorem run_singleton (σ : Status) (part : Part) : run σ [part] = σ.step part := by
  simp [run]

/-- A whole expression fills one gap. -/
theorem run_start_inPlace : run .start [.inPlace] = some ⟨0, none⟩ := rfl

end Outline

/-! ### Reading -/

variable {f : Spelling} {k : Outline} {d : Draft} {σ σ' : Status} {rest : List Char}

/-- What is written along an outline may follow where the outline begins. -/
theorem Framed.free (h : Framed k d) (hrun : Outline.run σ k = some σ') (hrest : σ'.Free rest)
    (b : Bool) : σ.Free ((Segment.write f.constant (d.segments f b)).toList ++ rest) := by
  -- A gap is admitted only where the status is not loose, and there anything may follow.
  have hgap : ∀ {inPlace : Bool} {σ σ' : Status} (cs : List Char), σ.gap inPlace = some σ' →
      σ.Free cs := fun cs h => Status.free_of_not_loose (Status.gap_eq_some h).1 cs
  induction h generalizing σ σ' rest b with
  | empty | blank =>
    obtain rfl : σ = σ' := Option.some.inj hrun
    simpa [Draft.segments] using hrest
  | text =>
    rw [Outline.run_singleton] at hrun
    have hadmits := Status.admits_of_text hrun
    intro hloose c hc
    refine hadmits.apart hloose c ?_
    simpa [Draft.segments, List.head?_append_of_ne_nil _ hadmits.ne_nil] using hc
  | column | constant | fault | level | operand | frame =>
    rw [Outline.run_singleton] at hrun
    exact hgap _ hrun
  | append _ _ iha ihb =>
    rw [Outline.run_append] at hrun
    obtain ⟨σ₁, hrun₁, hrun₂⟩ := Option.bind_eq_some_iff.mp hrun
    simp only [Draft.segments_append, Segment.write_append, String.toList_append, List.append_assoc]
    exact iha hrun₁ (ihb hrun₂ hrest _) b

/-- A reader takes single segments: fixed texts of outlines, columns with the property `C`, and
    constants with the property `M`, each as long as nothing follows that runs together with it. -/
structure Reads {β : Type} (f : Spelling) (C : String → Prop) (M : Position × Constant → Prop)
    (read : List Char → List β) (out : Segment (Position × Constant) → List β) : Prop where
  text : ∀ {σ σ' : Status} {t : String} {rest : List Char}, σ.step (.text t) = some σ' →
    σ'.Free rest → read (t.toList ++ rest) = out (.text t) ++ read rest
  column : ∀ {name rest}, C name → Status.Free ⟨0, none⟩ rest →
    read ((f.column name).toList ++ rest) = out (.text (f.column name)) ++ read rest
  constant : ∀ {x rest}, M x → Status.Free ⟨0, none⟩ rest →
    read ((f.constant x).toList ++ rest) = out (.mark x) ++ read rest

variable {β : Type} {C : String → Prop} {M : Position × Constant → Prop}
  {read : List Char → List β} {out : Segment (Position × Constant) → List β}

/-- **Segments are read apart.** A reader of single segments reads a framed draft segment by
    segment. -/
theorem Framed.read_eq (hR : Reads f C M read out) (h : Framed k d)
    (hC : ∀ name ∈ d.columns, C name) (hM : ∀ x ∈ d.constants, M x)
    (hrun : Outline.run σ k = some σ') (hrest : σ'.Free rest) (b : Bool) :
    read ((Segment.write f.constant (d.segments f b)).toList ++ rest) =
      (d.segments f b).flatMap out ++ read rest := by
  induction h generalizing σ σ' rest b with
  | empty | blank => simp [Draft.segments, Segment.ofText]
  | text ht =>
    rw [Outline.run_singleton] at hrun
    simpa [Draft.segments, Segment.ofText_of_ne ht, Segment.spelled] using hR.text hrun hrest
  | @column name =>
    obtain ⟨-, -, rfl⟩ := Status.gap_eq_some (Outline.run_singleton σ _ ▸ hrun)
    by_cases hname : f.column name = ""
    · simp [Draft.segments, hname, Segment.ofText]
    · simpa [Draft.segments, Segment.ofText_of_ne hname, Segment.spelled] using
        hR.column (hC _ (by simp [Draft.columns])) (hrest.of_gap _)
  | constant =>
    obtain ⟨-, -, rfl⟩ := Status.gap_eq_some (Outline.run_singleton σ _ ▸ hrun)
    simpa [Draft.segments, Segment.spelled] using
      hR.constant (hM _ (by simp [Draft.constants])) (hrest.of_gap _)
  | fault => simp [Draft.segments]
  | level _ ih => exact ih hC hM hrun hrest b
  | @operand d _ ih =>
    obtain ⟨-, -, rfl⟩ := Status.gap_eq_some (Outline.run_singleton σ _ ▸ hrun)
    simp only [Draft.segments]
    split
    · -- The parentheses around an operand are read like those of a form.
      have hopen : Status.start.step (.text "(") = some ⟨1, some '('⟩ := rfl
      have hclose : (Status.mk 1 none).step (.text ")") = some ⟨0, some ')'⟩ := rfl
      have hfree : ∀ n (c : Char) cs, c ≠ '\'' → Status.Free ⟨n, some c⟩ cs := fun n c cs hc =>
        Status.free_of_not_loose (by simp [Status.isLoose, hc]) cs
      have hparen : Status.Free ⟨0, none⟩ (")".toList ++ rest) := by
        intro _ c hc
        obtain rfl : ')' = c := by simpa using hc
        rfl
      simp only [List.cons_append, Segment.write_cons, Segment.write_append, Segment.write_nil,
        Segment.spelled, String.toList_append, String.append_empty, List.append_assoc,
        List.flatMap_cons, List.flatMap_append, List.flatMap_nil, List.nil_append]
      rw [hR.text hopen (hfree _ _ _ (by decide)), ih hC hM Outline.run_start_inPlace hparen false,
        hR.text hclose (hfree _ _ _ (by decide))]
    · exact ih hC hM Outline.run_start_inPlace (hrest.of_gap _) false
  | @append k l first second _ hsecond iha ihb =>
    rw [Outline.run_append] at hrun
    obtain ⟨σ₁, hrun₁, hrun₂⟩ := Option.bind_eq_some_iff.mp hrun
    simp only [Draft.segments_append, Segment.write_append, String.toList_append,
      List.append_assoc, List.flatMap_append]
    rw [iha (fun n hn => hC n (List.mem_append_left _ hn))
        (fun x hx => hM x (List.mem_append_left _ hx)) hrun₁ (hsecond.free hrun₂ hrest _) b,
      ihb (fun n hn => hC n (List.mem_append_right _ hn))
        (fun x hx => hM x (List.mem_append_right _ hx)) hrun₂ hrest _]
  | frame hsound _ ih =>
    obtain ⟨-, -, rfl⟩ := Status.gap_eq_some (Outline.run_singleton σ _ ▸ hrun)
    obtain ⟨last, hlast⟩ := hsound.exists_run
    exact ih hC hM hlast (hrest.of_gap _) b

/-! ### Parentheses -/

/-- **Parentheses close.** Counted in what is read of a framed draft, the depth of parentheses is
    that of the outline, if columns and constants have none or close their own. -/
theorem Framed.depth_eq {out : Segment (Position × Constant) → List Lexeme} (h : Framed k d)
    (htext : ∀ t, out (.text t) = scan .outside t.toList)
    (hC : ∀ name ∈ d.columns, depthAfter 0 (out (.text (f.column name))) = some 0)
    (hM : ∀ x ∈ d.constants, depthAfter 0 (out (.mark x)) = some 0)
    (hrun : Outline.run σ k = some σ') (b : Bool) :
    depthAfter σ.depth ((d.segments f b).flatMap out) = some σ'.depth := by
  -- What is closed in itself leaves any depth as it is.
  have hclosed : ∀ {ls : List Lexeme} {inPlace : Bool} {σ σ' : Status},
      depthAfter 0 ls = some 0 → σ.gap inPlace = some σ' →
      depthAfter σ.depth ls = some σ'.depth := by
    intro ls inPlace σ σ' hls hgap
    obtain ⟨-, -, rfl⟩ := Status.gap_eq_some hgap
    simpa using depthAfter_add hls σ.depth
  induction h generalizing σ σ' b with
  | empty | blank =>
    obtain rfl : σ = σ' := Option.some.inj hrun
    simp [Draft.segments, Segment.ofText, depthAfter]
  | text ht =>
    rw [Outline.run_singleton] at hrun
    simpa [Draft.segments, Segment.ofText_of_ne ht, htext] using
      (Status.admits_of_text hrun).depth
  | @column name =>
    rw [Outline.run_singleton] at hrun
    refine hclosed ?_ hrun
    by_cases hname : f.column name = ""
    · simp [Draft.segments, hname, Segment.ofText, depthAfter]
    · simpa [Draft.segments, Segment.ofText_of_ne hname] using hC _ (by simp [Draft.columns])
  | constant =>
    rw [Outline.run_singleton] at hrun
    exact hclosed (by simpa [Draft.segments] using hM _ (by simp [Draft.constants])) hrun
  | fault =>
    rw [Outline.run_singleton] at hrun
    exact hclosed (by simp [Draft.segments, depthAfter]) hrun
  | level _ ih => exact ih hC hM hrun b
  | operand _ ih =>
    rw [Outline.run_singleton] at hrun
    have hinner : depthAfter 0 ((Draft.segments f false _).flatMap out) = some 0 :=
      ih hC hM Outline.run_start_inPlace false
    refine hclosed ?_ hrun
    simp only [Draft.segments]
    split
    · have hopen : depthAfter 0 (out (.text "(")) = some 1 := by rw [htext]; rfl
      have hclose : depthAfter 1 (out (.text ")")) = some 0 := by rw [htext]; rfl
      simp only [List.cons_append, List.flatMap_cons, List.flatMap_append, List.flatMap_nil,
        List.append_nil, depthAfter_append, hopen, Option.bind_some]
      rw [show depthAfter 1 _ = some 1 from depthAfter_add hinner 1]
      exact hclose
    · exact hinner
  | append _ _ iha ihb =>
    rw [Outline.run_append] at hrun
    obtain ⟨σ₁, hrun₁, hrun₂⟩ := Option.bind_eq_some_iff.mp hrun
    simp only [Draft.segments_append, List.flatMap_append, depthAfter_append]
    rw [iha (fun n hn => hC n (List.mem_append_left _ hn))
      (fun x hx => hM x (List.mem_append_left _ hx)) hrun₁ b, Option.bind_some]
    exact ihb (fun n hn => hC n (List.mem_append_right _ hn))
      (fun x hx => hM x (List.mem_append_right _ hx)) hrun₂ _
  | frame hsound _ ih =>
    rw [Outline.run_singleton] at hrun
    obtain ⟨last, hlast⟩ := hsound.exists_run
    exact hclosed (ih hC hM hlast b) hrun

end WhereClause
