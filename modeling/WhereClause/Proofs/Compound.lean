import WhereClause.Proofs.Outline

namespace WhereClause

/-!
# What a form is put together from

A form sets its operands between fixed texts. It uses every one of them, some several times, and
nothing else. Whatever adds up from left to right over a draft is therefore known for a form once it
is known for its operands, and this file says which these are.

* `Draft.Compound` — a draft is put together from others;
* `Sql.Compound` — the same for expressions, with one lemma for each form.
-/

namespace Draft

/-- A draft is put together from others and fixed texts. Each of the others is used, as often as it
    takes and in any order, in place or as an operand. -/
inductive Compound : List Draft → Draft → Prop
  | empty : Compound [] .empty
  | text {t : String} : Compound [] (.text t)
  | part {d : Draft} : Compound [d] d
  | operand {ds : List Draft} {d : Draft} : Compound ds d → Compound ds (.operand d)
  | append {ds es : List Draft} {a b : Draft} : Compound ds a → Compound es b →
      Compound (ds ++ es) (a ++ b)
  | of_mem_iff {ds es : List Draft} {d : Draft} : Compound ds d → (∀ t, t ∈ ds ↔ t ∈ es) →
      Compound es d

variable {ds : List Draft} {d : Draft}

/-- Fixed texts before and after add nothing. -/
theorem Compound.between (h : Compound ds d) (before after : String) :
    Compound ds (.text before ++ d ++ .text after) :=
  ((Compound.text.append h).append .text).of_mem_iff (by simp)

/-- Texts between drafts add nothing either. -/
theorem compound_join (separator : String) (ds : List Draft) :
    Compound ds (join separator ds) := by
  induction ds with
  | nil => exact .empty
  | cons d ds ih =>
    cases ds with
    | nil => exact .part
    | cons d' ds => exact ((Compound.part.append .text).append ih).of_mem_iff (by simp)

end Draft

namespace Sql

open Draft (compound_join)

/-- The operand that stands at a piece of a template. -/
private def operandAt? (ds : List Draft) : Piece → Option Draft
  | .text _ => none
  | .slot i => ds[i]?

/-- The pieces of a template are put together from the operands that they mention, each as often as
    it is mentioned. -/
private theorem compound_pieces {t pieces : Template} {ds : List Draft}
    (hfit : ∀ i, .slot i ∈ pieces → i < ds.length) :
    Draft.Compound (pieces.filterMap (operandAt? ds))
      (pieces.foldr (fun piece rest => pieceDraft t ds piece ++ rest) .empty) := by
  induction pieces with
  | nil => exact .empty
  | cons piece pieces ih =>
    have hrest := ih fun i hi => hfit i (List.mem_cons_of_mem _ hi)
    cases piece with
    | text s => exact Draft.Compound.text.append hrest
    | slot i =>
      have hi : i < ds.length := hfit i (by simp)
      rw [List.foldr_cons, pieceDraft, List.filterMap_cons, operandAt?, List.getElem?_eq_getElem hi]
      exact Draft.Compound.part.operand.append hrest

/-- A template that mentions all its operands and no others is put together from them. -/
theorem compound_formDraft {t : Template} {ds : List Draft} (ht : t.Sound ds.length) :
    Draft.Compound ds (formDraft t ds) := by
  -- Soundness says that every operand is mentioned, so the mentioned ones are all of them.
  refine (compound_pieces ht.2.1).of_mem_iff fun d => ?_
  rw [List.mem_filterMap]
  constructor
  · rintro ⟨piece, -, hd⟩
    cases piece with
    | text s => simp [operandAt?] at hd
    | slot i => exact List.mem_of_getElem? hd
  · intro hd
    obtain ⟨i, hi, rfl⟩ := List.getElem_of_mem hd
    exact ⟨.slot i, ht.2.2 i hi, List.getElem?_eq_getElem hi⟩

/-- A concatenation uses its parts in order, between tokens or as arguments. One part stands alone.
    -/
theorem compound_concatDraft (style : ConcatStyle) (ds : List Draft) :
    Draft.Compound ds (concatDraft style ds) := by
  -- Without parts an empty text is written, and one part stands as it is; only from two on the
  -- style of the dialect matters.
  rcases ds with _ | ⟨d, _ | ⟨d', ds⟩⟩
  · exact .text
  · exact .part
  · have hjoin := fun separator => compound_join separator (d :: d' :: ds)
    cases style with
    | infixed token => exact (hjoin token).between _ _
    | function name =>
      exact (((Draft.Compound.text.append .text).append (hjoin ", ")).append .text).of_mem_iff
        (by simp)

/-- A search in a list that is not empty is put together from the items and the needle. -/
theorem compound_inListDraft (needle : Draft) {ds : List Draft} (hds : ds ≠ []) :
    Draft.Compound (ds ++ [needle]) (inListDraft needle ds) := by
  cases ds with
  | nil => exact absurd rfl hds
  | cons d ds =>
    refine Draft.Compound.of_mem_iff ((((Draft.Compound.text.append .part).append .text).append
      (compound_join ", " (d :: ds))).append .text) fun t => ?_
    -- The needle is written first and listed last.
    simp [or_comm, or_left_comm]

/-- The tests and the values of branches, in order. -/
def branchParts (branches : List (Sql × Sql)) : List Sql :=
  branches.flatMap fun b => [b.1, b.2]

/-- Branches use their tests and their values. -/
theorem compound_draftBranches (branches : List (Sql × Sql)) :
    Draft.Compound ((branchParts branches).map draft) (draftBranches branches) := by
  induction branches with
  | nil => exact .empty
  | cons b branches ih =>
    obtain ⟨test, value⟩ := b
    refine Draft.Compound.of_mem_iff
      ((((Draft.Compound.text.append (.part (d := test.draft))).append .text).append
        (.part (d := value.draft))).append ih) fun t => ?_
    simp [branchParts]

/-! ### Expressions -/

/-- An expression is put together from others. -/
def Compound (ss : List Sql) (s : Sql) : Prop :=
  Draft.Compound (ss.map draft) s.draft

variable {ss : List Sql} {s : Sql}

/-- A form of a sound dialect uses all operands that it is given. -/
theorem compound_form {d : Rules} (hd : d.Sound) {t : Template} (hu : d.Uses t ss.length) :
    Compound ss (.form t ss) := by
  have ht : t.Sound (ss.map draft).length := by
    rw [List.length_map]
    exact hd.template hu
  show Draft.Compound (ss.map draft) (formDraft t (draftList ss))
  rw [draftList_eq_map]
  exact compound_formDraft ht

/-- A token before an operand. -/
theorem compound_prefixed (token : String) (s : Sql) : Compound [s] (.prefixed token s) :=
  Draft.Compound.text.append Draft.Compound.part.operand

/-- A token between two operands. -/
theorem compound_infixed (token : String) (l r : Sql) : Compound [l, r] (.infixed token l r) :=
  ((((((Draft.Compound.text.append .part).append .text).append .text).append .text).append
    .part).append .text).of_mem_iff (by simp)

/-- Parts of a concatenation. -/
theorem compound_concat (style : ConcatStyle) (ss : List Sql) : Compound ss (.concat style ss) := by
  show Draft.Compound (ss.map draft) (concatDraft style (draftList ss))
  rw [draftList_eq_map]
  exact compound_concatDraft style _

/-- Arguments of `COALESCE`. -/
theorem compound_coalesce (ss : List Sql) : Compound ss (.coalesce ss) := by
  show Draft.Compound (ss.map draft)
    (.text "COALESCE(" ++ Draft.join ", " (draftList ss) ++ .text ")")
  rw [draftList_eq_map]
  exact (compound_join ", " _).between _ _

/-- The items of a list that is not empty, and what is sought in it. -/
theorem compound_inList (needle : Sql) (hss : ss ≠ []) :
    Compound (ss ++ [needle]) (.inList needle ss) := by
  show Draft.Compound ((ss ++ [needle]).map draft) (inListDraft needle.draft (draftList ss))
  rw [draftList_eq_map, List.map_append]
  exact compound_inListDraft needle.draft (by simpa using hss)

/-- What is sought in an empty list is not written. -/
theorem compound_inList_nil (needle : Sql) : Compound [] (.inList needle []) :=
  Draft.Compound.text

/-- Tests and values of branches, and the value that stands for all other cases. -/
theorem compound_caseWhen (branches : List (Sql × Sql)) (otherwise : Sql) :
    Compound (branchParts branches ++ [otherwise]) (.caseWhen branches otherwise) :=
  ((((Draft.Compound.text.append (compound_draftBranches branches)).append .text).append
    .part).append .text).of_mem_iff (by simp)

end Sql

end WhereClause
