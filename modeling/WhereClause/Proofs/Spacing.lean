import Mathlib.Data.List.Chain
import WhereClause.Proofs.Outline
import WhereClause.Proofs.Written

namespace WhereClause

/-!
# Texts without comments

Two hyphens, or a slash and an asterisk, open a comment. They can meet inside a text or where two
texts meet. No fixed text of a form holds them, and the fixed texts around a gap do not end or begin
so that they could meet with what fills it; only a hyphen may stand before an operand, which is then
set in parentheses if it begins with another one.

* `CommentFree` — a text in which no comment opens;
* `Outline.border`, `Outline.IsSpaced` — the check that the texts of an outline keep this;
* `Spaced`, `Spaced.commentFree` — a draft made of such outlines is written without comments;
* `Rules.Spaced`, `Expr.spaced` — then so is every tree.
-/

/-! ### Comments -/

/-- Two characters that open a comment. -/
def opensComment (a b : Char) : Bool := (a == '-' && b == '-') || (a == '/' && b == '*')

/-- No two characters of a text that follow each other open a comment. -/
def CommentFree (cs : List Char) : Prop := cs.IsChain fun a b => opensComment a b = false

instance (cs : List Char) : Decidable (CommentFree cs) :=
  inferInstanceAs (Decidable (List.IsChain _ _))

/-- A text is free of comments if neither of the two openers is a part of it. -/
theorem commentFree_iff {cs : List Char} :
    CommentFree cs ↔ ¬ ['-', '-'] <:+: cs ∧ ¬ ['/', '*'] <:+: cs := by
  constructor
  · intro h
    have hpart : ∀ a b, [a, b] <:+: cs → opensComment a b = false := by
      intro a b hab
      have hchain : CommentFree [a, b] := List.IsChain.infix h hab
      exact (List.isChain_cons_cons.mp hchain).1
    exact ⟨fun hab => absurd (hpart _ _ hab) (by decide),
      fun hab => absurd (hpart _ _ hab) (by decide)⟩
  · rintro ⟨hdash, hslash⟩
    refine List.isChain_iff_forall_rel_of_append_cons_cons.mpr ?_
    rintro a b before after rfl
    have hpart : [a, b] <:+: before ++ a :: b :: after := ⟨before, after, by simp⟩
    by_contra hopens
    rw [Bool.not_eq_false, opensComment] at hopens
    simp only [Bool.or_eq_true, Bool.and_eq_true, beq_iff_eq] at hopens
    rcases hopens with ⟨rfl, rfl⟩ | ⟨rfl, rfl⟩
    · exact hdash hpart
    · exact hslash hpart

/-- A comment opens with a hyphen or a slash. -/
theorem opensComment_of_left {a : Char} (ha : a ≠ '-' ∧ a ≠ '/') (b : Char) :
    opensComment a b = false := by
  simp [opensComment, ha.1, ha.2]

/-- The second character of an opener is a hyphen or a star. -/
theorem opensComment_of_right {b : Char} (hb : b ≠ '-' ∧ b ≠ '*') (a : Char) :
    opensComment a b = false := by
  simp [opensComment, hb.1, hb.2]

/-- An empty text opens no comment. -/
theorem commentFree_nil : CommentFree [] := List.isChain_nil

/-- Two texts meet without a comment if their characters that meet open none. -/
theorem CommentFree.append {s t : List Char} (hs : CommentFree s) (ht : CommentFree t)
    (h : ∀ a ∈ s.getLast?, ∀ b ∈ t.head?, opensComment a b = false) : CommentFree (s ++ t) :=
  List.isChain_append.mpr ⟨hs, ht, h⟩

/-- A text that opens no comment, neither in itself nor with anything before or after it. -/
def Fenced (cs : List Char) : Prop :=
  CommentFree cs ∧ (∀ b ∈ cs.head?, b ≠ '-' ∧ b ≠ '*') ∧ ∀ a ∈ cs.getLast?, a ≠ '-' ∧ a ≠ '/'

/-- A text between two that meet nothing. -/
theorem CommentFree.between {cs : List Char} (hcs : CommentFree cs) {before after : List Char}
    (hbefore : Fenced before) (hafter : Fenced after) : CommentFree (before ++ cs ++ after) := by
  refine CommentFree.append (hbefore.1.append hcs ?_) hafter.1 ?_
  · exact fun a ha b _ => opensComment_of_left (hbefore.2.2 a ha) b
  · exact fun a _ b hb => opensComment_of_right (hafter.2.1 b hb) a

/-- A text of one character that is not used in the openers. -/
theorem fenced_singleton {c : Char} (h : c ∉ ['-', '/', '*']) : Fenced [c] := by
  simp only [List.mem_cons, List.not_mem_nil, or_false, not_or] at h
  exact ⟨List.isChain_singleton c, by simpa using ⟨h.1, h.2.2⟩, by simpa using ⟨h.1, h.2.1⟩⟩

/-! ### Outlines -/

/-- The border of a text: its last character, or nothing where that is not known. -/
abbrev Border := Option Char

namespace Border

/-- A fixed text opens no comment, neither in itself nor with what stands before it, and leaves its
    own last character. -/
def text (β : Border) (cs : List Char) : Option Border :=
  match cs with
  | [] => some β
  | c :: _ =>
    let meets := match β with
      | some a => !opensComment a c
      | none => c != '-' && c != '*'
    if decide (CommentFree cs) && meets then some cs.getLast? else none

/-- A gap follows a character that is no slash, and in place no hyphen either. -/
def gap (β : Border) (inPlace : Bool) : Option Border :=
  match β with
  | some c => if c == '/' || (inPlace && c == '-') then none else some none
  | none => none

/-- The border after one part, if the part may stand there. -/
def step (β : Border) : Part → Option Border
  | .text t => β.text t.toList
  | .inPlace => β.gap true
  | .apart => β.gap false

/-- In front of an outline. The text before it, if any, ends like a blank. -/
def start : Border := some ' '

/-- A text ends as its border says. -/
def Bounds (β : Border) (cs : List Char) : Prop := ∀ a ∈ β, ∀ c ∈ cs.getLast?, c = a

end Border

namespace Outline

/-- The border after an outline, if every part may stand where it does. -/
def border : Border → Outline → Option Border
  | β, [] => some β
  | β, part :: k => (β.step part).bind (border · k)

/-- No comment opens along an outline, whatever fills its gaps. -/
def IsSpaced (k : Outline) : Prop := (border .start k).isSome

instance (k : Outline) : Decidable k.IsSpaced := inferInstanceAs (Decidable (_ = true))

end Outline

/-! ### Drafts -/

/-- A draft leads from one border to another: its texts and gaps may stand where they do. What fills
    a gap is such a draft itself, and afterwards nothing is known of the border. -/
inductive Spaced : Border → Draft → Border → Prop
  | empty {β} : Spaced β .empty β
  | text {β γ t} : β.text t.toList = some γ → Spaced β (.text t) γ
  | column {β γ name} : β.gap true = some γ → Spaced β (.column name) γ
  | constant {β γ place c} : β.gap true = some γ → Spaced β (.constant place c) γ
  | fault {β e} : Spaced β (.fault e) β
  | level {β γ d} : Spaced β d γ → Spaced β (.level d) γ
  | operand {β γ δ d} : β.gap false = some γ → Spaced .start d δ → Spaced β (.operand d) γ
  | inPlace {β γ δ d} : β.gap true = some γ → Spaced .start d δ → Spaced β d γ
  | append {β γ δ a b} : Spaced β a γ → Spaced γ b δ → Spaced β (a ++ b) δ
  | forget {β γ d} : Spaced β d γ → Spaced β d none

namespace Border

variable {β γ : Border}

/-- What is known of a text that may stand at a border. -/
theorem text_eq_some {cs : List Char} (h : β.text cs = some γ) {before : List Char}
    (hbefore : CommentFree before) (hβ : β.Bounds before) :
    CommentFree (before ++ cs) ∧ γ.Bounds (before ++ cs) := by
  unfold text at h
  split at h
  · obtain rfl := Option.some.inj h
    simpa using ⟨hbefore, hβ⟩
  · next c cs =>
    simp only [Option.ite_none_right_eq_some, Bool.and_eq_true, decide_eq_true_eq] at h
    obtain ⟨⟨hcs, hmeets⟩, hlast⟩ := h
    obtain rfl := Option.some.inj hlast
    refine ⟨hbefore.append hcs fun a ha b hb => ?_, ?_⟩
    · obtain rfl : c = b := by simpa using hb
      cases β with
      -- Nothing is known of the character before, so the next one must open no comment after any.
      | none => exact opensComment_of_right (by simpa using hmeets) a
      | some e =>
        obtain rfl := hβ e rfl a ha
        simpa using hmeets
    · intro a ha c hc
      rw [List.getLast?_append_of_ne_nil _ (by simp)] at hc
      simpa using Option.mem_unique hc ha

/-- A text that meets nothing may stand at any border. -/
theorem text_of_fenced {cs : List Char} (h : Fenced cs) {c : Char} (hc : c ∈ cs.getLast?)
    (β : Border) : β.text cs = some (some c) := by
  cases cs with
  | nil => simp at hc
  | cons b cs =>
    have hb := h.2.1 b (by simp)
    have hmeets : ∀ a, opensComment a b = false := opensComment_of_right hb
    cases β <;> simp [text, h.1, hmeets, hb.1, hb.2, Option.mem_def.mp hc]

/-- After a gap nothing is known, and before it is a character that no operand meets, or that only
    one after a hyphen does. -/
theorem gap_eq_some {inPlace : Bool} (h : β.gap inPlace = some γ) :
    γ = none ∧ ∀ before, β.Bounds before → ∀ a ∈ before.getLast?, a ≠ '/' ∧
      (inPlace → a ≠ '-') := by
  unfold gap at h
  split at h
  · next c =>
    simp only [Option.ite_none_left_eq_some, Bool.or_eq_true, beq_iff_eq, Bool.and_eq_true,
      not_or, not_and] at h
    refine ⟨(Option.some.inj h.2).symm, fun before hβ a ha => ?_⟩
    obtain rfl := hβ c rfl a ha
    exact h.1
  · exact absurd h (by simp)

/-- Without a bound any text fits. -/
theorem bounds_none (cs : List Char) : Bounds none cs := by simp [Bounds]

/-- An empty text fits any bound. -/
theorem bounds_nil (β : Border) : β.Bounds [] := by simp [Bounds]

end Border

/-- Whether a text ends in a hyphen. -/
def endsInHyphen (cs : List Char) : Bool := cs.getLast? == some '-'

/-- Whether a text ends in a hyphen is seen from what is added to it last. -/
theorem endsInHyphen_append (before : List Char) (t : String) :
    endsInHyphen (before ++ t.toList) = hyphenAfter (endsInHyphen before) t := by
  simp only [endsInHyphen, hyphenAfter, List.getLast?_append]
  cases t.toList.getLast? <;> simp

/-- **No comment opens.** If columns and constants are free of comments, a spaced draft goes on with
    a text that is free of them. -/
theorem Spaced.commentFree {f : Spelling} {β γ : Border} {d : Draft} (h : Spaced β d γ)
    (hC : ∀ name ∈ d.columns, CommentFree (f.column name).toList)
    (hM : ∀ x ∈ d.constants, CommentFree (f.constant x).toList) {before : List Char}
    (hbefore : CommentFree before) (hβ : β.Bounds before) :
    let text := (Segment.write f.constant (d.segments f (endsInHyphen before))).toList
    CommentFree (before ++ text) ∧ γ.Bounds (before ++ text) := by
  -- What fills a gap is free of comments in itself and does not meet with the text before.
  have hgap : ∀ {β γ : Border} {before cs : List Char}, CommentFree before → β.Bounds before →
      CommentFree cs → β.gap true = some γ →
      CommentFree (before ++ cs) ∧ γ.Bounds (before ++ cs) := by
    intro β γ before cs hbefore hβ hcs hgap
    obtain ⟨rfl, hmeets⟩ := Border.gap_eq_some hgap
    refine ⟨hbefore.append hcs fun a ha b _ => ?_, Border.bounds_none _⟩
    have hne := hmeets before hβ a ha
    exact opensComment_of_left ⟨hne.2 rfl, hne.1⟩ b
  -- The induction is on the way in which the draft is spaced; `before` is all that was written.
  induction h generalizing before with
  | empty => simpa [Draft.segments] using ⟨hbefore, hβ⟩
  | text ht => simpa [Draft.segments] using Border.text_eq_some ht hbefore hβ
  | column hgap' =>
    simpa [Draft.segments] using hgap hbefore hβ (hC _ (by simp [Draft.columns])) hgap'
  | constant hgap' =>
    simpa [Draft.segments, Segment.spelled] using
      hgap hbefore hβ (hM _ (by simp [Draft.constants])) hgap'
  | fault => simpa [Draft.segments] using ⟨hbefore, hβ⟩
  | level _ ih => exact ih hC hM hbefore hβ
  | forget _ ih => exact ⟨(ih hC hM hbefore hβ).1, Border.bounds_none _⟩
  | inPlace hgap' _ ih =>
    have hinner := (ih hC hM commentFree_nil (Border.bounds_nil _)).1
    have hhyphen : endsInHyphen before = false := by
      rw [endsInHyphen, beq_eq_false_iff_ne]
      intro hlast
      exact ((Border.gap_eq_some hgap').2 before hβ _ hlast).2 rfl rfl
    rw [hhyphen]
    exact hgap hbefore hβ hinner hgap'
  | @operand β γ δ d hgap' _ ih =>
    have hinner : CommentFree (Segment.write f.constant (d.segments f false)).toList :=
      (ih hC hM commentFree_nil (Border.bounds_nil _)).1
    obtain ⟨rfl, hmeets⟩ := Border.gap_eq_some hgap'
    refine ⟨?_, Border.bounds_none _⟩
    simp only [Draft.segments]
    split
    · -- A hyphen would meet a hyphen, and parentheses keep them apart.
      have hopen : Fenced ['('] := fenced_singleton (by decide)
      have hparens := hinner.between hopen (fenced_singleton (c := ')') (by decide))
      have hmeet := hbefore.append hparens fun a _ b hb => by
        obtain rfl : '(' = b := by simpa using hb
        exact opensComment_of_right (by decide) a
      simpa [Segment.spelled] using hmeet
    · next hguard =>
      refine hbefore.append hinner fun a ha b hb => ?_
      have hslash := (hmeets before hβ a ha).1
      by_cases hdash : a = '-'
      · -- The operand does not begin with a hyphen here.
        have hb' : b ≠ '-' := by
          rintro rfl
          refine hguard ?_
          simp [endsInHyphen, Option.mem_def.mp ha, hdash, String.startsWith_char_eq_head?,
            Option.mem_def.mp hb]
        simp [opensComment, hslash, hb']
      · exact opensComment_of_left ⟨hdash, hslash⟩ b
  | @append β γ δ a b _ _ iha ihb =>
    obtain ⟨hfirst, hγ⟩ := iha (fun n hn => hC n (List.mem_append_left _ hn))
      (fun x hx => hM x (List.mem_append_left _ hx)) hbefore hβ
    have hsecond := ihb (fun n hn => hC n (List.mem_append_right _ hn))
      (fun x hx => hM x (List.mem_append_right _ hx)) hfirst hγ
    rw [endsInHyphen_append] at hsecond
    simpa [Draft.segments_append, List.append_assoc] using hsecond

/-! ### Forms -/

/-- A draft that fills a gap. -/
def Draft.IsSpaced (d : Draft) : Prop := ∃ γ, Spaced .start d γ

section Forms

variable {β γ : Border} {ds : List Draft}

/-- A draft in place, after a character that it does not meet. -/
theorem Draft.IsSpaced.inPlace {d : Draft} (h : d.IsSpaced) (hβ : β.gap true = some γ) :
    Spaced β d γ :=
  h.elim fun _ hd => .inPlace hβ hd

/-- A template with spaced operands, from any of its pieces on. -/
theorem spaced_pieces {t pieces : Template} (h : ∀ d ∈ ds, d.IsSpaced)
    (hrun : Outline.border β pieces.outline = some γ) :
    Spaced β (pieces.foldr (fun piece rest => Sql.pieceDraft t ds piece ++ rest) .empty) γ := by
  induction pieces generalizing β with
  | nil =>
    obtain rfl := Option.some.inj hrun
    exact .empty
  | cons piece pieces ih =>
    obtain ⟨δ, hstep, hrest⟩ := Option.bind_eq_some_iff.mp hrun
    refine .append ?_ (ih hrest)
    cases piece with
    | text s => exact .text hstep
    | slot i =>
      simp only [Sql.pieceDraft]
      split
      · next d hd =>
        obtain ⟨ε, hspaced⟩ := h d (List.mem_of_getElem? hd)
        exact .operand hstep hspaced
      -- A slot without an operand is a fault, which writes nothing; the outline has forgotten the
      -- border all the same.
      · obtain ⟨rfl, -⟩ := Border.gap_eq_some hstep
        exact .forget .fault

/-- A separator may stand after a gap, and a gap after it. -/
def IsSeparator (separator : String) : Prop :=
  Outline.border none [.text separator, .inPlace] = some none

/-- Separators keep drafts apart. -/
theorem spaced_join {separator : String} (hs : IsSeparator separator)
    (h : ∀ d ∈ ds, d.IsSpaced) (hβ : β.gap true = some none) :
    Spaced β (Draft.join separator ds) none := by
  induction ds generalizing β with
  | nil => exact .forget .empty
  | cons d ds ih =>
    have hd : Spaced β d none := (h d (by simp)).inPlace hβ
    cases ds with
    | nil => exact hd
    | cons d' ds =>
      obtain ⟨δ, hstep, hgap⟩ := Option.bind_eq_some_iff.mp hs
      have hgap' : δ.gap true = some none := by simpa [Outline.border, Border.step] using hgap
      have hrest := ih (fun x hx => h x (List.mem_cons_of_mem d hx)) hgap'
      exact .append (.append hd (.text hstep)) hrest

/-- Items between a text and a parenthesis. -/
theorem isSpaced_listed {separator : String} {first : Draft} {δ : Border}
    (hfirst : Spaced .start first δ) (hδ : δ.gap true = some none) (hs : IsSeparator separator)
    (h : ∀ d ∈ ds, d.IsSpaced) :
    (first ++ Draft.join separator ds ++ .text ")").IsSpaced :=
  ⟨some ')', .append (.append hfirst (spaced_join hs h hδ)) (.text (by decide))⟩

end Forms

/-- A way to concatenate that opens no comment. -/
def ConcatStyle.Spaced : ConcatStyle → Prop
  | .infixed token => IsSeparator token
  | .function name => Outline.border .start [.text name, .text "("] = some (some '(')

/-- No form of the rules opens a comment. -/
structure Rules.Spaced (d : Rules) : Prop where
  template : ∀ {t n}, d.Uses t n → t.outline.IsSpaced
  prefixed : ∀ {op kind token}, d.unary op kind = some token →
    Outline.IsSpaced [.text token, .apart]
  infixed : ∀ {op b token}, d.operator op b = some token →
    Outline.IsSpaced [.text "(", .inPlace, .text " ", .text token, .text " ", .inPlace, .text ")"]
  concat : d.concat.Spaced

namespace Sql

/-- Spaced expressions have spaced drafts, one by one. -/
theorem isSpaced_draftList {ss : List Sql} (h : ∀ s ∈ ss, s.draft.IsSpaced) :
    ∀ d ∈ draftList ss, d.IsSpaced := by
  intro d hd
  rw [draftList_eq_map] at hd
  obtain ⟨s, hs, rfl⟩ := List.mem_map.mp hd
  exact h s hs

/-- A token that keeps apart from its operand is spaced. -/
theorem isSpaced_prefixed {token : String} (ht : Outline.IsSpaced [.text token, .apart]) {s : Sql}
    (h : s.draft.IsSpaced) : (prefixed token s).draft.IsSpaced := by
  obtain ⟨γ, hrun⟩ := Option.isSome_iff_exists.mp ht
  obtain ⟨β, htext, hgap⟩ := Option.bind_eq_some_iff.mp hrun
  obtain ⟨δ, hstep, hend⟩ := Option.bind_eq_some_iff.mp hgap
  obtain ⟨ε, hs⟩ := h
  exact ⟨δ, .append (.text htext) (.operand hstep hs)⟩

/-- A token between blanks is spaced. -/
theorem isSpaced_infixed {token : String}
    (ht : Outline.IsSpaced
      [.text "(", .inPlace, .text " ", .text token, .text " ", .inPlace, .text ")"])
    {l r : Sql} (hl : l.draft.IsSpaced) (hr : r.draft.IsSpaced) :
    (infixed token l r).draft.IsSpaced := by
  obtain ⟨γ, hrun⟩ := Option.isSome_iff_exists.mp ht
  -- The check of the outline is one chain of seven steps; each border it passes is one of the
  -- draft's.
  obtain ⟨β₁, h₁, hrun⟩ := Option.bind_eq_some_iff.mp hrun
  obtain ⟨β₂, h₂, hrun⟩ := Option.bind_eq_some_iff.mp hrun
  obtain ⟨β₃, h₃, hrun⟩ := Option.bind_eq_some_iff.mp hrun
  obtain ⟨β₄, h₄, hrun⟩ := Option.bind_eq_some_iff.mp hrun
  obtain ⟨β₅, h₅, hrun⟩ := Option.bind_eq_some_iff.mp hrun
  obtain ⟨β₆, h₆, hrun⟩ := Option.bind_eq_some_iff.mp hrun
  obtain ⟨β₇, h₇, -⟩ := Option.bind_eq_some_iff.mp hrun
  exact ⟨β₇, .append (.append (.append (.append (.append (.append (.text h₁) (hl.inPlace h₂))
    (.text h₃)) (.text h₄)) (.text h₅)) (hr.inPlace h₆)) (.text h₇)⟩

/-- A comma with a blank separates. -/
theorem isSeparator_comma : IsSeparator ", " := rfl

/-- A concatenation is spaced in a style that is. -/
theorem isSpaced_concat {style : ConcatStyle} (hstyle : style.Spaced) {parts : List Sql}
    (h : ∀ s ∈ parts, s.draft.IsSpaced) : (concat style parts).draft.IsSpaced := by
  have hds := isSpaced_draftList h
  show (concatDraft style (draftList parts)).IsSpaced
  generalize draftList parts = ds at hds
  rcases ds with _ | ⟨d, _ | ⟨d', ds⟩⟩
  -- No parts at all give the empty literal.
  · exact ⟨some '\'', .text (by decide)⟩
  · exact hds d (by simp)
  · cases style with
    | infixed token => exact isSpaced_listed (.text (by decide)) (δ := some '(') rfl hstyle hds
    | function name =>
      obtain ⟨β, hname, hopen⟩ := Option.bind_eq_some_iff.mp hstyle
      obtain ⟨γ, hparen, hend⟩ := Option.bind_eq_some_iff.mp hopen
      obtain rfl := Option.some.inj hend
      exact isSpaced_listed (.append (.text hname) (.text hparen)) rfl isSeparator_comma hds

/-- Arguments of a function are spaced. -/
theorem isSpaced_coalesce {parts : List Sql} (h : ∀ s ∈ parts, s.draft.IsSpaced) :
    (coalesce parts).draft.IsSpaced :=
  isSpaced_listed (.text (by decide)) (δ := some '(') rfl isSeparator_comma (isSpaced_draftList h)

/-- A search in a list is spaced. -/
theorem isSpaced_inList {needle : Sql} {items : List Sql} (hn : needle.draft.IsSpaced)
    (h : ∀ s ∈ items, s.draft.IsSpaced) : (inList needle items).draft.IsSpaced := by
  cases items with
  | nil => exact ⟨some ')', .text (by decide)⟩
  | cons s items =>
    have hopening : Spaced .start (.text "(" ++ needle.draft ++ .text " in (") (some '(') :=
      .append (.append (.text (by decide)) (hn.inPlace (γ := none) (β := some '(') rfl))
        (.text (by decide))
    have hjoin := spaced_join isSeparator_comma (isSpaced_draftList h) (β := some '(') rfl
    exact ⟨some ')', .append (.append hopening hjoin) (.text (by decide))⟩

/-- The branches of a `case` follow anything, since a blank does. -/
theorem spaced_draftBranches {branches : List (Sql × Sql)}
    (h : ∀ b ∈ branches, b.1.draft.IsSpaced ∧ b.2.draft.IsSpaced) (β : Border) :
    Spaced β (draftBranches branches) none := by
  induction branches generalizing β with
  | nil => exact .forget .empty
  | cons b branches ih =>
    obtain ⟨test, value⟩ := b
    obtain ⟨htest, hvalue⟩ := h (test, value) (by simp)
    have hwhen : β.text " when ".toList = some (some ' ') :=
      Border.text_of_fenced ⟨by decide, by simp, by simp⟩ (by simp) β
    exact .append (.append (.append (.append (.text hwhen) (htest.inPlace (γ := none) rfl))
      (.text (γ := some ' ') (by decide))) (hvalue.inPlace (γ := none) rfl))
      (ih (fun b hb => h b (List.mem_cons_of_mem _ hb)) none)

/-- Branches are spaced. -/
theorem isSpaced_caseWhen {branches : List (Sql × Sql)} {otherwise : Sql}
    (h : ∀ b ∈ branches, b.1.draft.IsSpaced ∧ b.2.draft.IsSpaced)
    (ho : otherwise.draft.IsSpaced) : (caseWhen branches otherwise).draft.IsSpaced :=
  ⟨some ')', .append (.append (.append (.append (.text (γ := some 'e') (by decide))
    (spaced_draftBranches h _)) (.text (γ := some ' ') (by decide)))
    (ho.inPlace (γ := none) rfl)) (.text (by decide))⟩

/-- Every form of spaced rules keeps drafts spaced. -/
theorem isSpaced_respects {d : Rules} (hd : d.Spaced) :
    d.Respects (fun s _ => s.draft.IsSpaced) where
  form := fun hu h => by
    obtain ⟨γ, hrun⟩ := Option.isSome_iff_exists.mp (hd.template hu)
    exact ⟨γ, spaced_pieces (isSpaced_draftList (forall_mem_left h)) hrun⟩
  prefixed := fun ht h => isSpaced_prefixed (hd.prefixed ht) h
  infixed := fun ht hl hr => isSpaced_infixed (hd.infixed ht) hl hr
  concat := fun h => isSpaced_concat hd.concat (forall_mem_left h)
  coalesce := fun h => isSpaced_coalesce (forall_mem_left h)
  inList := fun hn h => isSpaced_inList hn (forall_mem_left h)
  caseWhen := fun h ho => isSpaced_caseWhen (forall_mem_left h) ho
  level := fun ⟨γ, h⟩ => ⟨γ, .level h⟩
  fault := fun _ _ => ⟨_, .fault⟩

end Sql

/-- **Trees are spaced.** Under spaced rules a tree is laid out, as a condition, so that no comment
    opens between its parts. -/
theorem Expr.spaced {d : Rules} (hd : d.Spaced) (e : Expr) (p : Position) :
    (e.predicate d p).draft.IsSpaced :=
  (Expr.layout_related (Sql.isSpaced_respects hd) (fun _ _ h => by rw [h])
    (fun _ _ _ _ => ⟨none, .constant rfl⟩) (fun _ => ⟨none, .column rfl⟩)
    (alike_refl (fun _ => rfl) e) p).predicate

end WhereClause
