import WhereClause.Proofs.Forms
import WhereClause.Proofs.Scanning

namespace WhereClause

/-!
# Outlines of drafts

Every form of a dialect is a row of fixed texts with gaps between them, and each gap takes a whole
expression. The outline of a form is that row without the expressions. Whether literals and
parentheses close, and whether what fills a gap can run together with its surroundings, is a matter
of the outlines alone, and outlines can be checked by running through them once.

* `Outline`, `Outline.Sound` — outlines, and the check;
* `Framed` — a draft is built from outlines that pass the check;
* `Rules.Sound` — all forms of some rules have such outlines;
* `Expr.framed` — then every tree is laid out as a framed draft.
-/

/-- A part of an outline: a fixed text, or a gap. What fills a gap is written in place, or set apart
    from the text before it as an operand. -/
inductive Part where
  | text (t : String)
  | inPlace
  | apart
  deriving DecidableEq

/-- A row of fixed texts and gaps. -/
abbrev Outline := List Part

/-- What is known in front of a part: the depth of parentheses in the outline, and the character
    before, which is absent after a gap. -/
structure Status where
  depth : Nat
  last : Option Char
  deriving DecidableEq

namespace Status

/-- In front of an outline. The text before it, if any, ends like a blank. -/
def start : Status := ⟨0, some ' '⟩

/-- What comes next could run together with a literal or a number in front of it. -/
def isLoose (σ : Status) : Bool := σ.last = none || σ.last = some '\''

/-- A character that could go on with what fills a gap: a quote after a literal, or a digit after
    the name of a parameter. -/
def isSticky (c : Char) : Bool := c = '\'' || c.isDigit

/-- A fixed text is not empty, cannot be taken for a parameter, closes its literals, and does not
    run together with what stands before it. -/
def text (σ : Status) (cs : List Char) : Option Status :=
  if !cs.isEmpty && isUnmarked '@' cs && isUnmarked ':' cs &&
      !(σ.isLoose && cs.head?.any isSticky) then
    (depthAfter σ.depth (scan .outside cs)).map (⟨·, cs.getLast?⟩)
  else none

/-- A gap follows a text that does not end in a quote, and in place not in a hyphen either. -/
def gap (σ : Status) (inPlace : Bool) : Option Status :=
  if σ.isLoose || (inPlace && σ.last = some '-') then none else some ⟨σ.depth, none⟩

/-- The status after one part, if the part may stand there. -/
def step (σ : Status) : Part → Option Status
  | .text t => σ.text t.toList
  | .inPlace => σ.gap true
  | .apart => σ.gap false

end Status

namespace Outline

/-- The status after an outline, if every part may stand where it does. -/
def run : Status → Outline → Option Status
  | σ, [] => some σ
  | σ, part :: k => (σ.step part).bind (run · k)

/-- An outline begins with a text, unless it is nothing but a gap. -/
def isHeaded : Outline → Bool
  | [.inPlace] | [.apart] | .text _ :: _ => true
  | _ => false

/-- An outline with a head is one operand, or begins with a text. -/
theorem eq_of_isHeaded {k : Outline} (h : k.isHeaded) :
    k = [.inPlace] ∨ k = [.apart] ∨ ∃ t l, k = .text t :: l := by
  unfold isHeaded at h
  split at h <;> simp_all

/-- The check of an outline: every part may stand where it does, and all parentheses close. -/
def Sound (k : Outline) : Prop :=
  k.isHeaded ∧ (run .start k).map Status.depth = some 0

instance (k : Outline) : Decidable k.Sound := by
  unfold Sound; infer_instance

/-- Two outlines are run one after the other. -/
theorem run_append (σ : Status) (k l : Outline) :
    run σ (k ++ l) = (run σ k).bind (run · l) := by
  induction k generalizing σ with
  | nil => rfl
  | cons part k ih =>
    simp only [List.cons_append, run]
    cases σ.step part with
    | none => rfl
    | some σ' => exact ih σ'

/-- The texts of an outline that passes are not empty. -/
theorem ne_empty_of_run {σ σ' : Status} {k : Outline} (h : run σ k = some σ') {t : String}
    (ht : .text t ∈ k) : t ≠ "" := by
  induction k generalizing σ with
  | nil => exact absurd ht (by simp)
  | cons part k ih =>
    obtain ⟨σ₁, hstep, hrun⟩ := Option.bind_eq_some_iff.mp h
    rcases List.mem_cons.mp ht with rfl | ht
    · rintro rfl
      simp [Status.step, Status.text] at hstep
    · exact ih hrun ht

/-- A sound outline ends outside of all parentheses. -/
theorem Sound.exists_run {k : Outline} (h : k.Sound) : ∃ last, run .start k = some ⟨0, last⟩ := by
  obtain ⟨⟨depth, last⟩, hrun, hdepth⟩ := Option.map_eq_some_iff.mp h.2
  obtain rfl : depth = 0 := hdepth
  exact ⟨last, hrun⟩

/-- A sound outline has no empty texts. -/
theorem Sound.ne_empty {k : Outline} (h : k.Sound) {t : String} (ht : .text t ∈ k) : t ≠ "" := by
  obtain ⟨last, hrun⟩ := h.exists_run
  exact ne_empty_of_run hrun ht

end Outline

/-! ### Templates -/

namespace Template

/-- The outline of a template: its operands are set apart. -/
def outline (t : Template) : Outline :=
  t.map fun
    | .text s => .text s
    | .slot _ => .apart

/-- The check of a template that is filled with `n` operands: it has a sound outline, it asks for
    no operand that is not there, and it mentions them all. -/
def Sound (t : Template) (n : Nat) : Prop :=
  t.outline.Sound ∧ t.Fits n ∧ ∀ i < n, .slot i ∈ t

instance (t : Template) (n : Nat) : Decidable (t.Fits n) :=
  decidable_of_iff (t.all fun | .text _ => true | .slot i => i < n) <| by
    rw [List.all_eq_true, Fits]
    constructor
    · intro h i hi
      simpa using h (.slot i) hi
    · intro h piece hp
      cases piece with
      | text s => rfl
      | slot i => simpa using h i hp

instance (t : Template) (n : Nat) : Decidable (t.Sound n) := by
  unfold Sound; infer_instance

end Template

/-! ### Framed drafts -/

/-- A draft is made of the texts of an outline, with framed drafts in the gaps. -/
inductive Framed : Outline → Draft → Prop
  | empty : Framed [] .empty
  | blank : Framed [] (.text "")
  | text {t : String} : t ≠ "" → Framed [.text t] (.text t)
  | column {name : String} : Framed [.inPlace] (.column name)
  | constant {place : Position} {c : Constant} : Framed [.inPlace] (.constant place c)
  | fault {e : Error} : Framed [.inPlace] (.fault e)
  | level {d : Draft} : Framed [.inPlace] d → Framed [.inPlace] (.level d)
  | operand {d : Draft} : Framed [.inPlace] d → Framed [.apart] (.operand d)
  | append {k l : Outline} {a b : Draft} : Framed k a → Framed l b →
      Framed (k ++ l) (a ++ b)
  | frame {k : Outline} {d : Draft} : k.Sound → Framed k d → Framed [.inPlace] d

/-- A row of drafts with a text between them has the texts and the gaps in turn. -/
def joinOutline (separator : String) : Nat → Outline
  | 0 => []
  | 1 => [.inPlace]
  | n + 2 => .inPlace :: .text separator :: joinOutline separator (n + 1)

/-- Texts between drafts frame them. -/
theorem framed_join {separator : String} (hs : separator ≠ "") {ds : List Draft}
    (h : ∀ d ∈ ds, Framed [.inPlace] d) :
    Framed (joinOutline separator ds.length) (Draft.join separator ds) := by
  induction ds with
  | nil => exact .empty
  | cons d ds ih =>
    have hd : Framed [.inPlace] d := h d (by simp)
    cases ds with
    | nil => exact hd
    | cons d' ds =>
      have hrest := ih (fun x hx => h x (List.mem_cons_of_mem d hx))
      exact .append (.append hd (.text hs)) hrest

/-- Gaps and separators in turn lead from a text into a gap, at any depth. -/
theorem run_joinOutline {separator : String} {n : Nat} {c : Char}
    (hs : ∀ n, (Status.mk n none).step (.text separator) = some ⟨n, some ' '⟩)
    (hc : c ≠ '\'' ∧ c ≠ '-') (m : Nat) :
    Outline.run ⟨n, some c⟩ (joinOutline separator (m + 1)) = some ⟨n, none⟩ := by
  have hgap : ∀ c : Char, c ≠ '\'' ∧ c ≠ '-' →
      (Status.mk n (some c)).step .inPlace = some ⟨n, none⟩ := by
    intro c hc
    simp [Status.step, Status.gap, Status.isLoose, hc.1, hc.2]
  induction m generalizing c with
  | zero => simp [joinOutline, Outline.run, hgap c hc]
  | succ m ih =>
    simp only [joinOutline, Outline.run, hgap c hc, Option.bind_some, hs]
    exact ih (by decide)

/-- A template with framed operands, from any of its pieces on. -/
theorem framed_pieces {t pieces : Template} {ds : List Draft}
    (hne : ∀ s, .text s ∈ pieces → s ≠ "") (hfit : ∀ i, .slot i ∈ pieces → i < ds.length)
    (h : ∀ d ∈ ds, Framed [.inPlace] d) :
    Framed pieces.outline
      (pieces.foldr (fun piece rest => Sql.pieceDraft t ds piece ++ rest) .empty) := by
  induction pieces with
  | nil => exact .empty
  | cons piece pieces ih =>
    have hrest := ih (fun s hs => hne s (List.mem_cons_of_mem _ hs))
      (fun i hi => hfit i (List.mem_cons_of_mem _ hi))
    cases piece with
    | text s => exact .append (.text (hne s (by simp))) hrest
    | slot i =>
      have hi : i < ds.length := hfit i (by simp)
      have hpiece : Sql.pieceDraft t ds (.slot i) = .operand ds[i] := by
        simp [Sql.pieceDraft, List.getElem?_eq_getElem hi]
      rw [List.foldr_cons, hpiece]
      exact .append (.operand (h _ (List.getElem_mem hi))) hrest

/-- A sound template frames its operands. -/
theorem framed_formDraft {t : Template} {ds : List Draft} (ht : t.Sound ds.length)
    (h : ∀ d ∈ ds, Framed [.inPlace] d) : Framed [.inPlace] (Sql.formDraft t ds) := by
  refine .frame ht.1 (framed_pieces ?_ ht.2.1 h)
  intro s hs
  exact ht.1.ne_empty (List.mem_map_of_mem (f := _) hs)

/-! ### Rules with sound outlines -/

/-- A way to concatenate whose separator or name may stand where it does. -/
def ConcatStyle.Sound : ConcatStyle → Prop
  | .infixed token => ∀ n, (Status.mk n none).step (.text token) = some ⟨n, some ' '⟩
  | .function name => ∃ last, Status.start.step (.text name) = some ⟨0, last⟩

/-- All forms of the rules have sound outlines. -/
structure Rules.Sound (d : Rules) : Prop where
  template : ∀ {t n}, d.Uses t n → t.Sound n
  prefixed : ∀ {op kind token}, d.unary op kind = some token →
    token = "" ∨ Outline.Sound [.text token, .apart]
  infixed : ∀ {op b token}, d.operator op b = some token →
    Outline.Sound [.text "(", .inPlace, .text " ", .text token, .text " ", .inPlace, .text ")"]
  concat : d.concat.Sound

namespace Sql

/-- Each expression of a list is drafted by itself. -/
theorem draftList_eq_map (ss : List Sql) : draftList ss = ss.map draft := by
  induction ss with
  | nil => rfl
  | cons s ss ih => simp [draftList, ih]

/-- The drafts of framed expressions are framed. -/
theorem framed_draftList {ss : List Sql} (h : ∀ s ∈ ss, Framed [.inPlace] s.draft) :
    ∀ d ∈ draftList ss, Framed [.inPlace] d := by
  intro d hd
  rw [draftList_eq_map] at hd
  obtain ⟨s, hs, rfl⟩ := List.mem_map.mp hd
  exact h s hs

/-- The commas between the items of a list may stand where they do. -/
theorem step_comma (n : Nat) : (Status.mk n none).step (.text ", ") = some ⟨n, some ' '⟩ := rfl

/-- Items between parentheses, after a text that opens one of them. -/
theorem sound_listed {opening separator : String}
    (ho : Status.start.step (.text opening) = some ⟨1, some '('⟩)
    (hs : ∀ n, (Status.mk n none).step (.text separator) = some ⟨n, some ' '⟩) (m : Nat) :
    Outline.Sound (.text opening :: joinOutline separator (m + 1) ++ [.text ")"]) := by
  refine ⟨rfl, ?_⟩
  rw [Outline.run_append, Outline.run, ho, Option.bind_some, run_joinOutline hs (by decide)]
  rfl

/-- A token of a sound dialect frames its operand. -/
theorem framed_prefixed {d : Rules} (hd : d.Sound) {op : UnaryOp} {kind : ValueKind}
    {token : String} (htoken : d.unary op kind = some token) {s : Sql}
    (h : Framed [.inPlace] s.draft) : Framed [.inPlace] (prefixed token s).draft := by
  rcases hd.prefixed htoken with rfl | hsound
  · exact .frame (by decide) (.append .blank (.operand h))
  · exact .frame hsound (.append (.text (hsound.ne_empty (by simp))) (.operand h))

/-- A token of a sound dialect frames its two operands. -/
theorem framed_infixed {d : Rules} (hd : d.Sound) {op : BinaryOp} {b : Bool} {token : String}
    (htoken : d.operator op b = some token) {l r : Sql} (hl : Framed [.inPlace] l.draft)
    (hr : Framed [.inPlace] r.draft) : Framed [.inPlace] (infixed token l r).draft := by
  have hsound := hd.infixed htoken
  have ht : token ≠ "" := hsound.ne_empty (by simp)
  exact .frame hsound
    (.append (.append (.append (.append (.append (.append (.text (by decide)) hl)
      (.text (by decide))) (.text ht)) (.text (by decide))) hr) (.text (by decide)))

/-- Joined strings: none is the empty literal, and one stands for itself. -/
theorem framed_concat {style : ConcatStyle} (hstyle : style.Sound) {parts : List Sql}
    (h : ∀ s ∈ parts, Framed [.inPlace] s.draft) :
    Framed [.inPlace] (concat style parts).draft := by
  have hds := framed_draftList h
  show Framed [.inPlace] (concatDraft style (draftList parts))
  generalize draftList parts = ds at hds
  match ds, hds with
  | [], _ => exact .frame (by decide) (.text (by decide))
  | [d], hds => exact hds d (by simp)
  | d :: d' :: ds, hds =>
    cases style with
    | infixed token =>
      have ht : token ≠ "" := by
        rintro rfl
        exact absurd (hstyle 0) (by decide)
      exact .frame (sound_listed rfl hstyle (ds.length + 1))
        (.append (.append (.text (by decide)) (framed_join ht hds)) (.text (by decide)))
    | function name =>
      obtain ⟨last, hlast⟩ := hstyle
      have hn : name ≠ "" := by
        rintro rfl
        exact absurd hlast (by simp [Status.step, Status.text])
      refine .frame (k := .text name :: .text "(" :: joinOutline ", " (ds.length + 2) ++
        [.text ")"]) ⟨rfl, ?_⟩ ?_
      · -- After the name nothing is open yet, and the parenthesis does not care what it follows.
        have hopen : (Status.mk 0 last).step (.text "(") = some ⟨1, some '('⟩ := by
          simp [Status.step, Status.text, Status.isSticky, isUnmarked, Reading.next, scan,
            Reading.found, Reading.atEnd, depthAfter]
        rw [Outline.run_append, Outline.run, hlast, Option.bind_some, Outline.run, hopen,
          Option.bind_some, run_joinOutline step_comma (by decide)]
        rfl
      · exact .append (.append (.append (.text hn) (.text (by decide)))
          (framed_join (by decide) hds)) (.text (by decide))

/-- The parentheses of a function frame its arguments. -/
theorem framed_coalesce {parts : List Sql} (h : ∀ s ∈ parts, Framed [.inPlace] s.draft) :
    Framed [.inPlace] (coalesce parts).draft := by
  have hjoin := framed_join (show ", " ≠ "" by decide) (framed_draftList h)
  show Framed [.inPlace] (.text "COALESCE(" ++ Draft.join ", " (draftList parts) ++ .text ")")
  cases hds : draftList parts with
  | nil =>
    exact .frame (by decide) (.append (.append (.text (by decide)) .empty) (.text (by decide)))
  | cons d ds =>
    rw [hds] at hjoin
    exact .frame (sound_listed rfl step_comma ds.length)
      (.append (.append (.text (by decide)) hjoin) (.text (by decide)))

/-- The parentheses of a search frame the items, and another pair the whole. -/
theorem framed_inList {needle : Sql} {items : List Sql}
    (hn : Framed [.inPlace] needle.draft)
    (h : ∀ s ∈ items, Framed [.inPlace] s.draft) :
    Framed [.inPlace] (inList needle items).draft := by
  have hjoin := framed_join (show ", " ≠ "" by decide) (framed_draftList h)
  show Framed [.inPlace] (inListDraft needle.draft (draftList items))
  cases items with
  -- An empty list is a constant condition, the one form here that leaves the needle out.
  | nil => exact .frame (by decide) (.text (by decide))
  | cons s items =>
    refine .frame (k := .text "(" :: .inPlace :: .text " in (" ::
      joinOutline ", " (draftList (s :: items)).length ++ [.text "))"]) ⟨rfl, ?_⟩ ?_
    · have hopen : Outline.run .start [.text "(", .inPlace, .text " in ("] =
          some ⟨2, some '('⟩ := rfl
      show (Outline.run .start ([.text "(", .inPlace, .text " in ("] ++
        (joinOutline ", " ((draftList items).length + 1) ++ [.text "))"]))).map _ = _
      rw [Outline.run_append, hopen, Option.bind_some, Outline.run_append,
        run_joinOutline step_comma (by decide)]
      rfl
    · exact .append (.append (.append (.append (.text (by decide)) hn)
        (.text (by decide))) hjoin) (.text (by decide))

/-- The outline of the branches of a `case`. -/
def branchesOutline : Nat → Outline
  | 0 => []
  | n + 1 => .text " when " :: .inPlace :: .text " then " :: .inPlace :: branchesOutline n

/-- The words of branches frame tests and values. -/
theorem framed_draftBranches {branches : List (Sql × Sql)}
    (h : ∀ b ∈ branches, Framed [.inPlace] b.1.draft ∧ Framed [.inPlace] b.2.draft) :
    Framed (branchesOutline branches.length) (draftBranches branches) := by
  induction branches with
  | nil => exact .empty
  | cons b branches ih =>
    obtain ⟨test, value⟩ := b
    have hb := h (test, value) (by simp)
    have hrest := ih (fun b hb => h b (List.mem_cons_of_mem _ hb))
    exact .append (.append (.append (.append (.text (by decide)) hb.1) (.text (by decide))) hb.2)
      hrest

/-- Branches lead from a text or a gap to a place where `else` may stand. -/
theorem run_branchesOutline (n : Nat) {σ : Status}
    (hσ : σ.step (.text " else ") = some ⟨1, some ' '⟩)
    (hw : σ.step (.text " when ") = some ⟨1, some ' '⟩) :
    (Outline.run σ (branchesOutline n)).bind (·.step (.text " else ")) = some ⟨1, some ' '⟩ := by
  induction n generalizing σ with
  | zero => exact hσ
  | succ n ih =>
    -- Inside the parenthesis each branch leaves the reader where it found it, after an operand and
    -- one level deep, whatever stood before `when`.
    have hgaps : Outline.run ⟨1, some ' '⟩ [.inPlace, .text " then ", .inPlace] =
        some ⟨1, none⟩ := rfl
    have hrun : Outline.run σ (branchesOutline (n + 1)) =
        Outline.run ⟨1, none⟩ (branchesOutline n) := by
      show Outline.run σ ([.text " when "] ++ ([.inPlace, .text " then ", .inPlace] ++
        branchesOutline n)) = _
      rw [Outline.run_append, Outline.run, hw]
      simp only [Outline.run, Option.bind_some]
      rw [Outline.run_append, hgaps]
      rfl
    rw [hrun]
    exact ih rfl rfl

/-- The words and the parentheses of a `case` frame its branches. -/
theorem framed_caseWhen {branches : List (Sql × Sql)} {otherwise : Sql}
    (h : ∀ b ∈ branches, Framed [.inPlace] b.1.draft ∧ Framed [.inPlace] b.2.draft)
    (ho : Framed [.inPlace] otherwise.draft) :
    Framed [.inPlace] (caseWhen branches otherwise).draft := by
  refine .frame (k := .text "(case" :: branchesOutline branches.length ++ [.text " else "] ++
    [.inPlace] ++ [.text " end)"]) ⟨rfl, ?_⟩ ?_
  · have hcase : Status.start.step (.text "(case") = some ⟨1, some 'e'⟩ := rfl
    have hbranches := run_branchesOutline branches.length (σ := ⟨1, some 'e'⟩) rfl rfl
    obtain ⟨σ, hσ, helse⟩ := Option.bind_eq_some_iff.mp hbranches
    rw [List.append_assoc, List.append_assoc, Outline.run_append, Outline.run, hcase,
      Option.bind_some, hσ, Option.bind_some]
    show ((σ.step (.text " else ")).bind _).map _ = _
    rw [helse]
    rfl
  · exact .append (.append (.append (.append (.text (by decide)) (framed_draftBranches h))
      (.text (by decide))) ho) (.text (by decide))

/-- A relation that looks at the left list only is a property of its members. -/
theorem forall_mem_left {α β : Type} {P : α → Prop} {l : List α} {l' : List β}
    (h : List.Forall₂ (fun a _ => P a) l l') : ∀ a ∈ l, P a := by
  induction h with
  | nil => simp
  | cons ha _ ih => simpa using ⟨ha, ih⟩

/-- Every form of sound rules keeps drafts framed. -/
theorem framed_respects {d : Rules} (hd : d.Sound) :
    d.Respects (fun s _ => Framed [.inPlace] s.draft) where
  form := fun {t ss ss'} hu h => by
    refine framed_formDraft ?_ (framed_draftList (forall_mem_left h))
    rw [draftList_eq_map, List.length_map]
    exact hd.template hu
  prefixed := fun ht h => framed_prefixed hd ht h
  infixed := fun ht hl hr => framed_infixed hd ht hl hr
  concat := fun h => framed_concat hd.concat (forall_mem_left h)
  coalesce := fun h => framed_coalesce (forall_mem_left h)
  inList := fun hn h => framed_inList hn (forall_mem_left h)
  caseWhen := fun h ho => framed_caseWhen (forall_mem_left h) ho
  level := .level
  fault := fun _ _ => .fault

end Sql

/-- **Trees are framed.** Under sound rules a tree is laid out, as a condition, from sound
    outlines. -/
theorem Expr.framed {d : Rules} (hd : d.Sound) (e : Expr) (p : Position) :
    Framed [.inPlace] (e.predicate d p).draft :=
  (Expr.layout_related (Sql.framed_respects hd) (fun _ _ h => by rw [h])
    (fun _ _ _ _ => .constant) (fun _ => .column) (alike_refl (fun _ => rfl) e) p).predicate

end WhereClause
