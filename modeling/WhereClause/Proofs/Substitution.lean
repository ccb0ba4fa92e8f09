import WhereClause.Expr.Build
import WhereClause.Proofs.Coverage
import WhereClause.Proofs.Framing
import WhereClause.Proofs.Tables

namespace WhereClause

/-!
# Parameters stand where literals would

A tree rendered with parameters and the same tree rendered without them are one row of segments. In
one text each mark is the name of a parameter, and in the other it is the literal of the value, set
apart like an operand from a hyphen before it. The writer decides about parentheses for whole
operands and not for constants; both come to the same because an operand that begins with a constant
is nothing but that constant.

* `Segment.writeApart` — segments with their marks set apart;
* `Begins`, `Framed.shape` — how the segments of an operand begin;
* `Framed.apart_eq` — two spellings of one draft side by side;
* `Renderer.exists_segments` — one row of segments for both renderings of a tree.
-/

namespace Segment

variable {α : Type} {f : α → String}

/-- A text after another of which it is known whether it ends in a hyphen. -/
def guardedAfter (b : Bool) (t : String) : String :=
  if b && t.startsWith '-' then "(" ++ t ++ ")" else t

/-- Segments after a text, with every mark set apart from what stands before it. -/
def writeApart (f : α → String) (before : String) : List (Segment α) → String
  | [] => before
  | text t :: l => writeApart f (before ++ t) l
  | mark a :: l => writeApart f (before ++ guarded before (f a)) l

/-- What is added to a text of which it is known whether it ends in a hyphen. -/
def apart (f : α → String) : Bool → List (Segment α) → String
  | _, [] => ""
  | b, text t :: l => t ++ apart f (hyphenAfter b t) l
  | b, mark a :: l => guardedAfter b (f a) ++ apart f (hyphenAfter b (guardedAfter b (f a))) l

/-- Nothing but the last character of a text matters for what follows. -/
theorem writeApart_eq (f : α → String) (before : String) (l : List (Segment α)) :
    writeApart f before l = before ++ apart f (before.endsWith '-') l := by
  induction l generalizing before with
  | nil => simp [writeApart, apart]
  | cons seg l ih =>
    cases seg with
    | text t => simp [writeApart, apart, ih, endsWith_append_hyphen, String.append_assoc]
    | mark a =>
      have hguarded : guarded before (f a) = guardedAfter (before.endsWith '-') (f a) := rfl
      simp [writeApart, apart, ih, hguarded, endsWith_append_hyphen, String.append_assoc]

/-- Rows are kept apart one after the other, from the hyphen at the end of the first. -/
theorem apart_append (f : α → String) (b : Bool) (l m : List (Segment α)) :
    apart f b (l ++ m) = apart f b l ++ apart f (hyphenAfter b (apart f b l)) m := by
  induction l generalizing b with
  | nil => simp [apart, hyphenAfter]
  | cons seg l ih =>
    cases seg with
    | text t => simp [apart, ih, hyphenAfter_append, String.append_assoc]
    | mark a => simp [apart, ih, hyphenAfter_append, String.append_assoc]

/-- After a text that is not empty it does not matter what was before. -/
theorem hyphenAfter_of_ne {t : String} (ht : t ≠ "") (b b' : Bool) :
    hyphenAfter b t = hyphenAfter b' t := by
  have hlast : t.toList.getLast? ≠ none := by simpa using ht
  simp only [hyphenAfter]
  cases h : t.toList.getLast? with
  | none => exact absurd h hlast
  | some c => rfl

/-- Segments that begin with a text do not depend on what stands before them. -/
theorem apart_text_cons {t : String} (ht : t ≠ "") (b b' : Bool) (l : List (Segment α)) :
    apart f b (text t :: l) = apart f b' (text t :: l) := by
  rw [apart, apart, hyphenAfter_of_ne ht b b']

/-- The first character of a text that is not empty is that of the whole. -/
theorem startsWith_append {t : String} (ht : t ≠ "") (s : String) :
    (t ++ s).startsWith '-' = t.startsWith '-' := by
  have hne : t.toList ≠ [] := by simpa using ht
  rw [String.startsWith_char_eq_head?, String.startsWith_char_eq_head?, String.toList_append,
    List.head?_append_of_ne_nil _ hne]

/-- A segment with its mark, if that is kept, and with its text otherwise. -/
def fix (keep : α → Bool) (f : α → String) : Segment α → Segment α
  | text t => text t
  | mark a => if keep a then mark a else text (f a)

/-- Fixing marks as texts does not change what is written. -/
theorem write_map_fix (keep : α → Bool) (f : α → String) (l : List (Segment α)) :
    write f (l.map (fix keep f)) = write f l := by
  induction l with
  | nil => rfl
  | cons seg l ih =>
    cases seg with
    | text t => simp [fix, ih, spelled]
    | mark a => cases hkeep : keep a <;> simp [fix, hkeep, ih, spelled]

/-- The marks that are left are those that are kept. -/
theorem mark_mem_map_fix {keep : α → Bool} {a : α} {l : List (Segment α)} :
    .mark a ∈ l.map (fix keep f) ↔ .mark a ∈ l ∧ keep a := by
  rw [List.mem_map]
  constructor
  · rintro ⟨seg, hseg, heq⟩
    cases seg with
    | text t => simp [fix] at heq
    | mark b =>
      cases hkeep : keep b with
      | true =>
        obtain rfl : b = a := by simpa [fix, hkeep] using heq
        exact ⟨hseg, hkeep⟩
      | false => simp [fix, hkeep] at heq
  · rintro ⟨ha, hkeep⟩
    exact ⟨_, ha, by simp [fix, hkeep]⟩

/-! ### Other marks -/

/-- Two segments that are the same up to their marks, which are related. -/
inductive Rel {β : Type} (P : α → β → Prop) : Segment α → Segment β → Prop
  | text {t} : Rel P (.text t) (.text t)
  | mark {a b} : P a b → Rel P (.mark a) (.mark b)

variable {β : Type} {P : α → β → Prop} {g : β → String} {l : List (Segment α)}
  {m : List (Segment β)}

/-- Marks can be replaced by others that are related to them. -/
theorem exists_rel (h : ∀ a, .mark a ∈ l → ∃ b, P a b) :
    ∃ m : List (Segment β), List.Forall₂ (Rel P) l m := by
  induction l with
  | nil => exact ⟨[], .nil⟩
  | cons seg l ih =>
    obtain ⟨m, hm⟩ := ih fun a ha => h a (List.mem_cons_of_mem _ ha)
    cases seg with
    | text t => exact ⟨.text t :: m, .cons .text hm⟩
    | mark a =>
      obtain ⟨b, hb⟩ := h a (by simp)
      exact ⟨.mark b :: m, .cons (.mark hb) hm⟩

/-- Rows that differ in marks with the same texts are written alike. -/
theorem write_eq_of_rel (h : List.Forall₂ (Rel P) l m) (hfg : ∀ a b, P a b → f a = g b) :
    write f l = write g m := by
  induction h with
  | nil => rfl
  | cons hseg _ ih =>
    cases hseg with
    | text => simp [ih, spelled]
    | mark hab => simp [ih, spelled, hfg _ _ hab]

/-- Also where operands are kept apart from hyphens. -/
theorem writeApart_eq_of_rel (h : List.Forall₂ (Rel P) l m) (hfg : ∀ a b, P a b → f a = g b)
    (before : String) : writeApart f before l = writeApart g before m := by
  induction h generalizing before with
  | nil => rfl
  | cons hseg _ ih =>
    cases hseg with
    | text => simp [writeApart, ih]
    | mark hab => simp [writeApart, ih, hfg _ _ hab]

/-- Every mark has its counterpart in the other row. -/
theorem exists_mark_of_rel (h : List.Forall₂ (Rel P) l m) {a : α} (ha : .mark a ∈ l) :
    ∃ b, .mark b ∈ m ∧ P a b := by
  induction h with
  | nil => simp at ha
  | cons hseg _ ih =>
    rcases List.mem_cons.mp ha with rfl | ha
    · cases hseg with
      | mark hab => exact ⟨_, by simp, hab⟩
    · obtain ⟨b, hb, hab⟩ := ih ha
      exact ⟨b, List.mem_cons_of_mem _ hb, hab⟩

end Segment

open Segment

/-! ### How operands begin -/

variable {k : Outline} {d : Draft}

/-- An operand is one constant, or nothing at all, or it begins with a text that does not depend on
    how constants are spelled. -/
def Begins (column : String → String) (d : Draft) : Prop :=
  (∃ x, ∀ g, d.segments ⟨column, g⟩ false = [.mark x]) ∨
  (∀ g, d.segments ⟨column, g⟩ false = []) ∨
  (∃ t ≠ "", ∀ g, ∃ l, d.segments ⟨column, g⟩ false = .text t :: l)

/-- Only the segments of a draft matter for how it begins. -/
theorem Begins.congr {column : String → String} {d d' : Draft} (h : Begins column d)
    (heq : ∀ g, d'.segments ⟨column, g⟩ false = d.segments ⟨column, g⟩ false) :
    Begins column d' := by
  simpa only [Begins, heq] using h

/-- What is known of the first segments of a draft by its outline. -/
structure Framed.Shape (column : String → String) (k : Outline) (d : Draft) : Prop where
  nil : k = [] → ∀ g b, d.segments ⟨column, g⟩ b = []
  text : ∀ t l, k = .text t :: l → t ≠ "" ∧
    ∀ g b, ∃ m, d.segments ⟨column, g⟩ b = .text t :: m
  gap : k = [.inPlace] ∨ k = [.apart] → Begins column d

/-- Along an outline a draft has the shape of that outline: fixed texts, and operands in place or
    apart. -/
theorem Framed.shape (h : Framed k d) (column : String → String) : Framed.Shape column k d := by
  induction h with
  | empty => exact ⟨fun _ _ _ => rfl, by simp, by simp⟩
  | blank => exact ⟨fun _ _ _ => rfl, by simp, by simp⟩
  | @text t ht =>
    refine ⟨by simp, ?_, by simp⟩
    intro t' l hk
    obtain ⟨rfl, -⟩ : t = t' ∧ l = [] := by simpa using hk
    exact ⟨ht, fun g b => ⟨[], Segment.ofText_of_ne ht⟩⟩
  | @column name =>
    refine ⟨by simp, by simp, fun _ => ?_⟩
    by_cases hname : column name = ""
    · exact .inr (.inl fun g => by simp [Draft.segments, hname, ofText])
    · exact .inr (.inr ⟨column name, hname, fun g => ⟨[], Segment.ofText_of_ne hname⟩⟩)
  | @constant place c =>
    exact ⟨by simp, by simp, fun _ => .inl ⟨(place, c), fun g => rfl⟩⟩
  | fault => exact ⟨by simp, by simp, fun _ => .inr (.inl fun g => rfl)⟩
  | level _ ih => exact ⟨by simp, by simp, fun _ => ih.gap (.inl rfl)⟩
  | operand _ ih => exact ⟨by simp, by simp, fun _ => ih.gap (.inl rfl)⟩
  | @append k l first second _ _ iha ihb =>
    refine ⟨?_, ?_, ?_⟩
    · intro hk g b
      obtain ⟨hk, hl⟩ := List.append_eq_nil_iff.mp hk
      rw [Draft.segments_append, iha.nil hk, ihb.nil hl]
      rfl
    · intro t m hk
      cases k with
      | nil =>
        obtain ⟨ht, hsecond⟩ := ihb.text t m hk
        refine ⟨ht, fun g b => ?_⟩
        rw [Draft.segments_append, iha.nil rfl]
        exact hsecond g _
      | cons part k =>
        obtain ⟨rfl, rfl⟩ : part = .text t ∧ k ++ l = m := by simpa using hk
        obtain ⟨ht, hfirst⟩ := iha.text t k rfl
        refine ⟨ht, fun g b => ?_⟩
        obtain ⟨m, hm⟩ := hfirst g b
        rw [Draft.segments_append, hm]
        exact ⟨_, rfl⟩
    · intro hk
      -- One of the two parts is the gap and the other one is empty.
      cases k with
      | nil =>
        refine (ihb.gap hk).congr fun g => ?_
        rw [Draft.segments_append, iha.nil rfl]
        rfl
      | cons part k =>
        obtain ⟨rfl, rfl⟩ : k = [] ∧ l = [] := by
          rcases hk with hk | hk <;> simpa using (List.cons.inj hk).2
        refine (iha.gap (by simpa using hk)).congr fun g => ?_
        rw [Draft.segments_append, ihb.nil rfl, List.append_nil]
  | @frame k d hsound _ ih =>
    refine ⟨by simp, by simp, fun _ => ?_⟩
    rcases Outline.eq_of_isHeaded hsound.1 with rfl | rfl | ⟨t, l, rfl⟩
    · exact ih.gap (.inl rfl)
    · exact ih.gap (.inr rfl)
    · obtain ⟨ht, hsegments⟩ := ih.text t l rfl
      exact .inr (.inr ⟨t, ht, fun g => hsegments g false⟩)

/-! ### Two spellings side by side -/

/-- Whether the text ends in a hyphen is as the status says, where it says anything. -/
def Status.Tracks (σ : Status) (b : Bool) : Prop := ∀ c, σ.last = some c → b = (c == '-')

namespace Status

variable {σ σ' : Status} {b b' : Bool}

/-- At the start nothing is behind. -/
theorem tracks_start : start.Tracks false := by
  intro c hc
  obtain rfl : ' ' = c := Option.some.inj hc
  rfl

/-- In front of a gap it is known whether the text ends in a hyphen; if the gap is filled in place,
    it does not. -/
theorem Tracks.of_gap {inPlace : Bool} (hb : σ.Tracks b) (hb' : σ.Tracks b')
    (h : σ.gap inPlace = some σ') : b = b' ∧ (inPlace → b = false) := by
  obtain ⟨hloose, hhyphen, -⟩ := gap_eq_some h
  cases hlast : σ.last with
  | none => simp [isLoose, hlast] at hloose
  | some c =>
    refine ⟨(hb c hlast).trans (hb' c hlast).symm, fun hin => ?_⟩
    rw [hb c hlast, beq_eq_false_iff_ne]
    rintro rfl
    exact hhyphen hin hlast

end Status

/-- What is written along an outline ends as the outline says. -/
theorem Framed.tracks {f : Spelling} {σ σ' : Status} (h : Framed k d)
    (hrun : Outline.run σ k = some σ') {b : Bool} (hb : σ.Tracks b) :
    σ'.Tracks (hyphenAfter b (Segment.write f.constant (d.segments f b))) := by
  -- After anything but a fixed text the status knows no last character, and tracks whatever stands
  -- there.
  have hgap : ∀ {inPlace : Bool} {σ σ' : Status} (b : Bool), σ.gap inPlace = some σ' →
      σ'.Tracks b := by
    intro inPlace σ σ' b h c hc
    obtain ⟨-, -, rfl⟩ := Status.gap_eq_some h
    exact absurd hc (by simp)
  induction h generalizing σ σ' b with
  | empty | blank =>
    obtain rfl : σ = σ' := Option.some.inj hrun
    exact hb
  | @text t ht =>
    rw [Outline.run_singleton] at hrun
    intro c hc
    have hlast : t.toList.getLast? = some c := by rw [← hc, (Status.admits_of_text hrun).last]
    simp [Draft.segments, hyphenAfter, hlast]
  | column | constant | fault | level | operand | frame =>
    rw [Outline.run_singleton] at hrun
    exact hgap _ hrun
  | append _ _ iha ihb =>
    rw [Outline.run_append] at hrun
    obtain ⟨σ₁, hrun₁, hrun₂⟩ := Option.bind_eq_some_iff.mp hrun
    rw [Draft.segments_append, Segment.write_append, hyphenAfter_append]
    exact ihb hrun₂ (iha hrun₁ hb)

/-- Two spellings that agree on columns and on the constants that are not kept. Where a constant is
    kept, the first one does not begin with a hyphen. -/
structure Spelling.Parallel (keep : Position × Constant → Bool) (f g : Spelling) : Prop where
  column : f.column = g.column
  eq : ∀ x, keep x = false → f.constant x = g.constant x
  startsWith : ∀ x, keep x → (f.constant x).startsWith '-' = false

variable {keep : Position × Constant → Bool} {f g : Spelling}

/-- An operand after a hyphen: the parentheses of the second spelling stand around the marks of the
    first that are set apart, or around the whole operand in both. -/
theorem Begins.apart_eq (hfg : Spelling.Parallel keep f g) (hd : Begins f.column d)
    (hinner : apart g.constant false ((d.segments f false).map (fix keep f.constant)) =
      Segment.write g.constant (d.segments g false)) :
    apart g.constant true ((Draft.segments f true (.operand d)).map (fix keep f.constant)) =
      Segment.write g.constant (Draft.segments g true (.operand d)) := by
  obtain ⟨column, spellF⟩ := f
  obtain ⟨column', spellG⟩ := g
  obtain rfl : column = column' := hfg.column
  simp only [Draft.segments, Bool.true_and] at hinner ⊢
  obtain ⟨x, hx⟩ | hnil | ⟨t, ht, htext⟩ := hd
  · -- Nothing but a constant: both set the same text apart.
    rw [hx, hx]
    cases hkeep : keep x with
    | true =>
      have hstart : (spellF x).startsWith '-' = false := hfg.startsWith x hkeep
      by_cases hg : (spellG x).startsWith '-' <;>
        simp [Segment.spelled, hstart, fix, hkeep, apart, guardedAfter, hg, String.append_assoc]
    | false =>
      have heq : spellF x = spellG x := hfg.eq x hkeep
      by_cases hg : (spellG x).startsWith '-' <;>
        simp [Segment.spelled, fix, hkeep, apart, heq, hg]
  · rw [hnil, hnil]
    simp [apart, String.startsWith_char_eq_head?]
  · -- A text in front decides about the parentheses, for both alike.
    obtain ⟨l, hl⟩ := htext spellF
    obtain ⟨m, hm⟩ := htext spellG
    have hstart : ∀ (h : Position × Constant → String) {l : List (Segment (Position × Constant))},
        (Segment.write h (.text t :: l)).startsWith '-' = t.startsWith '-' := fun h l =>
      startsWith_append ht _
    have hindep : apart spellG true ((Draft.segments ⟨column, spellF⟩ false d).map
        (fix keep spellF)) = apart spellG false ((Draft.segments ⟨column, spellF⟩ false d).map
        (fix keep spellF)) := by
      rw [hl]
      exact apart_text_cons ht _ _ _
    rw [show (Segment.write spellF (Draft.segments ⟨column, spellF⟩ false d)).startsWith '-' =
        t.startsWith '-' by rw [hl, hstart],
      show (Segment.write spellG (Draft.segments ⟨column, spellG⟩ false d)).startsWith '-' =
        t.startsWith '-' by rw [hm, hstart]]
    split
    · have hparen : hyphenAfter true "(" = false := rfl
      simp only [List.cons_append, List.map_cons, List.map_append, List.map_nil, fix, apart, hparen,
        apart_append, hinner, Segment.write_cons, Segment.write_append, Segment.write_nil,
        Segment.spelled]
    · rw [hindep, hinner]

/-- **One row of segments.** Along an outline, the segments of the first spelling with the kept
    marks in it set apart spell what the second spelling writes. -/
theorem Framed.apart_eq (hfg : Spelling.Parallel keep f g) (h : Framed k d) {σ σ' : Status}
    (hrun : Outline.run σ k = some σ') {b b' : Bool} (hb : σ.Tracks b) (hb' : σ.Tracks b') :
    apart g.constant b' ((d.segments f b).map (fix keep f.constant)) =
      Segment.write g.constant (d.segments g b') := by
  induction h generalizing σ σ' b b' with
  | empty | blank => rfl
  | text ht => simp [Draft.segments, ofText_of_ne ht, fix, apart, Segment.spelled]
  | @column name =>
    simp only [Draft.segments, ← hfg.column]
    by_cases hname : f.column name = ""
    · simp [hname, ofText, apart]
    · simp [ofText_of_ne hname, fix, apart, Segment.spelled]
  | @constant place c =>
    rw [Outline.run_singleton] at hrun
    -- The outline admits a constant only where no hyphen stands before it, so neither side guards
    -- it.
    obtain rfl : b' = false := (hb'.of_gap hb hrun).2 rfl
    cases hkeep : keep (place, c) with
    | true => simp [Draft.segments, fix, hkeep, apart, guardedAfter, Segment.spelled]
    | false =>
      simp [Draft.segments, fix, hkeep, apart, Segment.spelled, hfg.eq (place, c) hkeep]
  | fault => rfl
  | level _ ih => exact ih hrun hb hb'
  | @operand d hd ih =>
    rw [Outline.run_singleton] at hrun
    obtain ⟨rfl, -⟩ := hb.of_gap hb' hrun
    have hinner := ih Outline.run_start_inPlace Status.tracks_start Status.tracks_start
    cases b with
    | false => exact hinner
    -- After a hyphen the operand is guarded by parentheses where it begins with one; its shape says
    -- that the guard looks at one segment only.
    | true => exact ((hd.shape f.column).gap (.inl rfl)).apart_eq hfg hinner
  | append ha _ iha ihb =>
    rw [Outline.run_append] at hrun
    obtain ⟨σ₁, hrun₁, hrun₂⟩ := Option.bind_eq_some_iff.mp hrun
    have hfirst := iha hrun₁ hb hb'
    rw [Draft.segments_append, Draft.segments_append, List.map_append, apart_append, hfirst,
      Segment.write_append]
    congr 1
    exact ihb hrun₂ (ha.tracks hrun₁ hb) (ha.tracks hrun₁ hb')
  | frame hsound _ ih =>
    rw [Outline.run_singleton] at hrun
    obtain ⟨rfl, hplace⟩ := hb.of_gap hb' hrun
    obtain rfl : b = false := hplace rfl
    obtain ⟨last, hlast⟩ := hsound.exists_run
    exact ih hlast Status.tracks_start Status.tracks_start

/-! ### Numbers of parameters -/

/-- A parameter of a query, by its number, is the one of a constant. -/
structure Transcript.Occurs (b : Bindings) (q : Query) (x : Position × Constant)
    (i : Fin q.parameters.length) : Prop where
  entry : b.entries[i.val]? = some (x.1, q.parameters[i])
  value : q.parameters[i].value = x.2.value

namespace Transcript

variable {w : Settings} {e : Expr} {b : Bindings} {q : Query}

/-- The entries are the places with the parameters of the query, in order. -/
theorem entries_getElem? {d : Draft} (h : Transcript w d b q) (i : Fin q.parameters.length) :
    ∃ place, b.entries[i.val]? = some (place, q.parameters[i]) := by
  have hi : (b.entries.map Prod.snd)[i.val]? = some q.parameters[i] := by
    rw [h.lists.aligned.map_snd_entries, ← h.parameters]
    exact List.getElem?_eq_getElem i.isLt
  rw [List.getElem?_map, Option.map_eq_some_iff] at hi
  obtain ⟨⟨place, p⟩, hentry, rfl⟩ := hi
  exact ⟨place, hentry⟩

/-- Every constant that is bound and written has a number. -/
theorem exists_occurs (h : Transcript w (e.predicate w.rules (.root 0)).draft b q)
    (hd : w.rules.Sound) {x : Position × Constant}
    (hx : x ∈ (e.predicate w.rules (.root 0)).draft.constants) (hbinds : w.mode.binds x.2.value) :
    ∃ i, Occurs b q x i := by
  obtain ⟨p, hp, hcarries⟩ := h.exists_parameter hd hx hbinds
  obtain ⟨n, hn⟩ := List.getElem?_of_mem hp
  have hparameter : q.parameters[n]? = some p := by
    rw [h.parameters, ← h.lists.aligned.map_snd_entries, List.getElem?_map, hn]
    rfl
  obtain ⟨hlt, rfl⟩ := List.getElem?_eq_some_iff.mp hparameter
  exact ⟨⟨n, hlt⟩, hn, hcarries.value⟩

/-- Every parameter is that of some constant, and of no place but one. -/
theorem exists_constant_occurs (h : Transcript w (e.predicate w.rules (.root 0)).draft b q)
    (hd : w.rules.Sound) (i : Fin q.parameters.length) :
    ∃ x ∈ (e.predicate w.rules (.root 0)).draft.constants, w.mode.binds x.2.value ∧
      Occurs b q x i ∧ ∀ j, Occurs b q x j → j = i := by
  obtain ⟨place, hentry⟩ := h.entries_getElem? i
  obtain ⟨c, -, hc, hbinds, hcarries⟩ := h.exists_constant hd (List.mem_of_getElem? hentry)
  refine ⟨(place, c), hc, hbinds, ⟨hentry, hcarries.value⟩, fun j hj => ?_⟩
  have hplace : ∀ {n p}, b.entries[n]? = some (place, p) →
      (b.entries.map Prod.fst)[n]? = some place := fun hn => by rw [List.getElem?_map, hn]; rfl
  have hi := hplace hentry
  obtain ⟨hlt, -⟩ := List.getElem?_eq_some_iff.mp hi
  exact Fin.ext ((List.getElem?_inj hlt h.lists.nodup).mp (hi.trans (hplace hj.entry).symm)).symm

/-- The spelling of a constant that is bound is the name of its parameter. -/
theorem spell_eq {d : Draft} (h : Transcript w d b q) {x : Position × Constant}
    (hbinds : w.mode.binds x.2.value) {i : Fin q.parameters.length} (hi : Occurs b q x i) :
    w.spell b x = w.rules.paramMark ++ q.parameters[i].name := by
  have hfound := h.lists.find?_eq (List.mem_of_getElem? hi.entry)
  simp [Settings.spell, Bindings.nameAt, hbinds, hfound]

end Transcript

/-! ### Renderings of a tree -/

namespace Dialect

/-- The mark of a parameter is no hyphen. -/
theorem paramMark_startsWith (d : Dialect) (t : String) :
    (d.rules.paramMark ++ t).startsWith '-' = false := by
  have hmark : d.rules.paramMark ≠ "" ∧ d.rules.paramMark.startsWith '-' = false := by
    cases d <;> decide +kernel
  rw [startsWith_append hmark.1, hmark.2]

end Dialect

namespace Renderer

variable {r : Renderer} {e : Expr} {b b' : Bindings} {q q' : Query}

/-- The two renderings of a tree spell constants in parallel, if those that are bound are kept. -/
theorem parallel (r : Renderer) (b b' : Bindings) :
    Spelling.Parallel (fun x => r.policy.binds x.2.value)
      ⟨(r.settings (.parameterized r.policy)).resolve,
        (r.settings (.parameterized r.policy)).spell b⟩
      ⟨(r.settings .inline).resolve, (r.settings .inline).spell b'⟩ where
  column := rfl
  eq x hx := by simp [Settings.spell, settings, Mode.binds, hx]
  startsWith x hx := by
    simpa [Settings.spell, settings, Mode.binds, hx] using r.dialect.paramMark_startsWith _

/-- One row of segments gives both texts of a tree, with the constants that are bound as marks. -/
theorem exists_marked
    (h : Transcript (r.settings (.parameterized r.policy))
      (e.predicate r.dialect.rules (.root 0)).draft b q)
    (h' : Transcript (r.settings .inline) (e.predicate r.dialect.rules (.root 0)).draft b' q') :
    ∃ l : List (Segment (Position × Constant)),
      Segment.write ((r.settings (.parameterized r.policy)).spell b) l = q.sql ∧
      Segment.writeApart ((r.settings .inline).spell b') "" l = q'.sql ∧
      ∀ x, .mark x ∈ l ↔
        x ∈ (e.predicate r.dialect.rules (.root 0)).draft.constants ∧ r.policy.binds x.2.value := by
  have hapart := (e.framed r.dialect.sound (.root 0)).apart_eq (r.parallel b b')
    Outline.run_start_inPlace Status.tracks_start Status.tracks_start
  let w := r.settings (.parameterized r.policy)
  refine ⟨((e.predicate r.dialect.rules (.root 0)).draft.segments ⟨w.resolve, w.spell b⟩ false).map
    (fix (fun x => r.policy.binds x.2.value) (w.spell b)), ?_, ?_, fun x => ?_⟩
  · rw [h.sql]
    exact Segment.write_map_fix ..
  -- The inline text puts the guard in again, because the bound text had placeholders where it had
  -- literals.
  · rw [Segment.writeApart_eq, endsWith_empty_hyphen, h'.sql]
    exact (String.empty_append ..).trans hapart
  · rw [mark_mem_map_fix, ← Segment.mem_marks, Draft.marks_segments]

/-- **One row of segments for both renderings.** If a tree can be rendered with parameters and with
    literals, there is a row of fixed texts and occurrences of parameters that gives the first text
    if each occurrence is the name of its parameter, and the second one if it is the literal of the
    value, in parentheses where two hyphens would meet. Every parameter occurs. -/
theorem exists_segments (hq : r.parameterized e = .ok q) {sql : String}
    (hsql : r.inline e = .ok sql) :
    ∃ segs : List (Segment (Fin q.parameters.length)),
      Segment.write (fun i => r.dialect.rules.paramMark ++ q.parameters[i].name) segs = q.sql ∧
      (∀ i : Fin q.parameters.length,
        (r.dialect.rules.literal q.parameters[i].value).isSome) ∧
      Segment.writeApart (fun i => (r.dialect.rules.literal q.parameters[i].value).getD "") ""
        segs = sql ∧
      ∀ i, .mark i ∈ segs := by
  obtain ⟨b, h⟩ := Settings.exists_transcript hq
  obtain ⟨q', hq', rfl⟩ : ∃ q', (r.settings .inline).query e = .ok q' ∧ q'.sql = sql := by
    cases hquery : (r.settings .inline).query e with
    | error err => simp [inline, hquery, Except.map] at hsql
    | ok q' => exact ⟨q', rfl, by simpa [inline, hquery, Except.map] using hsql⟩
  obtain ⟨b', h'⟩ := Settings.exists_transcript hq'
  have hd : r.dialect.rules.Sound := r.dialect.sound
  obtain ⟨l, hwrite, happly, hmarks⟩ := exists_marked h h'
  -- The marks are constants that have parameters, so the numbers of these can take their place.
  obtain ⟨segs, hsegs⟩ := Segment.exists_rel
    (P := fun x i => r.policy.binds x.2.value ∧ Transcript.Occurs b q x i) (l := l)
    (fun x hx => by
      obtain ⟨hmem, hbinds⟩ := (hmarks x).mp hx
      obtain ⟨i, hi⟩ := h.exists_occurs hd hmem hbinds
      exact ⟨i, hbinds, hi⟩)
  refine ⟨segs, ?_, ?_, ?_, ?_⟩
  · rw [← hwrite]
    exact (Segment.write_eq_of_rel hsegs fun x i hx => h.spell_eq hx.1 hx.2).symm
  · intro i
    obtain ⟨x, hx, -, hoccurs, -⟩ := h.exists_constant_occurs hd i
    obtain ⟨t, ht⟩ := h'.literals x hx rfl
    rw [hoccurs.value]
    exact Option.isSome_of_eq_some ht
  · rw [← happly]
    refine (Segment.writeApart_eq_of_rel hsegs (fun x i hx => ?_) "").symm
    rw [hx.2.value]
    rfl
  · intro i
    obtain ⟨x, hx, hbinds, -, hunique⟩ := h.exists_constant_occurs hd i
    obtain ⟨j, hj, -, hoccurs⟩ := Segment.exists_mark_of_rel hsegs ((hmarks x).mpr ⟨hx, hbinds⟩)
    exact hunique j hoccurs ▸ hj

/-- A number below zero that is negated gets parentheses as a literal and none as a parameter. -/
theorem exists_segments_negated :
    let r := Renderer.of .generic
    let five : Value := .int ⟨.i32, -5, by decide⟩
    let tree := Build.binary .greaterThan (Build.column "A" .integer)
      (Build.unary .negate (Build.literal five))
    let q : Query := ⟨"(A > -@p0)", [⟨"p0", .of (.int .i32), ⟨.int, true, 0, 0, 0⟩, five⟩]⟩
    r.parameterized tree = .ok q ∧ r.inline tree = .ok "(A > -(-5))" ∧
      ∃ segs : List (Segment (Fin q.parameters.length)),
        Segment.write (fun i => r.dialect.rules.paramMark ++ q.parameters[i].name) segs = q.sql ∧
        (∀ i : Fin q.parameters.length,
          (r.dialect.rules.literal q.parameters[i].value).isSome) ∧
        Segment.writeApart (fun i => (r.dialect.rules.literal q.parameters[i].value).getD "") ""
          segs = "(A > -(-5))" ∧
        ∀ i, .mark i ∈ segs := by
  intro r five tree q
  have hq : r.parameterized tree = .ok q := by decide +kernel
  have hsql : r.inline tree = .ok "(A > -(-5))" := by decide +kernel
  exact ⟨hq, hsql, exists_segments hq hsql⟩

end Renderer

end WhereClause
