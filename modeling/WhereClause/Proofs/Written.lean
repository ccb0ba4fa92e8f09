import Mathlib.Data.List.Induction
import Mathlib.Data.List.Nodup
import WhereClause.Renderer

namespace WhereClause

/-!
# What a writing leaves behind

A writing that succeeds can be told without its states. The text it adds is a row of segments, each
of them fixed or the spelling of a constant, and the parameters it binds are those of the constants
in the order in which they are written, each place once.

* `Segment` — rows of fixed texts and marks;
* `Draft.constants`, `Draft.columns`, `Draft.segments` — what is to be written, from left to right;
* `Bindings.Lists` — the parameters are those of some constants, in order;
* `Written` — the ways in which a draft can be written to its end;
* `Written.text_eq`, `Written.lists` — the text and the parameters of a complete writing;
* `Transcript`, `Settings.exists_transcript` — both, for a whole query.
-/

/-! ### Segments -/

/-- A stretch of text: fixed, or a mark that stands for some text. -/
inductive Segment (α : Type) where
  | text (t : String)
  | mark (a : α)

namespace Segment

variable {α : Type}

/-- A segment with the text of its mark. -/
def spelled (f : α → String) : Segment α → String
  | text t => t
  | mark a => f a

/-- Segments one after another. -/
def write (f : α → String) : List (Segment α) → String
  | [] => ""
  | seg :: l => seg.spelled f ++ write f l

/-- No segments are no text. -/
@[simp] theorem write_nil (f : α → String) : write f [] = "" := rfl

/-- Unfolding lemma: the first segment is written before the others. -/
@[simp] theorem write_cons (f : α → String) (seg : Segment α) (l : List (Segment α)) :
    write f (seg :: l) = seg.spelled f ++ write f l := rfl

/-- Rows of segments are written one after the other. -/
@[simp] theorem write_append (f : α → String) (l m : List (Segment α)) :
    write f (l ++ m) = write f l ++ write f m := by
  induction l with
  | nil => simp
  | cons seg l ih => simp [ih, String.append_assoc]

/-- A fixed text as a row of segments, none if the text is empty. -/
def ofText (t : String) : List (Segment α) := if t = "" then [] else [text t]

/-- A text that is not empty is one segment. -/
theorem ofText_of_ne {t : String} (ht : t ≠ "") : ofText t = [(text t : Segment α)] := if_neg ht

/-- A text is written as it is. -/
@[simp] theorem write_ofText (f : α → String) (t : String) : write f (ofText t) = t := by
  unfold ofText
  split
  · next ht => exact ht.symm
  · simp [spelled]

/-- The mark of a segment. -/
def mark? : Segment α → Option α
  | text _ => none
  | mark a => some a

/-- The marks in some segments, in order. -/
def marks (l : List (Segment α)) : List α := l.filterMap mark?

/-- No segments have no marks. -/
@[simp] theorem marks_nil : marks ([] : List (Segment α)) = [] := rfl

/-- Unfolding lemma: a text has no mark. -/
@[simp] theorem marks_text_cons (t : String) (l : List (Segment α)) :
    marks (.text t :: l) = marks l := rfl

/-- Unfolding lemma: a mark counts. -/
@[simp] theorem marks_mark_cons (a : α) (l : List (Segment α)) :
    marks (.mark a :: l) = a :: marks l := rfl

/-- The marks of two rows are those of both. -/
@[simp] theorem marks_append (l m : List (Segment α)) : marks (l ++ m) = marks l ++ marks m :=
  List.filterMap_append

/-- A text has no marks, empty or not. -/
@[simp] theorem marks_ofText (t : String) : marks (ofText t : List (Segment α)) = [] := by
  unfold ofText
  split <;> rfl

/-- A mark is a segment of the row. -/
theorem mem_marks {l : List (Segment α)} {a : α} : a ∈ marks l ↔ .mark a ∈ l := by
  rw [marks, List.mem_filterMap]
  constructor
  · rintro ⟨seg, hseg, ha⟩
    cases seg with
    | text t => simp [mark?] at ha
    | mark b =>
      obtain rfl : b = a := by simpa [mark?] using ha
      exact hseg
  · intro h
    exact ⟨_, h, rfl⟩

end Segment

/-! ### Hyphens at the end -/

/-- Whether a text ends in a hyphen after more was added, if it is known for what was before. -/
def hyphenAfter (before : Bool) (t : String) : Bool :=
  match t.toList.getLast? with
  | none => before
  | some c => c == '-'

/-- After two texts, what counts is the last character of the second unless it is empty. -/
theorem hyphenAfter_append (b : Bool) (s t : String) :
    hyphenAfter b (s ++ t) = hyphenAfter (hyphenAfter b s) t := by
  simp only [hyphenAfter, String.toList_append, List.getLast?_append]
  cases t.toList.getLast? <;> simp

/-- Whether a text ends in a hyphen is seen from what is added to it last. -/
theorem endsWith_append_hyphen (s t : String) :
    (s ++ t).endsWith '-' = hyphenAfter (s.endsWith '-') t := by
  simp only [hyphenAfter, String.endsWith_char_eq_getLast?, String.toList_append,
    List.getLast?_append]
  cases t.toList.getLast? <;> simp

/-- An empty text does not end in a hyphen. -/
@[simp] theorem endsWith_empty_hyphen : "".endsWith '-' = false := by
  simp [String.endsWith_char_eq_getLast?]

/-! ### Drafts from left to right -/

/-- How columns and constants are spelled. -/
structure Spelling where
  column : String → String
  constant : Position × Constant → String

namespace Draft

/-- The constants of a draft, each as often as it is written. -/
def constants : Draft → List (Position × Constant)
  | constant place c => [(place, c)]
  | append first second => constants first ++ constants second
  | operand d => constants d
  | level d => constants d
  | _ => []

/-- The columns of a draft. -/
def columns : Draft → List String
  | column name => [name]
  | append first second => columns first ++ columns second
  | operand d => columns d
  | level d => columns d
  | _ => []

/-- Nothing in a draft is a fault. -/
def isFaultless : Draft → Bool
  | append first second => isFaultless first && isFaultless second
  | operand d => isFaultless d
  | level d => isFaultless d
  | fault _ => false
  | _ => true

/-- A draft as a row of segments, with a mark for every constant. It is given whether the text
    before ends in a hyphen. -/
def segments (f : Spelling) : Bool → Draft → List (Segment (Position × Constant))
  | _, empty => []
  | _, text t => Segment.ofText t
  | _, column name => Segment.ofText (f.column name)
  | _, constant place c => [.mark (place, c)]
  | b, append first second =>
    let l := segments f b first
    l ++ segments f (hyphenAfter b (Segment.write f.constant l)) second
  | b, operand d =>
    let l := segments f false d
    if b && (Segment.write f.constant l).startsWith '-' then .text "(" :: l ++ [.text ")"] else l
  | b, level d => segments f b d
  | _, fault _ => []

/-- Unfolding lemma: the second draft is written after the text of the first. -/
theorem segments_append (f : Spelling) (b : Bool) (first second : Draft) :
    segments f b (first ++ second) = segments f b first ++
      segments f (hyphenAfter b (Segment.write f.constant (segments f b first))) second := rfl

/-- The marks are the constants, whatever the spelling. -/
theorem marks_segments (f : Spelling) (b : Bool) (d : Draft) :
    Segment.marks (segments f b d) = d.constants := by
  induction d generalizing b with
  | append first second ih₁ ih₂ => simp [segments, constants, ih₁, ih₂]
  | operand d ih =>
    simp only [segments, constants]
    split <;> simp [ih]
  | level d ih => exact ih b
  | text t => exact Segment.marks_ofText t
  | column name => exact Segment.marks_ofText _
  | _ => rfl

end Draft

/-! ### First occurrences -/

section FirstOccurrences

variable {α β : Type} [DecidableEq α] [DecidableEq β]

/-- The first occurrences in a list with one more member. -/
theorem eraseDups_concat (l : List α) (a : α) :
    (l ++ [a]).eraseDups = if a ∈ l then l.eraseDups else l.eraseDups ++ [a] := by
  rw [List.eraseDups_append]
  by_cases h : a ∈ l
  · simp [List.removeAll, h]
  · simp [List.removeAll, h, List.eraseDups_cons]

/-- Without repetitions nothing occurs twice. -/
theorem nodup_eraseDups (l : List α) : l.eraseDups.Nodup := by
  induction l using List.reverseRecOn with
  | nil => simp
  | append_singleton l a ih =>
    rw [eraseDups_concat]
    split
    · exact ih
    · next ha => simpa [List.nodup_append, ih] using fun x hx => ne_of_mem_of_not_mem hx ha

/-- First occurrences of images under a map that tells the members apart. -/
theorem eraseDups_map {f : α → β} {l : List α} (hf : ∀ x ∈ l, ∀ y ∈ l, f x = f y → x = y) :
    (l.map f).eraseDups = l.eraseDups.map f := by
  induction l using List.reverseRecOn with
  | nil => rfl
  | append_singleton l a ih =>
    have hmem : f a ∈ l.map f ↔ a ∈ l := by
      constructor
      · intro h
        obtain ⟨x, hx, hxa⟩ := List.mem_map.mp h
        rwa [← hf x (by simp [hx]) a (by simp) hxa]
      · exact List.mem_map_of_mem
    rw [List.map_append, List.map_singleton, eraseDups_concat, eraseDups_concat,
      ih (fun x hx y hy => hf x (by simp [hx]) y (by simp [hy]))]
    by_cases ha : a ∈ l
    · rw [if_pos ha, if_pos (hmem.mpr ha)]
    · rw [if_neg ha, if_neg (fun h => ha (hmem.mp h)), List.map_append, List.map_singleton]

end FirstOccurrences

/-! ### Registers -/

namespace Register

/-- A register with one more parameter, for a place that had none. -/
def push (r : Register) (place : Position) (p : Parameter) : Register :=
  ⟨r.next + 1, r.parameters ++ [p], r.slots ++ [(place, r.parameters.length)]⟩

/-- The places met so far with their parameters, in order. -/
def entries (r : Register) : List (Position × Parameter) :=
  (r.slots.map Prod.fst).zip r.parameters

/-- The three parts of a register agree: the next number is the number of parameters, and the slots
    were given out in order. -/
structure Aligned (r : Register) : Prop where
  next_eq : r.next = r.parameters.length
  slots_eq : r.slots.map Prod.snd = List.range r.parameters.length

/-- Nothing is aligned with nothing. -/
theorem aligned_empty : empty.Aligned := ⟨rfl, rfl⟩

variable {r : Register} {place : Position} {c : Constant}

/-- A place has no slot if it was not met. -/
theorem slot?_eq_none_iff : r.slot? place = none ↔ place ∉ r.slots.map Prod.fst := by
  rw [slot?, List.lookup_eq_none_iff, List.mem_map]
  constructor
  · rintro h ⟨y, hy, rfl⟩
    simpa using h y hy
  · intro h y hy
    simpa using fun heq : place = y.1 => h ⟨y, hy, heq.symm⟩

/-- The slots of other places are not touched when a new place gets its slot. -/
theorem setSlot_eq (h : r.slot? place = none) (i : Nat) :
    setSlot r.slots place i = r.slots ++ [(place, i)] := by
  have hall : ∀ x ∈ r.slots, x.1 ≠ place := fun x hx heq =>
    slot?_eq_none_iff.mp h (heq ▸ List.mem_map_of_mem hx)
  rw [setSlot, List.filter_eq_self.mpr fun x hx => decide_eq_true (hall x hx)]

/-- What is granted to a new place goes to the end of all three fields. -/
theorem granted_eq (h : r.slot? place = none) (type : QueryType) :
    r.granted place c type = r.push place ⟨Bindings.nameOf r.next, c.host, type, c.value⟩ := by
  rw [granted, setSlot_eq h, push]

/-- A new slot leads to the new parameter. -/
theorem InRange.push (h : r.InRange) (place : Position) (p : Parameter) :
    (r.push place p).InRange := by
  intro x hx
  rw [Register.push, List.length_append]
  -- The slots that were there lead to parameters that were there; the new one leads to the last.
  rcases List.mem_append.mp hx with hx | hx
  · exact Nat.lt_add_right 1 (h x hx)
  · obtain rfl := List.mem_singleton.mp hx
    exact Nat.lt_succ_self _

namespace Aligned

/-- A new parameter keeps the three fields aligned. -/
theorem push (h : r.Aligned) (place : Position) (p : Parameter) : (r.push place p).Aligned where
  next_eq := by simp [Register.push, h.next_eq]
  slots_eq := by simp [Register.push, h.slots_eq, List.range_succ]

/-- There are as many slots as parameters. -/
theorem length_slots (h : r.Aligned) : r.slots.length = r.parameters.length := by
  simpa using congrArg List.length h.slots_eq

/-- The places of the entries are those met. -/
theorem map_fst_entries (h : r.Aligned) : r.entries.map Prod.fst = r.slots.map Prod.fst :=
  List.map_fst_zip (by simp [h.length_slots])

/-- The parameters of the entries are all of them. -/
theorem map_snd_entries (h : r.Aligned) : r.entries.map Prod.snd = r.parameters :=
  List.map_snd_zip (by simp [h.length_slots])

/-- A new parameter is the last entry. -/
theorem entries_push (h : r.Aligned) (place : Position) (p : Parameter) :
    (r.push place p).entries = r.entries ++ [(place, p)] := by
  simp [entries, Register.push, List.zip_append, h.length_slots]

end Aligned

/-- One register goes on from another: parameters and slots were only added. -/
instance : LE Register := ⟨fun r r' => r.parameters <+: r'.parameters ∧ r.slots <+: r'.slots⟩

/-- A register is an initial part of itself. -/
theorem le_refl (r : Register) : r ≤ r := ⟨List.prefix_rfl, List.prefix_rfl⟩

/-- Initial parts of initial parts are such. -/
theorem le_trans {r r' r'' : Register} (h : r ≤ r') (h' : r' ≤ r'') : r ≤ r'' :=
  ⟨h.1.trans h'.1, h.2.trans h'.2⟩

/-- A new parameter leaves what was there before. -/
theorem le_push (r : Register) (place : Position) (p : Parameter) : r ≤ r.push place p :=
  ⟨List.prefix_append _ _, List.prefix_append _ _⟩

/-- A place keeps its slot when others are added. -/
theorem slot?_of_le {r' : Register} (h : r ≤ r') {i : Nat} (hi : r.slot? place = some i) :
    r'.slot? place = some i := by
  obtain ⟨-, ⟨more, hmore⟩⟩ := h
  rw [slot?, ← hmore, List.lookup_append, show r.slots.lookup place = some i from hi]
  rfl

/-- A new place gets the slot after all others. -/
theorem slot?_push (h : r.slot? place = none) (p : Parameter) :
    (r.push place p).slot? place = some r.parameters.length := by
  rw [slot?, push, List.lookup_append, show r.slots.lookup place = none from h]
  simp

/-- In an aligned register the slot of a place is where the place stands. -/
theorem Aligned.getElem?_slots (h : r.Aligned) {i : Nat} (hi : r.slot? place = some i) :
    r.slots[i]? = some (place, i) := by
  obtain ⟨before, after, hslots, -⟩ := List.lookup_eq_some_iff.mp hi
  obtain ⟨j, hj⟩ : ∃ j : Nat, r.slots[j]? = some (place, i) :=
    List.getElem?_of_mem (by simp [hslots])
  have hrange : (List.range r.parameters.length)[j]? = some i := by
    rw [← h.slots_eq, List.getElem?_map, hj]
    rfl
  obtain ⟨_, hij⟩ := List.getElem?_eq_some_iff.mp hrange
  rw [List.getElem_range] at hij
  rwa [hij] at hj

end Register

/-! ### Bindings -/

namespace Bindings

/-- The parameter of a place that has been met. -/
def find? (b : Bindings) (place : Position) : Option Parameter :=
  (b.slot? place).bind fun i => b.parameters[i]?

/-- The name of the parameter of a place. -/
def nameAt (b : Bindings) (place : Position) : String :=
  ((b.find? place).map Parameter.name).getD ""

end Bindings

/-- The text of a constant once all parameters are known. -/
def Settings.spell (w : Settings) (b : Bindings) (x : Position × Constant) : String :=
  if w.mode.binds x.2.value then w.rules.paramMark ++ b.nameAt x.1
  else (w.rules.literal x.2.value).getD ""

/-- A parameter carries a constant: its value, its host type, and the counterpart of that type in
    the database. -/
structure Parameter.Carries (types : TypeSystem) (p : Parameter) (c : Constant) : Prop where
  host : p.host = c.host
  value : p.value = c.value
  type : types.resolve? c.host = some p.type

namespace Bindings

/-- One more parameter, for a place that had none. -/
def push (b : Bindings) (place : Position) (p : Parameter) : Bindings :=
  ⟨b.toRegister.push place p, b.inRange.push place p⟩

/-- Bindings are their registers; that the slots lead to parameters is no data. -/
theorem toRegister_injective {b b' : Bindings} (h : b.toRegister = b'.toRegister) : b = b' := by
  cases b
  cases b'
  cases h
  rfl

variable {types : TypeSystem} {b b' : Bindings} {place : Position} {c : Constant} {mark : String}
  {p : Parameter}

/-- A place has no parameter exactly if it has no slot. -/
theorem find?_eq_none_iff_slot? : b.find? place = none ↔ b.slot? place = none := by
  cases hslot : b.slot? place with
  | none => simp [find?, hslot]
  | some i => simpa [find?, hslot] using b.inRange.lt_length hslot

/-- A place has no parameter exactly if it was not met. -/
theorem find?_eq_none_iff : b.find? place = none ↔ place ∉ b.slots.map Prod.fst :=
  find?_eq_none_iff_slot?.trans Register.slot?_eq_none_iff

/-- **The register behind bindings.** To bind a place is to bind it in the register, where there is
    an answer. -/
theorem run_register (b : Bindings) (mark : String) (types : TypeSystem) (place : Position)
    (c : Constant) : (Register.bind mark types place c).run b.toRegister =
      (some (b.bind mark types place c).1, (b.bind mark types place c).2.toRegister) :=
  Prod.ext (Option.some_get _).symm rfl

/-- What the register does tells the answer and the bindings. -/
theorem bind_eq_of_run {a : Except Error String}
    (h : (Register.bind mark types place c).run b.toRegister = (some a, b'.toRegister)) :
    b.bind mark types place c = (a, b') := by
  obtain ⟨hanswer, hregister⟩ := Prod.mk.inj ((b.run_register mark types place c).symm.trans h)
  exact Prod.ext (Option.some.inj hanswer) (toRegister_injective hregister)

/-- A place that has its parameter keeps it. -/
theorem bind_of_find? (h : b.find? place = some p) :
    b.bind mark types place c = (.ok (mark ++ p.name), b) := by
  obtain ⟨i, hslot, hi⟩ := Option.bind_eq_some_iff.mp h
  refine bind_eq_of_run ?_
  rw [Register.bind_of_slot hslot, hi]
  rfl

/-- A new place gets no parameter if its type has no counterpart. -/
theorem bind_of_unresolved (hnew : b.find? place = none) (htype : types.resolve? c.host = none) :
    b.bind mark types place c = (.error (.typeResolution c.host.kind.text), b) :=
  bind_eq_of_run (Register.bind_of_unresolved (find?_eq_none_iff_slot?.mp hnew) htype)

/-- A new place gets the next parameter if its type has a counterpart. -/
theorem bind_of_resolved {type : QueryType} (hnew : b.find? place = none)
    (htype : types.resolve? c.host = some type) :
    b.bind mark types place c =
      (.ok (mark ++ nameOf b.next), b.push place ⟨nameOf b.next, c.host, type, c.value⟩) := by
  have hslot : b.slot? place = none := find?_eq_none_iff_slot?.mp hnew
  refine bind_eq_of_run ?_
  rw [Register.bind_of_resolved hslot htype, Register.granted_eq hslot]
  rfl

/-- **One place.** It has its parameter already, or its type has no counterpart, or it gets the next
    parameter. -/
theorem bind_cases (b : Bindings) (mark : String) (types : TypeSystem) (place : Position)
    (c : Constant) :
    (∃ p, b.find? place = some p ∧ b.bind mark types place c = (.ok (mark ++ p.name), b)) ∨
    (b.find? place = none ∧ types.resolve? c.host = none ∧
      b.bind mark types place c = (.error (.typeResolution c.host.kind.text), b)) ∨
    ∃ type, b.find? place = none ∧ types.resolve? c.host = some type ∧
      b.bind mark types place c = (.ok (mark ++ nameOf b.next),
        b.push place ⟨nameOf b.next, c.host, type, c.value⟩) := by
  cases hfound : b.find? place with
  | some p => exact .inl ⟨p, rfl, bind_of_find? hfound⟩
  | none =>
    cases htype : types.resolve? c.host with
    | none => exact .inr (.inl ⟨rfl, rfl, bind_of_unresolved hfound htype⟩)
    | some type => exact .inr (.inr ⟨type, rfl, rfl, bind_of_resolved hfound htype⟩)

instance : LE Bindings := ⟨fun b b' => b.toRegister ≤ b'.toRegister⟩

theorem le_refl (b : Bindings) : b ≤ b := b.toRegister.le_refl

theorem le_trans {a b c : Bindings} (hab : a ≤ b) (hbc : b ≤ c) : a ≤ c :=
  Register.le_trans hab hbc

/-- A place keeps its parameter when others are added. -/
theorem find?_of_le (h : b ≤ b') (hp : b.find? place = some p) : b'.find? place = some p := by
  obtain ⟨i, hslot, hi⟩ := Option.bind_eq_some_iff.mp hp
  obtain ⟨more, hmore⟩ := h.1
  rw [find?, Register.slot?_of_le h hslot, Option.bind_some, ← hmore,
    List.getElem?_append_left (List.getElem?_eq_some_iff.mp hi).1, hi]

/-- A new place has the parameter that was added for it. -/
theorem find?_push (hnew : b.find? place = none) (p : Parameter) :
    (b.push place p).find? place = some p := by
  have hslot : (b.push place p).slot? place = some b.parameters.length :=
    Register.slot?_push (find?_eq_none_iff_slot?.mp hnew) p
  rw [find?, hslot]
  exact List.getElem?_concat_length

/-- Binding a place takes no parameter away. -/
theorem le_bind (b : Bindings) (mark : String) (types : TypeSystem) (place : Position)
    (c : Constant) : b ≤ (b.bind mark types place c).2 := by
  rcases b.bind_cases mark types place c with ⟨_, -, hb⟩ | ⟨-, -, hb⟩ | ⟨_, -, -, hb⟩
  · rw [hb]
    exact le_refl b
  · rw [hb]
    exact le_refl b
  · rw [hb]
    exact b.toRegister.le_push place _

/-- A placeholder names the parameter that the place has from then on. -/
theorem exists_find?_of_bind {t : String} (hb : b.bind mark types place c = (.ok t, b')) :
    ∃ p, b'.find? place = some p ∧ t = mark ++ p.name := by
  rcases b.bind_cases mark types place c with
    ⟨p, hfound, hcase⟩ | ⟨-, -, hcase⟩ | ⟨type, hnew, -, hcase⟩
  · obtain ⟨ht, rfl⟩ := Prod.mk.inj (hcase.symm.trans hb)
    exact ⟨p, hfound, (Except.ok.inj ht).symm⟩
  · exact absurd (Prod.mk.inj (hcase.symm.trans hb)).1 (by simp)
  · obtain ⟨ht, rfl⟩ := Prod.mk.inj (hcase.symm.trans hb)
    exact ⟨_, find?_push hnew _, (Except.ok.inj ht).symm⟩

/-- Only the type of a new place can stand in the way of its parameter, and then nothing changes. -/
theorem resolve?_of_bind_error {err : Error} (hb : b.bind mark types place c = (.error err, b')) :
    b' = b ∧ types.resolve? c.host = none ∧ err = .typeResolution c.host.kind.text := by
  rcases b.bind_cases mark types place c with ⟨_, -, hcase⟩ | ⟨-, htype, hcase⟩ | ⟨_, -, -, hcase⟩
  · exact absurd (Prod.mk.inj (hcase.symm.trans hb)).1 (by simp)
  · obtain ⟨herr, rfl⟩ := Prod.mk.inj (hcase.symm.trans hb)
    exact ⟨rfl, htype, (Except.error.inj herr).symm⟩
  · exact absurd (Prod.mk.inj (hcase.symm.trans hb)).1 (by simp)

/-- What is found stands among the entries. -/
theorem mem_of_find? (hb : b.Aligned) (h : b.find? place = some p) : (place, p) ∈ b.entries := by
  obtain ⟨i, hslot, hi⟩ := Option.bind_eq_some_iff.mp h
  have hplace : (b.slots.map Prod.fst)[i]? = some place := by
    rw [List.getElem?_map, hb.getElem?_slots hslot]
    rfl
  exact List.mem_of_getElem? (List.getElem?_zip_eq_some.mpr ⟨hplace, hi⟩)

/-- The parameters are those of some constants: one for each place, in the order in which the places
    are first met, and numbered in that order. -/
structure Lists (types : TypeSystem) (b : Bindings) (xs : List (Position × Constant)) : Prop where
  aligned : b.Aligned
  places : b.entries.map Prod.fst = (xs.map Prod.fst).eraseDups
  carries : ∀ y ∈ b.entries, ∃ c, (y.1, c) ∈ xs ∧ y.2.Carries types c
  names : b.parameters.map Parameter.name = (List.range b.next).map nameOf

/-- Before the first constant there are no parameters. -/
theorem lists_empty (types : TypeSystem) : empty.Lists types [] :=
  ⟨Register.aligned_empty, rfl, by simp [Register.entries, empty, Register.empty], rfl⟩

variable {xs : List (Position × Constant)}

/-- No place has two parameters. -/
theorem Lists.nodup (h : b.Lists types xs) : (b.entries.map Prod.fst).Nodup := by
  rw [h.places]
  exact nodup_eraseDups _

/-- A place has no parameter exactly if no constant was bound there. -/
theorem Lists.find?_eq_none_iff (h : b.Lists types xs) :
    b.find? place = none ↔ place ∉ xs.map Prod.fst := by
  rw [Bindings.find?_eq_none_iff, ← h.aligned.map_fst_entries, h.places, List.mem_eraseDups]

/-- The parameter of an entry is found at its place. -/
theorem Lists.find?_eq (h : b.Lists types xs) (hp : (place, p) ∈ b.entries) :
    b.find? place = some p := by
  cases hfound : b.find? place with
  | none =>
    have hmem : place ∈ b.entries.map Prod.fst := List.mem_map_of_mem hp
    rw [h.aligned.map_fst_entries] at hmem
    exact absurd hmem (Bindings.find?_eq_none_iff.mp hfound)
  | some p' =>
    have hsame := List.inj_on_of_nodup_map h.nodup (mem_of_find? h.aligned hfound) hp rfl
    rw [(Prod.mk.inj hsame).2]

/-- **One more constant.** A place that was met before keeps its parameter, and a new one gets the
    next. -/
theorem Lists.bind (h : b.Lists types xs) {t : String}
    (hb : b.bind mark types place c = (.ok t, b')) : b'.Lists types (xs ++ [(place, c)]) := by
  -- What the entries carried before, they still carry: the list of constants only grows.
  have hcarries : ∀ y ∈ b.entries, ∃ c', (y.1, c') ∈ xs ++ [(place, c)] ∧ y.2.Carries types c' := by
    intro y hy
    obtain ⟨c', hc', hcarries⟩ := h.carries y hy
    exact ⟨c', List.mem_append_left _ hc', hcarries⟩
  rcases b.bind_cases mark types place c with
    ⟨p, hfound, hcase⟩ | ⟨-, -, hcase⟩ | ⟨type, hnew, htype, hcase⟩
  · obtain ⟨-, rfl⟩ := Prod.mk.inj (hcase.symm.trans hb)
    -- A place that has a parameter was met before, so it adds nothing to the places without
    -- repeats.
    have hmet : place ∈ xs.map Prod.fst := by
      by_contra hfresh
      exact absurd (hfound.symm.trans (h.find?_eq_none_iff.mpr hfresh)) (by simp)
    refine ⟨h.aligned, ?_, hcarries, h.names⟩
    rw [List.map_append, List.map_singleton, eraseDups_concat, if_pos hmet]
    exact h.places
  · exact absurd (Prod.mk.inj (hcase.symm.trans hb)).1 (by simp)
  · obtain ⟨-, rfl⟩ := Prod.mk.inj (hcase.symm.trans hb)
    have hfresh : place ∉ xs.map Prod.fst := h.find?_eq_none_iff.mp hnew
    have hentries := h.aligned.entries_push place ⟨nameOf b.next, c.host, type, c.value⟩
    refine ⟨h.aligned.push place _, ?_, ?_, ?_⟩
    · rw [push, hentries, List.map_append, List.map_append, List.map_singleton, List.map_singleton,
        eraseDups_concat, if_neg hfresh, h.places]
    · intro y hy
      rw [push, hentries] at hy
      rcases List.mem_append.mp hy with hy | hy
      · exact hcarries y hy
      · obtain rfl := List.mem_singleton.mp hy
        exact ⟨c, by simp, ⟨rfl, rfl, htype⟩⟩
    · simpa [push, Register.push, List.range_succ] using h.names

end Bindings

/-! ### Complete writings -/

/-- The ways in which a draft can be written to its end, from one state to another. -/
inductive Written (w : Settings) : Draft → State → State → Prop
  | empty {s} : Written w .empty s s
  | text {t s} : Written w (.text t) s (s.put t)
  | column {name s} : Written w (.column name) s (s.put (w.resolve name))
  | bound {place c s t b} : w.mode.binds c.value →
      s.bindings.bind w.rules.paramMark w.rules.types place c = (.ok t, b) →
      Written w (.constant place c) s { s.put t with bindings := b }
  | literal {place c s t} : w.mode.binds c.value = false → w.rules.literal c.value = some t →
      Written w (.constant place c) s (s.put t)
  | append {first second s s₁ s'} : Written w first s s₁ → Written w second s₁ s' →
      Written w (.append first second) s s'
  | operand {d s s'} : Written w d { s with text := "" } s' →
      Written w (.operand d) s { s' with text := s.text ++ guarded s.text s'.text }
  | level {d s s'} : s.depth + 1 ≤ w.maxDepth → Written w d { s with depth := s.depth + 1 } s' →
      Written w (.level d) s { s' with depth := s'.depth - 1 }

/-- A writing that ends without an error was written to its end. -/
theorem written_of_write {w : Settings} {d : Draft} {s s' : State}
    (h : d.write w s = ⟨s', none⟩) : Written w d s s' := by
  induction d generalizing s s' with
  | empty =>
    obtain rfl : s = s' := congrArg Outcome.state h
    exact .empty
  | text t =>
    obtain rfl : s.put t = s' := congrArg Outcome.state h
    exact .text
  | column name =>
    obtain rfl : s.put (w.resolve name) = s' := congrArg Outcome.state h
    exact .column
  | constant place c =>
    simp only [Draft.write, Draft.writeConstant] at h
    split at h
    · next hbinds =>
      split at h
      · next p b hb =>
        obtain rfl := congrArg Outcome.state h
        exact .bound hbinds hb
      · exact absurd (congrArg Outcome.error? h) (by simp [Outcome.failed])
    · next hbinds =>
      split at h
      · next t ht =>
        obtain rfl : s.put t = s' := congrArg Outcome.state h
        exact .literal (by simpa using hbinds) ht
      · exact absurd (congrArg Outcome.error? h) (by simp [Outcome.failed])
  | append first second ih₁ ih₂ =>
    simp only [Draft.write] at h
    split at h
    · next s₁ h₁ => exact .append (ih₁ h₁) (ih₂ h)
    · exact absurd (congrArg Outcome.error? h) (by simp [Outcome.failed])
  | operand d ih =>
    simp only [Draft.write] at h
    split at h
    · next s₁ h₁ =>
      obtain rfl := congrArg Outcome.state h
      exact .operand (ih h₁)
    · exact absurd (congrArg Outcome.error? h) (by simp [Outcome.failed])
  | level d ih =>
    simp only [Draft.write] at h
    split at h
    · exact absurd (congrArg Outcome.error? h) (by simp [Outcome.failed])
    · next hdepth =>
      obtain ⟨rfl, herror⟩ := Outcome.mk.inj h
      -- The body's outcome is handed on as it is: no error of the level is none of the body.
      refine .level (by omega) (ih ?_)
      rw [← herror]
  | fault e => exact absurd (congrArg Outcome.error? h) (by simp [Draft.write, Outcome.failed])

namespace Written

variable {w : Settings} {d : Draft} {s s' : State}

/-- What can be written to its end is written so. -/
theorem write_eq (h : Written w d s s') : d.write w s = .done s' := by
  induction h with
  | empty | text | column => rfl
  | bound hbinds hb => simp [Draft.write, Draft.writeConstant, hbinds, hb]
  | literal hbinds ht => simp [Draft.write, Draft.writeConstant, hbinds, ht]
  | append _ _ ih₁ ih₂ => rw [Draft.write, ih₁]; exact ih₂
  | operand _ ih => rw [Draft.write, ih]; rfl
  | level hdepth _ ih => rw [Draft.write, if_neg (by omega), ih]; rfl

/-- What can be written holds no fault. -/
theorem isFaultless (h : Written w d s s') : d.isFaultless := by
  induction h with
  | append _ _ ih₁ ih₂ => simp [Draft.isFaultless, ih₁, ih₂]
  | operand _ ih => exact ih
  | level _ _ ih => exact ih
  | _ => rfl

/-- A writing only adds parameters. -/
theorem bindings_le (h : Written w d s s') : s.bindings ≤ s'.bindings := by
  induction h with
  | empty | text | column | literal => exact Bindings.le_refl _
  | @bound place c s _ _ _ hb =>
    have hle := s.bindings.le_bind w.rules.paramMark w.rules.types place c
    rwa [hb] at hle
  | append _ _ ih₁ ih₂ => exact Bindings.le_trans ih₁ ih₂
  | operand _ ih => exact ih
  | level _ _ ih => exact ih

/-- A complete writing leaves every level that it enters. -/
theorem depth_eq (h : Written w d s s') : s'.depth = s.depth := by
  induction h with
  | empty | text | column | bound | literal => rfl
  | append _ _ ih₁ ih₂ => rw [ih₂, ih₁]
  | operand _ ih => exact ih
  | level _ _ ih => simp [ih]

/-- **Parameters of a writing.** They are those of the constants that are bound, in the order in
    which these are written. -/
theorem lists (h : Written w d s s') {xs : List (Position × Constant)}
    (hs : s.bindings.Lists w.rules.types xs) :
    s.bindings ≤ s'.bindings ∧ s'.bindings.Lists w.rules.types
      (xs ++ d.constants.filter fun x => w.mode.binds x.2.value) := by
  refine ⟨h.bindings_le, ?_⟩
  induction h generalizing xs with
  | empty | text | column => simpa [Draft.constants, State.put] using hs
  | bound hbinds hb => simpa [Draft.constants, hbinds] using hs.bind hb
  | literal hbinds => simpa [Draft.constants, State.put, hbinds] using hs
  | append _ _ ih₁ ih₂ => simpa [Draft.constants, List.append_assoc] using ih₂ (ih₁ hs)
  | operand _ ih => exact ih hs
  | level _ _ ih => exact ih hs

/-- Every constant that is written has a spelling: a literal, or a parameter. -/
theorem exists_literal (h : Written w d s s') {x : Position × Constant} (hx : x ∈ d.constants)
    (hbinds : w.mode.binds x.2.value = false) : ∃ t, w.rules.literal x.2.value = some t := by
  induction h with
  | empty | text | column => simp [Draft.constants] at hx
  | bound hbinds' =>
    obtain rfl := List.mem_singleton.mp hx
    exact absurd hbinds (by simp [hbinds'])
  | literal _ ht =>
    obtain rfl := List.mem_singleton.mp hx
    exact ⟨_, ht⟩
  | append _ _ ih₁ ih₂ => exact (List.mem_append.mp hx).elim ih₁ ih₂
  | operand _ ih => exact ih hx
  | level _ _ ih => exact ih hx

/-- **Text of a writing.** It is the row of segments of the draft, with every constant spelled as it
    is once all parameters are known. -/
theorem text_eq (h : Written w d s s') {b : Bindings} (hb : s'.bindings ≤ b) :
    s'.text = s.text ++ Segment.write (w.spell b)
      (d.segments ⟨w.resolve, w.spell b⟩ (s.text.endsWith '-')) := by
  induction h with
  | empty => simp [Draft.segments]
  | text => simp [Draft.segments, State.put]
  | column => simp [Draft.segments, State.put]
  | @bound place c s t b' hbinds hbind =>
    -- Later parameters do not change the one that was named here.
    obtain ⟨p, hp, rfl⟩ := Bindings.exists_find?_of_bind hbind
    have hfound : b.find? place = some p := Bindings.find?_of_le hb hp
    simp [Draft.segments, State.put, Segment.spelled, Settings.spell, Bindings.nameAt, hbinds,
      hfound]
  | literal hbinds ht =>
    simp [Draft.segments, State.put, Segment.spelled, Settings.spell, hbinds, ht]
  | @append first second s s₁ s' h₁ h₂ ih₁ ih₂ =>
    have hfirst := ih₁ (Bindings.le_trans h₂.bindings_le hb)
    rw [ih₂ hb, hfirst, endsWith_append_hyphen]
    simp [Draft.segments, String.append_assoc]
  | @operand d s s' _ ih =>
    have htext : s'.text = Segment.write (w.spell b) (d.segments ⟨w.resolve, w.spell b⟩ false) := by
      simpa using ih hb
    simp only [Draft.segments, guarded, ← htext]
    split <;> simp [Segment.spelled, ← htext, String.append_assoc]
  | level _ _ ih => exact ih hb

end Written

/-! ### Queries -/

namespace Settings

variable {w : Settings} {e : Expr} {s : State}

/-- A writing that succeeds gives its text and its parameters. -/
theorem query_of_write (h : (e.predicate w.rules (.root 0)).draft.write w .initial = ⟨s, none⟩) :
    w.query e = .ok ⟨s.text, s.bindings.parameters⟩ := by
  simp only [query, queryFrom, State.writePredicate, h]

/-- A writing that fails gives its error. -/
theorem query_of_write_error {err : Error}
    (h : (e.predicate w.rules (.root 0)).draft.write w .initial = ⟨s, some err⟩) :
    w.query e = .error err := by
  simp only [query, queryFrom, State.writePredicate, h]

end Settings

/-- The record of a complete writing: the parameters of a query are those of the constants that are
    bound, in order, and its text is the row of segments of the draft. -/
structure Transcript (w : Settings) (d : Draft) (b : Bindings) (q : Query) : Prop where
  parameters : q.parameters = b.parameters
  lists : b.Lists w.rules.types (d.constants.filter fun x => w.mode.binds x.2.value)
  sql : q.sql = Segment.write (w.spell b) (d.segments ⟨w.resolve, w.spell b⟩ false)
  isFaultless : d.isFaultless
  literals : ∀ x ∈ d.constants, w.mode.binds x.2.value = false →
    ∃ t, w.rules.literal x.2.value = some t

/-- **Every query has its record.** -/
theorem Settings.exists_transcript {w : Settings} {e : Expr} {q : Query} (h : w.query e = .ok q) :
    ∃ b, Transcript w (e.predicate w.rules (.root 0)).draft b q := by
  simp only [query, queryFrom, State.writePredicate] at h
  split at h
  · next s hwrite =>
    obtain rfl := Except.ok.inj h
    have hwritten := written_of_write hwrite
    have htext := hwritten.text_eq (Bindings.le_refl _)
    exact ⟨s.bindings,
      { parameters := rfl
        lists := (hwritten.lists (Bindings.lists_empty _)).2
        sql := by simpa [State.initial] using htext
        isFaultless := hwritten.isFaultless
        literals := fun _ hx => hwritten.exists_literal hx }⟩
  · exact absurd h (by simp)

end WhereClause
