import Mathlib.Data.List.Forall2
import Mathlib.Data.List.Nodup
import WhereClause.Expr.Json

namespace WhereClause

/-!
# Looser documents

A document of a tree may be written more loosely: fields that hold their default may be left out of
any structure, and fields that it does not know may be added, with any values and at any depth. The
readers of structures find the same in it.

* `Json.depth` — how many levels a reader has to go down;
* `Json.Shape` — the structures in the documents of trees, with their defaults;
* `Json.Loosened` — a document and a looser one;
* `Json.Loosened.exists_record?` — a structure still gives its fields, each with a looser value or,
  where it holds its default, without one.
-/

namespace Json

/-! ### Depth -/

mutual

/-- The number of arrays and objects around the innermost value. -/
def depth : Json → Nat
  | array items => itemsDepth items + 1
  | object fields => fieldsDepth fields + 1
  | _ => 0

/-- The greatest depth of some documents. -/
def itemsDepth : List Json → Nat
  | [] => 0
  | j :: js => max (depth j) (itemsDepth js)

/-- The greatest depth of the values of some fields. -/
def fieldsDepth : List (Option String × Json) → Nat
  | [] => 0
  | (_, j) :: fields => max (depth j) (fieldsDepth fields)

end

/-- The deepest item bounds them all. -/
theorem itemsDepth_le_iff {items : List Json} {levels : Nat} :
    itemsDepth items ≤ levels ↔ ∀ j ∈ items, j.depth ≤ levels := by
  induction items with
  | nil => simp [itemsDepth]
  | cons j items ih => rw [itemsDepth, Nat.max_le, ih, List.forall_mem_cons]

/-- The deepest field bounds them all. -/
theorem fieldsDepth_le_iff {fields : List (Option String × Json)} {levels : Nat} :
    fieldsDepth fields ≤ levels ↔ ∀ f ∈ fields, f.2.depth ≤ levels := by
  induction fields with
  | nil => simp [fieldsDepth]
  | cons f fields ih => rw [fieldsDepth, Nat.max_le, ih, List.forall_mem_cons]

/-- Fields with names are fields whose names are there. -/
theorem ofFields_eq (fields : List (String × Json)) :
    ofFields fields = object (fields.map fun f => (some f.1, f.2)) := rfl

/-- An object takes a level. -/
theorem depth_ofFields_pos (fields : List (String × Json)) : 0 < (ofFields fields).depth := by
  simp [ofFields, depth]

/-- A reader goes down as deep as an array if it does so for each item, one level below. -/
theorem depth_array_le_iff {items : List Json} {levels : Nat} :
    (array items).depth ≤ levels + 1 ↔ ∀ j ∈ items, j.depth ≤ levels := by
  rw [depth, Nat.add_le_add_iff_right, itemsDepth_le_iff]

/-- A reader goes down as deep as an object if it does so for each field, one level below. -/
theorem depth_ofFields_le_iff {fields : List (String × Json)} {levels : Nat} :
    (ofFields fields).depth ≤ levels + 1 ↔ ∀ f ∈ fields, f.2.depth ≤ levels := by
  rw [ofFields_eq, depth, Nat.add_le_add_iff_right, fieldsDepth_le_iff, List.forall_mem_map]

/-- An array is deeper than a reader goes if an item is, one level below. -/
theorem lt_depth_array_iff {items : List Json} {levels : Nat} :
    levels + 1 < (array items).depth ↔ ∃ j ∈ items, levels < j.depth := by
  rw [← Nat.not_le, depth_array_le_iff]
  simp

/-- An object is deeper than a reader goes if a field is, one level below. -/
theorem lt_depth_ofFields_iff {fields : List (String × Json)} {levels : Nat} :
    levels + 1 < (ofFields fields).depth ↔ ∃ f ∈ fields, levels < f.2.depth := by
  rw [← Nat.not_le, depth_ofFields_le_iff]
  simp

/-- A reader that goes down as deep as an array has a level for it, and does so for each item
    below. -/
theorem exists_levels_of_array {items : List Json} {levels : Nat}
    (h : (array items).depth ≤ levels) : ∃ n, levels = n + 1 ∧ ∀ j ∈ items, j.depth ≤ n := by
  cases levels with
  | zero => simp [depth] at h
  | succ n => exact ⟨n, rfl, depth_array_le_iff.mp h⟩

/-- A reader that goes down as deep as an object has a level for it, and does so for each field
    below. -/
theorem exists_levels_of_ofFields {fields : List (String × Json)} {levels : Nat}
    (h : (ofFields fields).depth ≤ levels) : ∃ n, levels = n + 1 ∧ ∀ f ∈ fields, f.2.depth ≤ n := by
  cases levels with
  | zero => simp [ofFields, depth] at h
  | succ n => exact ⟨n, rfl, depth_ofFields_le_iff.mp h⟩

/-! ### Looser documents -/

/-- The fields of a structure, and what those hold that may be left out. -/
structure Shape where
  names : List String
  defaults : List (String × Json)

namespace Shape

/-- A node. -/
abbrev node : Shape := ⟨["node", "kind"], []⟩

/-- A constant. -/
abbrev constant : Shape := ⟨["value", "host"], []⟩

/-- A host type, which does not admit null unless it says so. -/
abbrev hostType : Shape := ⟨["kind", "nullable"], [("nullable", .bool false)]⟩

/-- A member access, which may have no object. -/
abbrev member : Shape :=
  ⟨["object", "name", "family"], [("object", .null), ("family", Family.other.name)]⟩

/-- A unary operator. -/
abbrev unary : Shape := ⟨["op", "operand"], []⟩

/-- A binary operator. -/
abbrev binary : Shape := ⟨["op", "left", "right"], []⟩

/-- A method call, which may have no object and no arguments. Its family is always there. -/
abbrev call : Shape :=
  ⟨["family", "method", "object", "args"], [("object", .null), ("args", .array [])]⟩

/-- A conditional. -/
abbrev conditional : Shape := ⟨["test", "if_true", "if_false"], []⟩

/-- A constructor. -/
abbrev construct : Shape := ⟨["ty", "args"], []⟩

/-- All structures that the documents of trees have. -/
def all : List Shape :=
  [node, constant, hostType, member, unary, binary, call, conditional, construct]

/-- No structure has two fields of one name. -/
theorem nodup_names : ∀ s ∈ all, s.names.Nodup := by decide

/-- No structure has a single field, so none looks like a tag. -/
theorem length_names_ne_one : ∀ s ∈ all, s.names.length ≠ 1 := by decide

/-- Structures are told apart by their fields. -/
theorem eq_of_names_eq {s t : Shape} (hs : s ∈ all) (ht : t ∈ all) (h : s.names = t.names) :
    s = t :=
  List.inj_on_of_nodup_map (by decide : (all.map Shape.names).Nodup) hs ht h

end Shape

/-- Fields, and what they are once some are dropped and others added. The values of the fields that
    stay are related by `R`. -/
inductive Edited (R : Json → Json → Prop) : (dropped : List (String × Json)) →
    (added : List String) → List (String × Json) → List (String × Json) → Prop
  | nil : Edited R [] [] [] []
  | keep {dropped fs gs : List (String × Json)} {added : List String} {v v' : Json}
    (name : String) (hv : R v v') (hrest : Edited R dropped added fs gs) :
    Edited R dropped added ((name, v) :: fs) ((name, v') :: gs)
  | drop {dropped fs gs : List (String × Json)} {added : List String} (f : String × Json)
    (hrest : Edited R dropped added fs gs) : Edited R (f :: dropped) added (f :: fs) gs
  | add {dropped fs gs : List (String × Json)} {added : List String} (name : String) (v : Json)
    (hrest : Edited R dropped added fs gs) : Edited R dropped (name :: added) fs ((name, v) :: gs)

/-- A document and a looser one, or the same. From any structure, fields with their default may be
    dropped, and fields that it does not know may be added. All else stays. -/
inductive Loosened : Json → Json → Prop
  | refl (j : Json) : Loosened j j
  | array {items items' : List Json} (hitems : List.Forall₂ Loosened items items') :
    Loosened (array items) (array items')
  | tagged {v v' : Json} (tag : String) (hv : Loosened v v') :
    Loosened (ofFields [(tag, v)]) (ofFields [(tag, v')])
  | record {s : Shape} {dropped fs gs : List (String × Json)} {added : List String}
    (hs : s ∈ Shape.all) (hnames : fs.map Prod.fst = s.names)
    (hdropped : ∀ f ∈ dropped, f ∈ s.defaults) (hadded : ∀ name ∈ added, name ∉ s.names)
    (hedited : Edited Loosened dropped added fs gs) : Loosened (ofFields fs) (ofFields gs)

/-- What a reader finds for a field: a looser value, or nothing if it may be left out. -/
inductive Given (s : Shape) : String × Json → Option Json → Prop
  | present {v v' : Json} (name : String) : Loosened v v' → Given s (name, v) (some v')
  | missing {f : String × Json} : f ∈ s.defaults → Given s f none

/-- A field that does not hold its default is there. -/
theorem Given.exists_some {s : Shape} {name : String} {v : Json} {o : Option Json}
    (h : Given s (name, v) o) (hv : (name, v) ∉ s.defaults) :
    ∃ v', o = some v' ∧ Loosened v v' := by
  cases h with
  | present _ h => exact ⟨_, rfl, h⟩
  | missing h => exact absurd h hv

/-- Without defaults all fields are there. -/
theorem exists_map_some {s : Shape} (hs : s.defaults = []) {fs : List (String × Json)}
    {os : List (Option Json)} (h : List.Forall₂ (Given s) fs os) :
    ∃ vs, os = vs.map some ∧ List.Forall₂ (fun f v => Loosened f.2 v) fs vs := by
  induction h with
  | nil => exact ⟨[], rfl, .nil⟩
  | cons hgiven _ ih =>
    obtain ⟨v, rfl, hv⟩ := hgiven.exists_some (by simp [hs])
    obtain ⟨vs, rfl, hvs⟩ := ih
    exact ⟨v :: vs, rfl, .cons hv hvs⟩

namespace Edited

variable {R : Json → Json → Prop} {dropped fs gs : List (String × Json)} {added : List String}

/-- Nothing need be dropped or added. -/
theorem refl (hR : ∀ v, R v v) (fs : List (String × Json)) : Edited R [] [] fs fs := by
  induction fs with
  | nil => exact .nil
  | cons f fs ih => exact .keep f.1 (hR f.2) ih

/-- A name that was not there and was not added is not there. -/
theorem filter_eq_nil (h : Edited R dropped added fs gs) {name : String} (hadded : name ∉ added)
    (hfs : name ∉ fs.map Prod.fst) : gs.filter (fun g => g.1 = name) = [] := by
  induction h with
  | nil => rfl
  | keep other _ _ ih =>
    simp only [List.map_cons, List.mem_cons, not_or] at hfs
    simp [Ne.symm hfs.1, ih hadded hfs.2]
  | drop _ _ ih =>
    simp only [List.map_cons, List.mem_cons, not_or] at hfs
    exact ih hadded hfs.2
  | add other _ _ ih =>
    simp only [List.mem_cons, not_or] at hadded
    simp [Ne.symm hadded.1, ih hadded.2 hfs]

/-- A field whose name was not added is there once, or not at all if it was dropped. -/
theorem filter_eq (h : Edited R dropped added fs gs) (hnodup : (fs.map Prod.fst).Nodup)
    (hadded : ∀ f ∈ fs, f.1 ∉ added) {f : String × Json} (hf : f ∈ fs) :
    (∃ v', R f.2 v' ∧ gs.filter (fun g => g.1 = f.1) = [(f.1, v')]) ∨
      (f ∈ dropped ∧ gs.filter (fun g => g.1 = f.1) = []) := by
  induction h with
  | nil => cases hf
  | @keep _ _ _ _ _ v' name hv hrest ih =>
    rw [List.map_cons, List.nodup_cons] at hnodup
    rw [List.forall_mem_cons] at hadded
    rcases List.mem_cons.mp hf with rfl | hf
    -- The name neither comes again later nor is added, so this is its only field.
    · exact .inl ⟨v', hv, by simp [hrest.filter_eq_nil hadded.1 hnodup.1]⟩
    · have hne : name ≠ f.1 := fun h => hnodup.1 (List.mem_map.mpr ⟨f, hf, h.symm⟩)
      simpa [hne] using ih hnodup.2 hadded.2 hf
  | drop g hrest ih =>
    rw [List.map_cons, List.nodup_cons] at hnodup
    rw [List.forall_mem_cons] at hadded
    rcases List.mem_cons.mp hf with rfl | hf
    · exact .inr ⟨List.mem_cons_self, hrest.filter_eq_nil hadded.1 hnodup.1⟩
    · exact (ih hnodup.2 hadded.2 hf).imp_right (And.imp_left (List.mem_cons_of_mem g))
  | add other v hrest ih =>
    have hne : other ≠ f.1 := fun h => hadded f hf (h ▸ List.mem_cons_self)
    simpa [hne] using
      ih hnodup (fun f hf h => hadded f hf (List.mem_cons_of_mem other h)) hf

end Edited

/-! ### Reading looser documents -/

/-- A field that does not occur is absent. -/
theorem field?_eq_none {gs : List (String × Json)} {name : String}
    (h : gs.filter (fun g => g.1 = name) = []) :
    field? (gs.map fun g => (some g.1, g.2)) name = some none := by
  simp [field?, List.filter_map, Function.comp_def, h]

/-- A field that occurs once has its value. -/
theorem field?_eq_some {gs : List (String × Json)} {name : String} {v : Json}
    (h : gs.filter (fun g => g.1 = name) = [(name, v)]) :
    field? (gs.map fun g => (some g.1, g.2)) name = some (some v) := by
  simp [field?, List.filter_map, Function.comp_def, h]

/-- A structure is read field by field, by name. -/
theorem record?_ofFields (levels : Nat) (names : List String) (gs : List (String × Json)) :
    (ofFields gs).record? (levels + 1) names =
      names.mapM (field? (gs.map fun g => (some g.1, g.2))) := by
  simp [record?, ofFields_eq]

/-- Objects with names tell their fields apart. -/
theorem ofFields_injective {fs gs : List (String × Json)} (h : ofFields fs = ofFields gs) :
    fs = gs := by
  simp only [ofFields_eq, object.injEq] at h
  exact List.map_injective_iff.mpr (fun _ _ h => by simpa [Prod.ext_iff] using h) h

/-- Fields that are each found are found together. -/
theorem exists_mapM {s : Shape} {gs : List (Option String × Json)} {fs : List (String × Json)}
    (h : ∀ f ∈ fs, ∃ o, field? gs f.1 = some o ∧ Given s f o) :
    ∃ os, (fs.map Prod.fst).mapM (field? gs) = some os ∧ List.Forall₂ (Given s) fs os := by
  induction fs with
  | nil => exact ⟨[], rfl, .nil⟩
  | cons f fs ih =>
    rw [List.forall_mem_cons] at h
    obtain ⟨⟨o, ho, hgiven⟩, hrest⟩ := h
    obtain ⟨os, hos, hall⟩ := ih hrest
    exact ⟨o :: os, by simp [List.mapM_cons, ho, hos], .cons hgiven hall⟩

namespace Loosened

/-- What is neither an array nor an object stays as it is. -/
theorem eq_of_depth_eq_zero {j j' : Json} (h : Loosened j j') (hj : j.depth = 0) : j' = j := by
  cases h with
  | refl => rfl
  | array => simp [depth] at hj
  | tagged => exact absurd hj (Nat.ne_of_gt (depth_ofFields_pos _))
  | record => exact absurd hj (Nat.ne_of_gt (depth_ofFields_pos _))

/-- An array keeps its items, each of which may be looser. -/
theorem exists_array {items : List Json} {j : Json} (h : Loosened (.array items) j) :
    ∃ items', j = .array items' ∧ List.Forall₂ Loosened items items' := by
  generalize hd : Json.array items = d at h
  cases h with
  | refl => exact ⟨items, hd.symm, List.forall₂_same.mpr fun i _ => .refl i⟩
  | array h => cases hd; exact ⟨_, rfl, h⟩
  | tagged => simp [ofFields] at hd
  | record => simp [ofFields] at hd

/-- An object with a single field is a tagged value, as no structure has a single field. -/
theorem exists_tagged {tag : String} {v j : Json} (h : Loosened (ofFields [(tag, v)]) j) :
    ∃ v', j = ofFields [(tag, v')] ∧ Loosened v v' := by
  generalize hd : ofFields [(tag, v)] = d at h
  cases h with
  | refl => exact ⟨v, hd.symm, .refl v⟩
  | array => simp [ofFields] at hd
  | tagged _ h => cases ofFields_injective hd; exact ⟨_, rfl, h⟩
  | record hs hnames =>
    cases ofFields_injective hd
    exact absurd (congrArg List.length hnames).symm (Shape.length_names_ne_one _ hs)

/-- A structure is loosened field by field. -/
theorem exists_edited {s : Shape} (hs : s ∈ Shape.all) {fs : List (String × Json)} {j : Json}
    (hfs : fs.map Prod.fst = s.names) (h : Loosened (ofFields fs) j) :
    ∃ dropped added gs, j = ofFields gs ∧ (∀ f ∈ dropped, f ∈ s.defaults) ∧
      (∀ name ∈ added, name ∉ s.names) ∧ Edited Loosened dropped added fs gs := by
  generalize hd : ofFields fs = d at h
  cases h with
  | refl => exact ⟨[], [], fs, hd.symm, by simp, by simp, .refl .refl fs⟩
  | array => simp [ofFields] at hd
  | tagged =>
    cases ofFields_injective hd
    exact absurd (congrArg List.length hfs).symm (Shape.length_names_ne_one _ hs)
  | record ht hnames hdropped hadded hedited =>
    -- The names of the fields tell which structure it is.
    cases ofFields_injective hd
    obtain rfl := Shape.eq_of_names_eq hs ht (hfs.symm.trans hnames)
    exact ⟨_, _, _, rfl, hdropped, hadded, hedited⟩

/-- A structure still gives its fields. -/
theorem exists_record? {s : Shape} (hs : s ∈ Shape.all) {fs : List (String × Json)} {j : Json}
    (hfs : fs.map Prod.fst = s.names) (h : Loosened (ofFields fs) j) (levels : Nat) :
    ∃ os, j.record? (levels + 1) s.names = some os ∧ List.Forall₂ (Given s) fs os := by
  obtain ⟨dropped, added, gs, rfl, hdropped, hadded, hedited⟩ := h.exists_edited hs hfs
  rw [record?_ofFields, ← hfs]
  refine exists_mapM fun f hf => ?_
  have hunknown : ∀ f ∈ fs, f.1 ∉ added := fun f hf h =>
    hadded f.1 h (hfs ▸ List.mem_map_of_mem hf)
  rcases hedited.filter_eq (hfs ▸ Shape.nodup_names s hs) hunknown hf with
    ⟨v', hv', hfilter⟩ | ⟨hmem, hfilter⟩
  · exact ⟨some v', field?_eq_some hfilter, .present f.1 hv'⟩
  · exact ⟨none, field?_eq_none hfilter, .missing (hdropped f hmem)⟩

/-- A structure whose fields are all needed still gives their values. -/
theorem exists_values {s : Shape} (hs : s ∈ Shape.all) (hdefaults : s.defaults = [])
    {fs : List (String × Json)} {j : Json} (hfs : fs.map Prod.fst = s.names)
    (h : Loosened (ofFields fs) j) (levels : Nat) :
    ∃ vs, j.record? (levels + 1) s.names = some (vs.map some) ∧
      List.Forall₂ (fun f v => Loosened f.2 v) fs vs := by
  obtain ⟨os, hos, hgiven⟩ := h.exists_record? hs hfs levels
  obtain ⟨vs, rfl, hvs⟩ := exists_map_some hdefaults hgiven
  exact ⟨vs, hos, hvs⟩

/-- A name stands for what it names. -/
theorem named?_eq {α : Type} {name : α → String} {all : List α} {a : α} {j : Json}
    (h : Loosened (name a) j) (ha : all.find? (fun b => name b = name a) = some a) (levels : Nat) :
    j.named? levels name all = some a := by
  obtain rfl := h.eq_of_depth_eq_zero rfl
  exact ha

/-- A text stays as it is. -/
theorem text?_eq {s : String} {j : Json} (h : Loosened s j) : j.text? = some s := by
  obtain rfl := h.eq_of_depth_eq_zero rfl
  rfl

end Loosened

end Json

end WhereClause
