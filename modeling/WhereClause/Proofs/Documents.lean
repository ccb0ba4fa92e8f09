import WhereClause.Proofs.Looseness
import WhereClause.Proofs.Moments
import WhereClause.Proofs.Supported

namespace WhereClause

/-!
# Trees that are read back

A tree is read back from its document, and also from every looser one. Floating-point numbers and
offsets that are not whole minutes may be rounded and are left aside, and the sign of a decimal zero
is lost.

* `Value.ofJson?_of_loosened`, `HostType.ofJson?_of_loosened`, `Constant.ofJson?_of_loosened` — the
  leaves of a tree;
* `Expr.readBack_of_fields` — one node, given its content;
* `Expr.readBack` — the tree, if the reader may go down as deep as the document goes.
-/

open Json

/-! ### Kinds and host types -/

namespace HostKind

/-- Names of types are told apart. -/
theorem find?_name : ∀ k ∈ named, named.find? (fun k' => k'.name = k.name) = some k := by decide

/-- All types but one have a name of their own. -/
theorem mem_named {k : HostKind} (hk : ∀ name, k ≠ other name) : k ∈ named := by
  cases k with
  | int k => cases k <;> decide
  | float p => cases p <;> decide
  | other name => exact absurd rfl (hk name)
  | _ => decide

/-- A type with a name of its own is written as that name. -/
theorem toJson_of_ne_other {k : HostKind} (hk : ∀ name, k ≠ other name) : k.toJson = k.name := by
  cases k with
  | other name => exact absurd rfl (hk name)
  | _ => rfl

/-- A type is read back. -/
theorem ofJson?_of_loosened {k : HostKind} {levels : Nat} {j : Json}
    (hdepth : k.toJson.depth ≤ levels) (h : Loosened k.toJson j) : ofJson? levels j = some k := by
  by_cases hk : ∃ name, k = other name
  · obtain ⟨name, rfl⟩ := hk
    obtain ⟨n, rfl, -⟩ := exists_levels_of_ofFields hdepth
    obtain ⟨v', rfl, hv⟩ := h.exists_tagged
    obtain rfl := hv.eq_of_depth_eq_zero rfl
    rfl
  · have hk : ∀ name, k ≠ other name := fun name h => hk ⟨name, h⟩
    rw [toJson_of_ne_other hk] at h
    rw [ofJson?, h.named?_eq (find?_name k (mem_named hk))]

end HostKind

/-- A host type is read back. -/
theorem HostType.ofJson?_of_loosened {t : HostType} {levels : Nat} {j : Json}
    (hdepth : t.toJson.depth ≤ levels) (h : Loosened t.toJson j) : ofJson? levels j = some t := by
  obtain ⟨n, rfl, hfields⟩ := exists_levels_of_ofFields hdepth
  obtain ⟨os, hos, hgiven⟩ := h.exists_record? (s := Shape.hostType) (by simp [Shape.all]) rfl n
  rcases hgiven with _ | ⟨hkind, _ | ⟨hnullable, _ | _⟩⟩
  obtain ⟨kind', rfl, hkind'⟩ := hkind.exists_some (by simp)
  have hread := HostKind.ofJson?_of_loosened (hfields ("kind", t.kind.toJson) (by simp)) hkind'
  cases hnullable with
  | present _ hnullable =>
    obtain rfl := hnullable.eq_of_depth_eq_zero rfl
    simp [ofJson?, hos, hread, bool?]
  | missing hdefault =>
    have hfalse : t.nullable = false := by simpa using hdefault
    simp [ofJson?, hos, hread, ← hfalse]

/-! ### Values -/

namespace Value

/-- A value that is written exactly. Floating-point numbers may be rounded, and an offset is written
    in whole minutes. -/
def isExact : Value → Bool
  | float _ _ => false
  | dateTimeOffset m => m.offset % 60 = 0
  | _ => true

/-- The same value, where a decimal zero has no sign. -/
def dropZeroSign : Value → Value
  | decimal d => decimal d.dropZeroSign
  | v => v

/-- A text of one character holds that character. -/
theorem onlyChar?_singleton (c : Char) : onlyChar? (String.singleton c) = some c := by
  simp [onlyChar?]

/-- A byte is read back from its number. -/
theorem byteOfJson?_integer (b : UInt8) : byteOfJson? (.integer b.toNat) = some b := by
  have hb : b.toNat ≤ 255 := Nat.le_of_lt_succ b.toNat_lt
  have hrange : (0 : Int) ≤ b.toNat ∧ (b.toNat : Int) ≤ 255 := by omega
  simp [byteOfJson?, integer?, hrange]

/-- Bytes are read back one after the other. -/
theorem mapM_byteOfJson? {bs : List UInt8} {items : List Json}
    (h : List.Forall₂ Loosened (bs.map fun b => .integer b.toNat) items) :
    items.mapM byteOfJson? = some bs := by
  induction bs generalizing items with
  | nil => cases h; rfl
  | cons b bs ih =>
    rw [List.map_cons] at h
    rcases h with _ | ⟨hb, hrest⟩
    obtain rfl := hb.eq_of_depth_eq_zero rfl
    simp [List.mapM_cons, byteOfJson?_integer, ih hrest]

/-- An integer is in the range of its own type. -/
theorem make?_val (n : Integer) : Integer.make? n.kind n.val = some n := dif_pos n.inRange

/-- What is tagged is read back for the type of the value. -/
theorem contentOfJson?_of_loosened {v : Value} {kind : HostKind} {style : FloatStyle} {levels : Nat}
    {j : Json} (hv : v.isExact) (hkind : v.hostKind? = some kind)
    (hdepth : (v.content style).depth ≤ levels) (h : Loosened (v.content style) j) :
    contentOfJson? levels kind j = some v.dropZeroSign := by
  cases v with
  | null => cases hkind
  | float => cases hv
  | bytes bs =>
    obtain ⟨n, rfl, -⟩ := exists_levels_of_array hdepth
    obtain ⟨items, rfl, hitems⟩ := h.exists_array
    cases hkind
    simp [contentOfJson?, items?, mapM_byteOfJson? hitems, dropZeroSign]
  | dateTimeOffset m =>
    obtain rfl := h.eq_of_depth_eq_zero rfl
    cases hkind
    have hm : m.offset % 60 = 0 := by simpa [isExact] using hv
    simp [contentOfJson?, content, text?, OffsetDateTime.parse?_zuluText hm, dropZeroSign]
  | _ =>
    obtain rfl := h.eq_of_depth_eq_zero rfl
    cases hkind
    simp [contentOfJson?, content, bool?, integer?, text?, make?_val, decimalOfJson?,
      Decimal.parse?_text, onlyChar?_singleton, DateTime.parse?_joined, TimeOfDay.parse?_text,
      Guid.parse?_text, dropZeroSign]

/-- No value but null is written as null. -/
theorem ne_null_of_loosened_content {v : Value} {style : FloatStyle} {j : Json}
    (hv : v.isExact) (hnull : v ≠ null) (h : Loosened (v.content style) j) : j ≠ .null := by
  cases v with
  | null => exact absurd rfl hnull
  | float => cases hv
  | bytes =>
    obtain ⟨items, rfl, -⟩ := h.exists_array
    simp
  | _ =>
    obtain rfl := h.eq_of_depth_eq_zero rfl
    simp [content]

/-- A value is read for the type that its tag names, unless it is null. -/
theorem ofJson?_tagged {kind : HostKind} (hkind : kind ∈ HostKind.named) {j : Json} (hj : j ≠ .null)
    (levels : Nat) :
    ofJson? (levels + 1) (ofFields [(kind.name, j)]) = contentOfJson? levels kind j := by
  have htag : (ofFields [(kind.name, j)]).tag? (levels + 1) = none := by
    cases j with
    | null => exact absurd rfl hj
    | _ => rfl
  have hvariant : (ofFields [(kind.name, j)]).variant? (levels + 1) = some (kind.name, j) := rfl
  simp [ofJson?, htag, hvariant, HostKind.find?_name kind hkind]

/-- A value is read back. -/
theorem ofJson?_of_loosened {v : Value} {style : FloatStyle} {levels : Nat} {j : Json}
    (hv : v.isExact) (hdepth : (v.toJson style).depth ≤ levels)
    (h : Loosened (v.toJson style) j) : ofJson? levels j = some v.dropZeroSign := by
  by_cases hnull : v = null
  · subst hnull
    obtain rfl := h.eq_of_depth_eq_zero rfl
    rfl
  -- All other values are tagged with the name of their type.
  · obtain ⟨kind, hkind, hnamed⟩ : ∃ kind, v.hostKind? = some kind ∧ kind ∈ HostKind.named := by
      cases v with
      | null => exact absurd rfl hnull
      | _ => exact ⟨_, rfl, HostKind.mem_named (by simp)⟩
    have hjson : v.toJson style = ofFields [(kind.name, v.content style)] := by
      have htag : v.tag = kind.name := by simp [tag, hkind]
      cases v with
      | null => exact absurd rfl hnull
      | _ => simp only [toJson, htag]
    rw [hjson] at hdepth h
    obtain ⟨n, rfl, hfields⟩ := exists_levels_of_ofFields hdepth
    obtain ⟨content', rfl, hcontent⟩ := h.exists_tagged
    rw [ofJson?_tagged hnamed (ne_null_of_loosened_content hv hnull hcontent)]
    exact contentOfJson?_of_loosened hv hkind
      (hfields (kind.name, v.content style) List.mem_cons_self) hcontent

end Value

/-- The same constant, where a decimal zero has no sign. -/
def Constant.dropZeroSign (c : Constant) : Constant := { c with value := c.value.dropZeroSign }

/-- A constant is read back. -/
theorem Constant.ofJson?_of_loosened {c : Constant} {style : FloatStyle} {levels : Nat} {j : Json}
    (hc : c.value.isExact) (hdepth : (c.toJson style).depth ≤ levels)
    (h : Loosened (c.toJson style) j) : ofJson? levels j = some c.dropZeroSign := by
  obtain ⟨n, rfl, hfields⟩ := exists_levels_of_ofFields hdepth
  obtain ⟨vs, hvs, hloose⟩ := h.exists_values (s := Shape.constant) (by simp [Shape.all]) rfl rfl n
  rcases hloose with _ | ⟨hvalue, _ | ⟨hhost, _ | _⟩⟩
  simp only [List.forall_mem_cons] at hfields
  simp [ofJson?, hvs, Value.ofJson?_of_loosened hc hfields.1 hvalue,
    HostType.ofJson?_of_loosened hfields.2.1 hhost, dropZeroSign]

/-! ### Trees -/

/-- A family is read back from its name. -/
theorem Family.ofJson?_of_loosened {f : Family} {j : Json} (h : Loosened f.name j) (levels : Nat) :
    ofJson? levels j = some f :=
  h.named?_eq (by cases f <;> decide) levels

/-- A unary operator is read back from its name. -/
theorem UnaryOp.ofJson?_of_loosened {op : UnaryOp} {j : Json} (h : Loosened op.name j)
    (levels : Nat) : ofJson? levels j = some op :=
  h.named?_eq (by cases op <;> decide) levels

/-- A binary operator is read back from its name. -/
theorem BinaryOp.ofJson?_of_loosened {op : BinaryOp} {j : Json} (h : Loosened op.name j)
    (levels : Nat) : ofJson? levels j = some op :=
  h.named?_eq (by cases op <;> decide) levels

/-- A kind of values is read back from its name. -/
theorem ValueKind.ofJson?_of_loosened {k : ValueKind} {j : Json} (h : Loosened k.name j)
    (levels : Nat) : ofJson? levels j = some k :=
  h.named?_eq (by cases k <;> decide) levels

/-- A family is read back, also where it is left out. -/
theorem Family.ofField?_of_given {f : Family} {o : Option Json}
    (h : Given Shape.member ("family", f.name) o) (levels : Nat) : ofField? levels o = some f := by
  cases h with
  | present _ h => exact ofJson?_of_loosened h levels
  | missing hdefault =>
    cases f with
    | other => rfl
    | _ => simp [name] at hdefault

namespace Expr

mutual

/-- The same tree, where decimal zeros have no signs. -/
def dropZeroSigns : Expr → Expr
  | constant k c => constant k c.dropZeroSign
  | column k name family => column k name family
  | member k o name family => member k (dropZeroSigns o) name family
  | unary k op operand => unary k op (dropZeroSigns operand)
  | binary k op left right => binary k op (dropZeroSigns left) (dropZeroSigns right)
  | call k family method receiver args =>
    call k family method (dropZeroSigns receiver) (listDropZeroSigns args)
  | callStatic k family method args => callStatic k family method (listDropZeroSigns args)
  | conditional k test ifTrue ifFalse =>
    conditional k (dropZeroSigns test) (dropZeroSigns ifTrue) (dropZeroSigns ifFalse)
  | construct k type args => construct k type (listDropZeroSigns args)
  | .array k items => .array k (listDropZeroSigns items)

/-- The same trees, where decimal zeros have no signs. -/
def listDropZeroSigns : List Expr → List Expr
  | [] => []
  | e :: es => dropZeroSigns e :: listDropZeroSigns es

end

/-- Trees without signs on their decimal zeros are the same. -/
theorem listDropZeroSigns_eq {es : List Expr} (h : ∀ e ∈ es, e.dropZeroSigns = e) :
    listDropZeroSigns es = es := by
  induction es with
  | nil => rfl
  | cons e es ih =>
    rw [List.forall_mem_cons] at h
    rw [listDropZeroSigns, h.1, ih h.2]

/-- A tree without signs on its decimal zeros is the same. -/
theorem dropZeroSigns_eq {e : Expr}
    (h : ∀ n ∈ e.nodes, ∀ c ∈ n.constant?, c.dropZeroSign = c) : e.dropZeroSigns = e := by
  induction e using Expr.induction with
  | constant k c => rw [dropZeroSigns, h _ (mem_nodes_self _) c rfl]
  | column => rfl
  | member k object name family ih =>
    rw [dropZeroSigns, ih (forall_nodes_of_mem_children h (by simp [children]))]
  | unary k op operand ih =>
    rw [dropZeroSigns, ih (forall_nodes_of_mem_children h (by simp [children]))]
  | binary k op left right ihl ihr =>
    rw [dropZeroSigns, ihl (forall_nodes_of_mem_children h (by simp [children])),
      ihr (forall_nodes_of_mem_children h (by simp [children]))]
  | call k family method receiver args ihr iha =>
    rw [dropZeroSigns, ihr (forall_nodes_of_mem_children h (by simp [children])),
      listDropZeroSigns_eq fun a ha =>
        iha a ha (forall_nodes_of_mem_children h (by simp [children, ha]))]
  | callStatic k family method args ih =>
    rw [dropZeroSigns, listDropZeroSigns_eq fun a ha =>
      ih a ha (forall_nodes_of_mem_children h (by simp [children, ha]))]
  | conditional k test ifTrue ifFalse iht ihl ihr =>
    rw [dropZeroSigns, iht (forall_nodes_of_mem_children h (by simp [children])),
      ihl (forall_nodes_of_mem_children h (by simp [children])),
      ihr (forall_nodes_of_mem_children h (by simp [children]))]
  | construct k type args ih =>
    rw [dropZeroSigns, listDropZeroSigns_eq fun a ha =>
      ih a ha (forall_nodes_of_mem_children h (by simp [children, ha]))]
  | array k items ih =>
    rw [dropZeroSigns, listDropZeroSigns_eq fun a ha =>
      ih a ha (forall_nodes_of_mem_children h (by simp [children, ha]))]

/-- The reader gives the tree, up to signs of zeros, for its document and for all looser ones. -/
def ReadBy (style : FloatStyle) (read : Json → Option Expr) (e : Expr) : Prop :=
  ∀ j, Loosened (e.toJson style) j → read j = some e.dropZeroSigns

/-- The tree is read back by every reader that goes down as deep as its document. -/
def ReadBack (style : FloatStyle) (e : Expr) : Prop :=
  ∀ levels, (e.toJson style).depth ≤ levels → e.ReadBy style (ofJson? levels)

variable {style : FloatStyle} {kind : ValueKind} {levels : Nat} {read readArg : Json → Option Expr}
  {content : Json}

/-- Trees are written one after the other. -/
theorem listJson_cons (style : FloatStyle) (e : Expr) (es : List Expr) :
    listJson style (e :: es) = e.toJson style :: listJson style es := rfl

/-- Each tree in a list is written by itself. -/
theorem listJson_eq_map (style : FloatStyle) (es : List Expr) :
    listJson style es = es.map (toJson style) := by
  induction es with
  | nil => rfl
  | cons e es ih => rw [listJson_cons, ih, List.map_cons]

/-- Every node has its fields, its tag and its content. -/
theorem exists_toJson_eq (style : FloatStyle) (e : Expr) :
    ∃ tag content kind, e.toJson style = nodeJson tag content kind := by
  cases e <;> exact ⟨_, _, _, rfl⟩

/-- The document of a tree is never null. -/
theorem ne_null_of_loosened {e : Expr} {j : Json} (h : Loosened (e.toJson style) j) :
    j ≠ .null := by
  rintro rfl
  obtain ⟨tag, content, kind, hnode⟩ := exists_toJson_eq style e
  rw [hnode] at h
  obtain ⟨os, hos, -⟩ := h.exists_record? (s := Shape.node) (by simp [Shape.all]) rfl 0
  cases hos

/-- The object of a member access or a call as it is written. -/
def objectJson (style : FloatStyle) (o : Option Expr) : Json :=
  o.elim .null (toJson style)

/-- An object is read back. Where there is none, it may be null or left out. -/
theorem objectOf?_of_given {s : Shape} {o : Option Expr} {f : Option Json}
    (hs : ∀ j, ("object", j) ∈ s.defaults → j = .null) (ho : ∀ e ∈ o, ReadBy style read e)
    (h : Given s ("object", objectJson style o) f) :
    objectOf? read f = some (o.map dropZeroSigns) := by
  cases o with
  | none =>
    cases h with
    | present _ h =>
      obtain rfl := h.eq_of_depth_eq_zero rfl
      rfl
    | missing => rfl
  | some e =>
    obtain ⟨j, rfl, hj⟩ := h.exists_some fun h => ne_null_of_loosened (.refl _) (hs _ h)
    have hread : read j = some e.dropZeroSigns := ho e rfl j hj
    -- The document of a tree is an object, so that it does not stand for a missing one.
    cases j with
    | null => exact absurd rfl (ne_null_of_loosened hj)
    | _ => simp [objectOf?, hread]

/-- Trees are read back one after the other. -/
theorem mapM_of_loosened {es : List Expr} {items : List Json} (hes : ∀ e ∈ es, ReadBy style read e)
    (h : List.Forall₂ Loosened (listJson style es) items) :
    items.mapM read = some (listDropZeroSigns es) := by
  induction es generalizing items with
  | nil => cases h; rfl
  | cons e es ih =>
    rw [List.forall_mem_cons] at hes
    rw [listJson_cons] at h
    rcases h with _ | ⟨he, hrest⟩
    simp [List.mapM_cons, hes.1 _ he, ih hes.2 hrest, listDropZeroSigns]

/-- Trees in an array are read back. -/
theorem items?_bind_of_loosened {es : List Expr} {j : Json}
    (hdepth : (Json.array (listJson style es)).depth ≤ levels) (hes : ∀ e ∈ es, ReadBy style read e)
    (h : Loosened (.array (listJson style es)) j) :
    (j.items? levels).bind (·.mapM read) = some (listDropZeroSigns es) := by
  obtain ⟨n, rfl, -⟩ := exists_levels_of_array hdepth
  obtain ⟨items, rfl, hitems⟩ := h.exists_array
  simp [items?, mapM_of_loosened hes hitems]

/-- The arguments of a call are read back. Where there are none, they may be left out. -/
theorem argsOf?_of_given {args : List Expr} {f : Option Json}
    (hdepth : (Json.array (listJson style args)).depth ≤ levels)
    (hargs : ∀ e ∈ args, ReadBy style readArg e)
    (h : Given Shape.call ("args", .array (listJson style args)) f) :
    argsOf? levels readArg true f = some (listDropZeroSigns args) := by
  cases h with
  | present _ h => exact items?_bind_of_loosened hdepth hargs h
  | missing hdefault =>
    cases args with
    | nil => rfl
    | cons => simp [listJson_cons] at hdefault

/-! #### Contents of nodes -/

/-- A member access is read back, with an object or without one. -/
theorem memberOf?_of_loosened (style : FloatStyle) {o : Option Expr} {name : String}
    {family : Family} (ho : ∀ e ∈ o, ReadBy style read e)
    (h : Loosened (memberJson (objectJson style o) name family) content) :
    memberOf? levels read kind content =
      some ((o.map dropZeroSigns).elim (column kind name family) (member kind · name family)) := by
  obtain ⟨os, hos, hgiven⟩ := h.exists_record? (s := Shape.member) (by simp [Shape.all]) rfl levels
  rcases hgiven with _ | ⟨hobject, _ | ⟨hname, _ | ⟨hfamily, _ | _⟩⟩⟩
  obtain ⟨name', rfl, hname'⟩ := hname.exists_some (by simp)
  simp only [memberOf?, hos, objectOf?_of_given (by simp) ho hobject, hname'.text?_eq,
    Family.ofField?_of_given hfamily]
  cases o <;> rfl

/-- A method call is read back, with an object or without one. -/
theorem callOf?_of_loosened (style : FloatStyle) {o : Option Expr} {family : Family}
    {method : String} {args : List Expr} (ho : ∀ e ∈ o, ReadBy style read e)
    (hdepth : (Json.array (listJson style args)).depth ≤ levels)
    (hargs : ∀ e ∈ args, ReadBy style readArg e)
    (h : Loosened (callJson family method (objectJson style o) (listJson style args)) content) :
    callOf? levels read readArg kind content =
      some ((o.map dropZeroSigns).elim (callStatic kind family method (listDropZeroSigns args))
        (call kind family method · (listDropZeroSigns args))) := by
  obtain ⟨os, hos, hgiven⟩ := h.exists_record? (s := Shape.call) (by simp [Shape.all]) rfl levels
  rcases hgiven with _ | ⟨hfamily, _ | ⟨hmethod, _ | ⟨hobject, _ | ⟨hitems, _ | _⟩⟩⟩⟩
  obtain ⟨family', rfl, hfamily'⟩ := hfamily.exists_some (by simp)
  obtain ⟨method', rfl, hmethod'⟩ := hmethod.exists_some (by simp)
  simp only [callOf?, hos, Family.ofJson?_of_loosened hfamily', hmethod'.text?_eq,
    objectOf?_of_given (by simp) ho hobject, argsOf?_of_given hdepth hargs hitems]
  cases o <;> rfl

/-- A unary node is read back. -/
theorem unaryOf?_of_loosened {op : UnaryOp} {operand : Expr} (hoperand : ReadBy style read operand)
    (h : Loosened (ofFields [("op", op.name), ("operand", operand.toJson style)]) content) :
    unaryOf? levels read kind content = some (unary kind op operand).dropZeroSigns := by
  obtain ⟨vs, hvs, hloose⟩ :=
    h.exists_values (s := Shape.unary) (by simp [Shape.all]) rfl rfl levels
  rcases hloose with _ | ⟨hop, _ | ⟨hx, _ | _⟩⟩
  simp [unaryOf?, hvs, UnaryOp.ofJson?_of_loosened hop, hoperand _ hx, dropZeroSigns]

/-- A binary node is read back. -/
theorem binaryOf?_of_loosened {op : BinaryOp} {left right : Expr} (hleft : ReadBy style read left)
    (hright : ReadBy style read right)
    (h : Loosened (ofFields [("op", op.name), ("left", left.toJson style),
      ("right", right.toJson style)]) content) :
    binaryOf? levels read kind content = some (binary kind op left right).dropZeroSigns := by
  obtain ⟨vs, hvs, hloose⟩ :=
    h.exists_values (s := Shape.binary) (by simp [Shape.all]) rfl rfl levels
  rcases hloose with _ | ⟨hop, _ | ⟨hx, _ | ⟨hy, _ | _⟩⟩⟩
  simp [binaryOf?, hvs, BinaryOp.ofJson?_of_loosened hop, hleft _ hx, hright _ hy, dropZeroSigns]

/-- A conditional is read back. -/
theorem conditionalOf?_of_loosened {test ifTrue ifFalse : Expr} (htest : ReadBy style read test)
    (htrue : ReadBy style read ifTrue) (hfalse : ReadBy style read ifFalse)
    (h : Loosened (ofFields [("test", test.toJson style), ("if_true", ifTrue.toJson style),
      ("if_false", ifFalse.toJson style)]) content) :
    conditionalOf? levels read kind content =
      some (conditional kind test ifTrue ifFalse).dropZeroSigns := by
  obtain ⟨vs, hvs, hloose⟩ :=
    h.exists_values (s := Shape.conditional) (by simp [Shape.all]) rfl rfl levels
  rcases hloose with _ | ⟨hx, _ | ⟨hy, _ | ⟨hz, _ | _⟩⟩⟩
  simp [conditionalOf?, hvs, htest _ hx, htrue _ hy, hfalse _ hz, dropZeroSigns]

/-- A constructor is read back. -/
theorem constructOf?_of_loosened {type : HostKind} {args : List Expr}
    (htype : type.toJson.depth ≤ levels)
    (hdepth : (Json.array (listJson style args)).depth ≤ levels)
    (hargs : ∀ e ∈ args, ReadBy style readArg e)
    (h : Loosened (ofFields [("ty", type.toJson), ("args", .array (listJson style args))])
      content) :
    constructOf? levels readArg kind content =
      some (construct kind type args).dropZeroSigns := by
  obtain ⟨vs, hvs, hloose⟩ :=
    h.exists_values (s := Shape.construct) (by simp [Shape.all]) rfl rfl levels
  rcases hloose with _ | ⟨hty, _ | ⟨hitems, _ | _⟩⟩
  simp [constructOf?, hvs, HostKind.ofJson?_of_loosened htype hty, argsOf?,
    items?_bind_of_loosened hdepth hargs hitems, dropZeroSigns]

/-! #### Nodes -/

/-- The readers for the trees below a root: one for those right inside its content, and one for
    those in an array there. -/
theorem exists_ofJson?_eq (n : Nat) (j : Json) :
    ∃ readArg, (∀ m, n = m + 1 → readArg = ofJson? m) ∧
      ofJson? (n + 3) j = treeOf? n (ofJson? n) readArg j := by
  cases n with
  | zero => exact ⟨fun _ => none, by simp, rfl⟩
  | succ m =>
    exact ⟨ofJson? m, fun l hl => congrArg ofJson? (Nat.succ.inj hl), by rw [ofJson?]⟩

/-- A node is read back if its content is, three levels down. -/
theorem readBack_of_toJson_eq {e : Expr} {tag : String}
    (he : e.toJson style = nodeJson tag content kind) (hpos : 0 < content.depth)
    (hnode : ∀ n readArg content', content.depth ≤ n + 1 →
      (∀ m, n = m + 1 → readArg = ofJson? m) → Loosened content content' →
      nodeOf? n (ofJson? n) readArg kind tag content' = some e.dropZeroSigns) :
    ReadBack style e := by
  intro levels hdepth j h
  rw [he] at hdepth h
  obtain ⟨n, rfl, hfields⟩ := exists_levels_of_ofFields hdepth
  obtain ⟨n, rfl, hcontent⟩ := exists_levels_of_ofFields (hfields _ List.mem_cons_self)
  have hcontent : content.depth ≤ n := hcontent (tag, content) List.mem_cons_self
  -- Fields, tag and content take a level each, so the reader can go three levels down.
  obtain ⟨n, rfl⟩ : ∃ m, n = m + 1 := ⟨n - 1, by omega⟩
  obtain ⟨vs, hvs, hloose⟩ :=
    h.exists_values (s := Shape.node) (by simp [Shape.all]) rfl rfl (n + 2)
  rcases hloose with _ | ⟨hx, _ | ⟨hkind, _ | _⟩⟩
  obtain ⟨content', rfl, hcontent'⟩ := hx.exists_tagged
  have hvariant : (ofFields [(tag, content')]).variant? (n + 2) = some (tag, content') := rfl
  obtain ⟨readArg, hreadArg, heq⟩ := exists_ofJson?_eq n j
  rw [heq, ← hnode n readArg content' hcontent hreadArg hcontent']
  simp [treeOf?, hvs, ValueKind.ofJson?_of_loosened hkind, hvariant]

/-- A node whose content is a structure is read back if that is. -/
theorem readBack_of_fields {e : Expr} {tag : String} {fields : List (String × Json)}
    (he : e.toJson style = nodeJson tag (ofFields fields) kind)
    (hnode : ∀ n readArg content', (∀ f ∈ fields, f.2.depth ≤ n) →
      (∀ m, n = m + 1 → readArg = ofJson? m) → Loosened (ofFields fields) content' →
      nodeOf? n (ofJson? n) readArg kind tag content' = some e.dropZeroSigns) :
    ReadBack style e :=
  readBack_of_toJson_eq he (depth_ofFields_pos _) fun n readArg content' hdepth =>
    hnode n readArg content' (depth_ofFields_le_iff.mp hdepth)

/-- Trees in an array are read back by the reader for one level down. -/
theorem forall_readBy {es : List Expr} (hes : ∀ e ∈ es, ReadBack style e)
    (hread : ∀ m, levels = m + 1 → read = ofJson? m)
    (hdepth : (Json.array (listJson style es)).depth ≤ levels) : ∀ e ∈ es, ReadBy style read e := by
  obtain ⟨m, rfl, hitems⟩ := exists_levels_of_array hdepth
  rw [hread m rfl]
  intro e he
  refine hes e he m (hitems _ ?_)
  rw [listJson_eq_map]
  exact List.mem_map_of_mem he

/-- A tree whose values are written exactly is read back. -/
theorem readBack (e : Expr) (he : ∀ n ∈ e.nodes, ∀ c ∈ n.constant?, c.value.isExact) :
    ReadBack style e := by
  induction e using Expr.induction_children with
  | node e ih =>
    have hchildren : ∀ a ∈ e.children, ReadBack style a := fun a ha =>
      ih a ha (forall_nodes_of_mem_children he ha)
    -- Each case reads the content of one kind of node. The parts are not as deep as the whole, so
    -- the readers for them go down far enough.
    cases e with
    | constant k c =>
      refine readBack_of_toJson_eq rfl (depth_ofFields_pos _) fun n _ content' hdepth _ h => ?_
      have hc : c.value.isExact := he _ (mem_nodes_self _) c rfl
      simp [nodeOf?, Constant.ofJson?_of_loosened hc hdepth h, dropZeroSigns]
    | column k name family =>
      refine readBack_of_fields rfl fun n _ content' _ _ h => ?_
      exact memberOf?_of_loosened style (o := none) (by simp) h
    | member k object name family =>
      refine readBack_of_fields rfl fun n _ content' hdepth _ h => ?_
      simp only [children, List.forall_mem_cons] at hchildren hdepth
      have hobject := hchildren.1 n hdepth.1
      exact memberOf?_of_loosened style (o := some object) (by simpa using hobject) h
    | unary k op operand =>
      refine readBack_of_fields rfl fun n _ content' hdepth _ h => ?_
      simp only [children, List.forall_mem_cons] at hchildren hdepth
      exact unaryOf?_of_loosened (hchildren.1 n hdepth.2.1) h
    | binary k op left right =>
      refine readBack_of_fields rfl fun n _ content' hdepth _ h => ?_
      simp only [children, List.forall_mem_cons] at hchildren hdepth
      obtain ⟨hleft, hright, -⟩ := hchildren
      exact binaryOf?_of_loosened (hleft n hdepth.2.1) (hright n hdepth.2.2.1) h
    | call k family method receiver args =>
      refine readBack_of_fields rfl fun n readArg content' hdepth hreadArg h => ?_
      simp only [children, List.forall_mem_cons] at hchildren hdepth
      obtain ⟨hreceiver, hargs⟩ := hchildren
      have hobject := hreceiver n hdepth.2.2.1
      exact callOf?_of_loosened style (o := some receiver) (by simpa using hobject)
        hdepth.2.2.2.1 (forall_readBy hargs hreadArg hdepth.2.2.2.1) h
    | callStatic k family method args =>
      refine readBack_of_fields rfl fun n readArg content' hdepth hreadArg h => ?_
      simp only [List.forall_mem_cons] at hdepth
      exact callOf?_of_loosened style (o := none) (by simp) hdepth.2.2.2.1
        (forall_readBy hchildren hreadArg hdepth.2.2.2.1) h
    | conditional k test ifTrue ifFalse =>
      refine readBack_of_fields rfl fun n _ content' hdepth _ h => ?_
      simp only [children, List.forall_mem_cons] at hchildren hdepth
      obtain ⟨htest, htrue, hfalse, -⟩ := hchildren
      exact conditionalOf?_of_loosened (htest n hdepth.1) (htrue n hdepth.2.1)
        (hfalse n hdepth.2.2.1) h
    | construct k type args =>
      refine readBack_of_fields rfl fun n readArg content' hdepth hreadArg h => ?_
      simp only [List.forall_mem_cons] at hdepth
      exact constructOf?_of_loosened hdepth.1 hdepth.2.1
        (forall_readBy hchildren hreadArg hdepth.2.1) h
    | array k items =>
      -- The content is the array itself, so its items are right below the node.
      refine readBack_of_toJson_eq rfl (Nat.succ_pos _) fun n _ content' hdepth _ h => ?_
      have hread : ∀ m, n + 1 = m + 1 → ofJson? n = ofJson? m := fun m hm =>
        congrArg ofJson? (Nat.succ.inj hm)
      simp [nodeOf?, items?_bind_of_loosened hdepth (forall_readBy hchildren hread hdepth) h,
        dropZeroSigns]

end Expr

end WhereClause
