import WhereClause.Proofs.Documents
import WhereClause.Proofs.JsonTexts

namespace WhereClause

/-!
# Texts of trees

The text of a tree is read back as far down as the reader of texts goes, and no further.

* `Expr.plain_toJson` — the document of a tree can be written and read as text;
* `Expr.TooDeep` — a document that goes further down than the reader is refused;
* `Expr.parse_loosened` — when and what the reader gets from the text of a tree, and from the text
  of a looser document.
-/

open Json

/-! ### Documents that can be written -/

namespace Json

/-- An object is plain if the values of its fields are. -/
theorem plain_ofFields {fields : List (String × Json)} :
    Plain (ofFields fields) ↔ ∀ f ∈ fields, Plain f.2 := by
  refine ⟨fun h => ?_, .object⟩
  generalize hj : ofFields fields = j at h
  cases h with
  | object h => rwa [ofFields_injective hj]
  | _ => cases hj

/-- An integer is plain if it fits into 64 bits, with a sign or without. -/
theorem plain_integer {n : Int} :
    Plain (integer n) ↔ -0x8000000000000000 ≤ n ∧ n < 0x10000000000000000 := by
  refine ⟨fun h => ?_, fun h => .integer h.1 h.2⟩
  cases h with
  | integer hmin hmax => exact ⟨hmin, hmax⟩

/-- A tagged document is plain if what is tagged is. -/
theorem Plain.tagged {j : Json} (h : Plain j) (tag : String) : Plain (ofFields [(tag, j)]) :=
  .object (by simpa using h)

end Json

/-- The document of a type holds names only. -/
theorem HostKind.plain_toJson (k : HostKind) : Plain k.toJson := by
  by_cases hk : ∃ name, k = other name
  · obtain ⟨name, rfl⟩ := hk
    exact (Plain.string name).tagged _
  · rw [toJson_of_ne_other fun name h => hk ⟨name, h⟩]
    exact .string _

/-- That of a host type holds a truth value besides. -/
theorem HostType.plain_toJson (t : HostType) : Plain t.toJson :=
  .object (by simpa using ⟨t.kind.plain_toJson, .bool t.nullable⟩)

/-- Integers of all types fit into 64 bits, with a sign or without. -/
theorem Integer.plain (n : Integer) : Plain (.integer n.val) := by
  have hkinds : ∀ k : IntKind, -0x8000000000000000 ≤ k.min ∧ k.max < 0x10000000000000000 := by
    rintro (_ | _) <;> decide
  obtain ⟨hmin, hmax⟩ := hkinds n.kind
  have hrange := n.inRange
  exact .integer (Int.le_trans hmin hrange.1) (Int.lt_of_le_of_lt hrange.2 hmax)

/-- Values that are written exactly are truth values, integers, texts and arrays of bytes. -/
theorem Value.plain_toJson {v : Value} (hv : v.isExact) (style : FloatStyle) :
    Plain (v.toJson style) := by
  cases v with
  | null => exact .string _
  | bool b => exact (Plain.bool b).tagged _
  | int n => exact n.plain.tagged _
  | float => cases hv
  | bytes bs =>
    have hbytes : ∀ b ∈ bs.map fun b => Json.integer b.toNat, Plain b := by
      simp only [List.mem_map, forall_exists_index, and_imp, forall_apply_eq_imp_iff₂]
      intro b _
      have hb := b.toNat_lt
      exact .integer (by omega) (by omega)
    exact (Plain.array hbytes).tagged _
  | _ => exact (Plain.string _).tagged _

/-- A constant is a value and a host type. -/
theorem Constant.plain_toJson {c : Constant} (hc : c.value.isExact) (style : FloatStyle) :
    Plain (c.toJson style) :=
  .object (by simpa using ⟨Value.plain_toJson hc style, c.host.plain_toJson⟩)

namespace Expr

variable {style : FloatStyle}

/-- A node is plain if its content is. -/
theorem plain_nodeJson {content : Json} (h : Plain content) (tag : String) (kind : ValueKind) :
    Plain (nodeJson tag content kind) :=
  .object (by simpa using ⟨h.tagged tag, .string kind.name⟩)

/-- Trees in an array are plain if each of them is. -/
theorem plain_listJson {es : List Expr} (h : ∀ e ∈ es, Plain (e.toJson style)) :
    Plain (.array (listJson style es)) := by
  refine .array ?_
  simpa [listJson_eq_map] using h

/-- The document of a tree is plain if the values in it are written exactly. -/
theorem plain_toJson (e : Expr) (he : ∀ n ∈ e.nodes, ∀ c ∈ n.constant?, c.value.isExact) :
    Plain (e.toJson style) := by
  induction e using Expr.induction_children with
  | node e ih =>
    have hchildren : ∀ a ∈ e.children, Plain (a.toJson style) := fun a ha =>
      ih a ha (forall_nodes_of_mem_children he ha)
    cases e with
    | constant k c =>
      exact plain_nodeJson (Constant.plain_toJson (he _ (mem_nodes_self _) c rfl) _) _ _
    | column k name family =>
      exact plain_nodeJson (.object (by simp [Plain.null, Plain.string])) _ _
    | member k object name family | unary k op object =>
      simp only [children, List.forall_mem_cons] at hchildren
      exact plain_nodeJson (.object (by simp [hchildren.1, Plain.string])) _ _
    | binary k op left right =>
      simp only [children, List.forall_mem_cons] at hchildren
      obtain ⟨hleft, hright, -⟩ := hchildren
      exact plain_nodeJson (.object (by simp [hleft, hright, Plain.string])) _ _
    | call k family method receiver args =>
      simp only [children, List.forall_mem_cons] at hchildren
      obtain ⟨hreceiver, hargs⟩ := hchildren
      exact plain_nodeJson (.object (by simp [hreceiver, plain_listJson hargs, Plain.string])) _ _
    | callStatic k family method args =>
      have hargs : Plain (.array (listJson style args)) := plain_listJson hchildren
      exact plain_nodeJson (.object (by simp [hargs, Plain.null, Plain.string])) _ _
    | conditional k test ifTrue ifFalse =>
      simp only [children, List.forall_mem_cons] at hchildren
      obtain ⟨htest, htrue, hfalse, -⟩ := hchildren
      exact plain_nodeJson (.object (by simp [htest, htrue, hfalse])) _ _
    | construct k type args =>
      have hargs : Plain (.array (listJson style args)) := plain_listJson hchildren
      exact plain_nodeJson (.object (by simp [hargs, type.plain_toJson])) _ _
    | array k items => exact plain_nodeJson (plain_listJson hchildren) _ _

end Expr

/-! ### Documents that are too deep -/

/-- A type that has no name of its own takes a level. -/
theorem HostKind.ofJson?_of_deep {k : HostKind} {levels : Nat} (h : levels < k.toJson.depth) :
    ofJson? levels k.toJson = none := by
  by_cases hk : ∃ name, k = other name
  · obtain ⟨name, rfl⟩ := hk
    obtain rfl : levels = 0 := Nat.lt_one_iff.mp h
    rfl
  · rw [toJson_of_ne_other fun name h => hk ⟨name, h⟩] at h
    cases h

/-- A host type takes a level, and another one if its type does. -/
theorem HostType.ofJson?_of_deep {t : HostType} {levels : Nat} (h : levels < t.toJson.depth) :
    ofJson? levels t.toJson = none := by
  cases levels with
  | zero => rfl
  | succ n =>
    -- A truth value is never too deep, so it has to be the type.
    have hkind : n < t.kind.toJson.depth := by
      simpa [toJson, lt_depth_ofFields_iff, depth] using h
    have hrecord : t.toJson.record? (n + 1) ["kind", "nullable"] =
        some [some t.kind.toJson, some (.bool t.nullable)] := rfl
    simp [ofJson?, hrecord, HostKind.ofJson?_of_deep hkind]

/-- A value takes a level for its tag, and another one if it is an array of bytes. -/
theorem Value.ofJson?_of_deep {v : Value} (hv : v.isExact) {style : FloatStyle} {levels : Nat}
    (h : levels < (v.toJson style).depth) : ofJson? levels (v.toJson style) = none := by
  cases v with
  | float => cases hv
  | null => cases h
  | bytes bs =>
    cases levels with
    | zero => rfl
    | succ n =>
      have harray : n < (Json.array (bs.map fun b => .integer b.toNat)).depth := by
        simpa [toJson, content, lt_depth_ofFields_iff] using h
      cases n with
      | zero =>
        -- Bytes are an array below the tag, so that one level is too few as well.
        have hcontent : (bytes bs).content style ≠ .null := by simp [content]
        exact ofJson?_tagged (HostKind.mem_named (k := .bytes) (by simp)) hcontent 0
      | succ n =>
        rw [lt_depth_array_iff] at harray
        simp [depth] at harray
  | _ =>
    obtain rfl : levels = 0 := Nat.lt_one_iff.mp h
    rfl

/-- A constant takes a level more than its value and its host type. -/
theorem Constant.ofJson?_of_deep {c : Constant} (hc : c.value.isExact) {style : FloatStyle}
    {levels : Nat} (h : levels < (c.toJson style).depth) :
    ofJson? levels (c.toJson style) = none := by
  cases levels with
  | zero => rfl
  | succ n =>
    have hrecord : (c.toJson style).record? (n + 1) ["value", "host"] =
        some [some (c.value.toJson style), some c.host.toJson] := rfl
    have hparts : n < (c.value.toJson style).depth ∨ n < c.host.toJson.depth := by
      simpa [toJson, lt_depth_ofFields_iff] using h
    rcases hparts with hvalue | hhost
    · simp [ofJson?, hrecord, Value.ofJson?_of_deep hc hvalue]
    · simp [ofJson?, hrecord, HostType.ofJson?_of_deep hhost]

namespace Expr

variable {style : FloatStyle} {kind : ValueKind} {levels : Nat} {read readArg : Json → Option Expr}

/-- The document of the tree is refused by every reader that does not go down as far. -/
def TooDeep (style : FloatStyle) (e : Expr) : Prop :=
  ∀ levels, levels < (e.toJson style).depth → ofJson? levels (e.toJson style) = none

/-- A list is refused if one of its items is. -/
theorem mapM_eq_none {items : List Json} {j : Json} (hj : j ∈ items) (h : read j = none) :
    items.mapM read = none := by
  induction items with
  | nil => cases hj
  | cons i items ih =>
    rw [List.mapM_cons]
    rcases List.mem_cons.mp hj with rfl | hj
    · simp [h]
    · cases read i <;> simp [ih hj]

/-- Trees in an array are refused if the array is too deep for the reader. -/
theorem items?_bind_of_deep {es : List Expr} (hes : ∀ e ∈ es, TooDeep style e)
    (hread : ∀ m, levels = m + 1 → read = ofJson? m)
    (h : levels < (Json.array (listJson style es)).depth) :
    ((Json.array (listJson style es)).items? levels).bind (·.mapM read) = none := by
  cases levels with
  | zero => rfl
  | succ m =>
    obtain ⟨j, hj, hlt⟩ := lt_depth_array_iff.mp h
    rw [hread m rfl]
    have hitem : ofJson? m j = none := by
      rw [listJson_eq_map] at hj
      obtain ⟨e, he, rfl⟩ := List.mem_map.mp hj
      exact hes e he m hlt
    simp [items?, mapM_eq_none hj hitem]

/-- A node takes a level for its fields and one for its tag, before its content. -/
theorem depth_nodeJson (tag : String) (content : Json) (kind : ValueKind) :
    (nodeJson tag content kind).depth = content.depth + 2 := by
  simp [nodeJson, ofFields, depth, fieldsDepth]

/-- A node is refused if its content is, three levels down. -/
theorem tooDeep_of_toJson_eq {e : Expr} {tag : String} {content : Json}
    (he : e.toJson style = nodeJson tag content kind)
    (hnode : ∀ n readArg, n + 1 < content.depth → (∀ m, n = m + 1 → readArg = ofJson? m) →
      nodeOf? n (ofJson? n) readArg kind tag content = none) : TooDeep style e := by
  intro levels h
  rw [he] at h ⊢
  -- With fewer than three levels the reader does not get to the content at all.
  by_cases hlevels : levels < 3
  · obtain rfl | rfl | rfl : levels = 0 ∨ levels = 1 ∨ levels = 2 := by omega
    all_goals rfl
  · obtain ⟨n, rfl⟩ : ∃ n, levels = n + 3 := ⟨levels - 3, by omega⟩
    have hdepth : n + 1 < content.depth := by
      rw [depth_nodeJson] at h
      omega
    obtain ⟨readArg, hreadArg, heq⟩ := exists_ofJson?_eq n (nodeJson tag content kind)
    have hrecord : (nodeJson tag content kind).record? (n + 3) ["node", "kind"] =
        some [some (ofFields [(tag, content)]), some kind.name] := rfl
    have hvariant : (ofFields [(tag, content)]).variant? (n + 2) = some (tag, content) := rfl
    have hkind : ValueKind.ofJson? (n + 2) kind.name = some kind :=
      ValueKind.ofJson?_of_loosened (.refl _) _
    rw [heq]
    simp [treeOf?, hrecord, hkind, hvariant, hnode n readArg hdepth hreadArg]

/-! #### Contents of nodes -/

/-- An object that is there is given to the reader of trees. -/
theorem objectOf?_toJson (read : Json → Option Expr) (e : Expr) :
    objectOf? read (some (e.toJson style)) = (read (e.toJson style)).map some := by
  obtain ⟨tag, content, kind, hnode⟩ := exists_toJson_eq style e
  rw [hnode]
  rfl

/-- A member access is refused if its object is. -/
theorem memberOf?_of_deep {object : Expr} (hobject : TooDeep style object) {name : String}
    {family : Family} (h : levels + 1 < (memberJson (object.toJson style) name family).depth) :
    memberOf? levels (ofJson? levels) kind (memberJson (object.toJson style) name family) =
      none := by
  have hrecord : (memberJson (object.toJson style) name family).record? (levels + 1)
      ["object", "name", "family"] =
        some [some (object.toJson style), some (.string name), some (.string family.name)] := rfl
  have hlt : levels < (object.toJson style).depth := by
    simpa [memberJson, lt_depth_ofFields_iff, depth] using h
  simp [memberOf?, hrecord, objectOf?_toJson, hobject levels hlt]

/-- A unary node is refused if its operand is. -/
theorem unaryOf?_of_deep {op : UnaryOp} {operand : Expr} (hoperand : TooDeep style operand)
    (h : levels + 1 < (ofFields [("op", op.name), ("operand", operand.toJson style)]).depth) :
    unaryOf? levels (ofJson? levels) kind
      (ofFields [("op", op.name), ("operand", operand.toJson style)]) = none := by
  have hrecord : (ofFields [("op", op.name), ("operand", operand.toJson style)]).record?
      (levels + 1) ["op", "operand"] =
        some [some (.string op.name), some (operand.toJson style)] := rfl
  have hlt : levels < (operand.toJson style).depth := by
    simpa [lt_depth_ofFields_iff, depth] using h
  simp [unaryOf?, hrecord, hoperand levels hlt]

/-- A binary node is refused if one of its operands is. -/
theorem binaryOf?_of_deep {op : BinaryOp} {left right : Expr} (hleft : TooDeep style left)
    (hright : TooDeep style right)
    (h : levels + 1 < (ofFields [("op", op.name), ("left", left.toJson style),
      ("right", right.toJson style)]).depth) :
    binaryOf? levels (ofJson? levels) kind (ofFields [("op", op.name), ("left", left.toJson style),
      ("right", right.toJson style)]) = none := by
  have hrecord : (ofFields [("op", op.name), ("left", left.toJson style),
      ("right", right.toJson style)]).record? (levels + 1) ["op", "left", "right"] =
        some [some (.string op.name), some (left.toJson style), some (right.toJson style)] := rfl
  have hparts : levels < (left.toJson style).depth ∨ levels < (right.toJson style).depth := by
    simpa [lt_depth_ofFields_iff, depth] using h
  rcases hparts with hlt | hlt
  · simp [binaryOf?, hrecord, hleft levels hlt]
  · simp [binaryOf?, hrecord, hright levels hlt]

/-- A conditional is refused if one of its parts is. -/
theorem conditionalOf?_of_deep {test ifTrue ifFalse : Expr} (htest : TooDeep style test)
    (htrue : TooDeep style ifTrue) (hfalse : TooDeep style ifFalse)
    (h : levels + 1 < (ofFields [("test", test.toJson style), ("if_true", ifTrue.toJson style),
      ("if_false", ifFalse.toJson style)]).depth) :
    conditionalOf? levels (ofJson? levels) kind (ofFields [("test", test.toJson style),
      ("if_true", ifTrue.toJson style), ("if_false", ifFalse.toJson style)]) = none := by
  have hrecord : (ofFields [("test", test.toJson style), ("if_true", ifTrue.toJson style),
      ("if_false", ifFalse.toJson style)]).record? (levels + 1) ["test", "if_true", "if_false"] =
        some [some (test.toJson style), some (ifTrue.toJson style),
          some (ifFalse.toJson style)] := rfl
  have hparts : levels < (test.toJson style).depth ∨ levels < (ifTrue.toJson style).depth ∨
      levels < (ifFalse.toJson style).depth := by
    simpa [lt_depth_ofFields_iff] using h
  rcases hparts with hlt | hlt | hlt
  · simp [conditionalOf?, hrecord, htest levels hlt]
  · simp [conditionalOf?, hrecord, htrue levels hlt]
  · simp [conditionalOf?, hrecord, hfalse levels hlt]

/-- A call is refused if its object or one of its arguments is. -/
theorem callOf?_of_deep {o : Option Expr} {family : Family} {method : String} {args : List Expr}
    (ho : ∀ e ∈ o, TooDeep style e) (hargs : ∀ e ∈ args, TooDeep style e)
    (hread : ∀ m, levels = m + 1 → readArg = ofJson? m)
    (h : levels + 1 < (callJson family method (objectJson style o) (listJson style args)).depth) :
    callOf? levels (ofJson? levels) readArg kind
      (callJson family method (objectJson style o) (listJson style args)) = none := by
  have hrecord : (callJson family method (objectJson style o) (listJson style args)).record?
      (levels + 1) ["family", "method", "object", "args"] =
        some [some (.string family.name), some (.string method), some (objectJson style o),
          some (.array (listJson style args))] := rfl
  have hparts : levels < (objectJson style o).depth ∨
      levels < (Json.array (listJson style args)).depth := by
    simpa [callJson, lt_depth_ofFields_iff, depth] using h
  rcases hparts with hlt | hlt
  · cases o with
    | none => cases hlt
    | some e =>
      have hobject : objectOf? (ofJson? levels) (some (objectJson style (some e))) = none := by
        rw [objectJson, Option.elim_some, objectOf?_toJson, ho e rfl levels hlt, Option.map_none]
      simp [callOf?, hrecord, hobject]
  · simp [callOf?, hrecord, argsOf?, items?_bind_of_deep hargs hread hlt]

/-- A constructor is refused if its type or one of its arguments is. -/
theorem constructOf?_of_deep {type : HostKind} {args : List Expr}
    (hargs : ∀ e ∈ args, TooDeep style e) (hread : ∀ m, levels = m + 1 → readArg = ofJson? m)
    (h : levels + 1 <
      (ofFields [("ty", type.toJson), ("args", .array (listJson style args))]).depth) :
    constructOf? levels readArg kind
      (ofFields [("ty", type.toJson), ("args", .array (listJson style args))]) = none := by
  have hrecord : (ofFields [("ty", type.toJson), ("args", .array (listJson style args))]).record?
      (levels + 1) ["ty", "args"] =
        some [some type.toJson, some (.array (listJson style args))] := rfl
  have hparts : levels < type.toJson.depth ∨
      levels < (Json.array (listJson style args)).depth := by
    simpa [lt_depth_ofFields_iff] using h
  rcases hparts with hlt | hlt
  · simp [constructOf?, hrecord, HostKind.ofJson?_of_deep hlt]
  · simp [constructOf?, hrecord, argsOf?, items?_bind_of_deep hargs hread hlt]

/-- A tree whose values are written exactly is refused where its document is too deep. -/
theorem tooDeep (e : Expr) (he : ∀ n ∈ e.nodes, ∀ c ∈ n.constant?, c.value.isExact) :
    TooDeep style e := by
  induction e using Expr.induction_children with
  | node e ih =>
    have hchildren : ∀ a ∈ e.children, TooDeep style a := fun a ha =>
      ih a ha (forall_nodes_of_mem_children he ha)
    -- Each case finds the part that is too deep, one level below the content.
    cases e with
    | constant k c =>
      refine tooDeep_of_toJson_eq rfl fun n _ hdepth _ => ?_
      simp [nodeOf?, Constant.ofJson?_of_deep (he _ (mem_nodes_self _) c rfl) hdepth]
    | column k name family =>
      -- The content of a column has no level below its own.
      refine tooDeep_of_toJson_eq rfl fun n _ hdepth _ => ?_
      exact absurd hdepth (by simp [memberJson, ofFields, depth, fieldsDepth])
    | member k object name family =>
      simp only [children, List.forall_mem_cons] at hchildren
      exact tooDeep_of_toJson_eq rfl fun n _ hdepth _ => memberOf?_of_deep hchildren.1 hdepth
    | unary k op operand =>
      simp only [children, List.forall_mem_cons] at hchildren
      exact tooDeep_of_toJson_eq rfl fun n _ hdepth _ => unaryOf?_of_deep hchildren.1 hdepth
    | binary k op left right =>
      simp only [children, List.forall_mem_cons] at hchildren
      obtain ⟨hleft, hright, -⟩ := hchildren
      exact tooDeep_of_toJson_eq rfl fun n _ hdepth _ => binaryOf?_of_deep hleft hright hdepth
    | call k family method receiver args =>
      simp only [children, List.forall_mem_cons] at hchildren
      obtain ⟨hreceiver, hargs⟩ := hchildren
      refine tooDeep_of_toJson_eq rfl fun n _ hdepth hread => ?_
      exact callOf?_of_deep (o := some receiver) (by simpa using hreceiver) hargs hread hdepth
    | callStatic k family method args =>
      refine tooDeep_of_toJson_eq rfl fun n _ hdepth hread => ?_
      exact callOf?_of_deep (o := none) (by simp) hchildren hread hdepth
    | conditional k test ifTrue ifFalse =>
      simp only [children, List.forall_mem_cons] at hchildren
      obtain ⟨htest, htrue, hfalse, -⟩ := hchildren
      refine tooDeep_of_toJson_eq rfl fun n _ hdepth _ => ?_
      exact conditionalOf?_of_deep htest htrue hfalse hdepth
    | construct k type args =>
      refine tooDeep_of_toJson_eq rfl fun n _ hdepth hread => ?_
      exact constructOf?_of_deep hchildren hread hdepth
    | array k items =>
      -- The content is the array itself, so its items are right below the node.
      refine tooDeep_of_toJson_eq rfl fun n _ hdepth _ => ?_
      have hread : ∀ m, n + 1 = m + 1 → ofJson? n = ofJson? m := fun m hm =>
        congrArg ofJson? (Nat.succ.inj hm)
      have hitems : ((Json.array (listJson style items)).items? (n + 1)).bind
          (·.mapM (ofJson? n)) = none := items?_bind_of_deep hchildren hread hdepth
      simp only [nodeOf?, hitems, Option.map_none]

/-! ### Texts -/

/-- The text of a tree is read back exactly if its document is not too deep. -/
theorem parse?_compact {e : Expr} (he : ∀ n ∈ e.nodes, ∀ c ∈ n.constant?, c.value.isExact) :
    parse? (e.toJson style).compact =
      if (e.toJson style).depth ≤ textLevels then some e.dropZeroSigns else none := by
  rw [parse?, Json.parse?_compact (plain_toJson e he), Option.bind_some]
  split
  · rename_i hdepth
    exact readBack e he textLevels hdepth _ (.refl _)
  · rename_i hdepth
    exact tooDeep e he textLevels (Nat.lt_of_not_le hdepth)

/-- **Texts lose nothing.** The text of a tree is read back if its document is at most as deep as
    the reader of texts goes, and else it is refused. If it is read back, it still is after fields
    with their default are dropped and unknown fields are added anywhere, whatever white space and
    escapes the text is then written with; what is added may be deeper. Values that are not written
    exactly are left aside. Of the others, only signs of decimal zeros are lost. -/
theorem parse_loosened {e : Expr} {style : FloatStyle}
    (he : ∀ n ∈ e.nodes, ∀ c ∈ n.constant?, c.value.isExact) :
    parse? (e.toJson style).compact =
        (if (e.toJson style).depth ≤ textLevels then some e.dropZeroSigns else none) ∧
      ((e.toJson style).depth ≤ textLevels → ∀ text j, Json.parse? text = some j →
        Loosened (e.toJson style) j → parse? text = some e.dropZeroSigns) ∧
      ((∀ n ∈ e.nodes, ∀ c ∈ n.constant?, c.dropZeroSign = c) → e.dropZeroSigns = e) := by
  refine ⟨parse?_compact he, fun hdepth text j htext h => ?_, dropZeroSigns_eq⟩
  rw [parse?, htext, Option.bind_some]
  exact readBack e he textLevels hdepth j h

/-- Every field that may be left out holds its default in this tree, and its shortest document has
    unknown fields in between. -/
theorem parse_loosened_defaults :
    let tree : Expr := conditional .integer (callStatic .boolean .other "Ready" [])
      (column .integer "Age" .other)
      (constant .integer ⟨.int ⟨.i32, 5, by decide⟩, ⟨.int .i32, false⟩⟩)
    let document : Json :=
      .ofFields [("version", .integer 2), ("node", .ofFields [("Conditional", .ofFields [
        ("test", .ofFields [("node", .ofFields [("MethodCall", .ofFields [("family", "Other"),
          ("method", "Ready")])]), ("kind", "Boolean")]),
        ("if_true", .ofFields [("node", .ofFields [("Member", .ofFields [("name", "Age"),
          ("table", .ofFields [("object", "People")])])]), ("kind", "Integer")]),
        ("if_false", .ofFields [("node", .ofFields [("Constant", .ofFields [
          ("value", .ofFields [("I32", .integer 5)]),
          ("host", .ofFields [("kind", "I32"), ("width", .integer 32)])])]),
          ("kind", "Integer")])])]), ("kind", "Integer")]
    Loosened (tree.toJson .number) document ∧ parse? (tree.toJson .number).compact = some tree ∧
      parse? document.compact = some tree := by
  intro tree document
  have node {tag : String} {content content' : Json} {kind : ValueKind}
      (h : Loosened content content') : Loosened (nodeJson tag content kind)
        (.ofFields [("node", .ofFields [(tag, content')]), ("kind", kind.name)]) :=
    .record (s := Shape.node) (by simp [Shape.all]) rfl (by simp) (by simp)
      (.keep _ (.tagged _ h) (.keep _ (.refl _) .nil))
  have test : Loosened (callJson .other "Ready" .null [])
      (.ofFields [("family", "Other"), ("method", "Ready")]) :=
    .record (s := Shape.call) (by simp [Shape.all]) rfl (by simp) (by simp)
      (.keep _ (.refl _) (.keep _ (.refl _)
        (.drop ("object", .null) (.drop ("args", .array []) .nil))))
  have ifTrue : Loosened (memberJson .null "Age" .other)
      (.ofFields [("name", "Age"), ("table", .ofFields [("object", "People")])]) :=
    .record (s := Shape.member) (by simp [Shape.all]) rfl (by simp [Family.name]) (by simp)
      (.drop ("object", .null) (.keep _ (.refl _)
        (.drop ("family", "Other") (.add "table" _ .nil))))
  have host : Loosened (HostType.toJson ⟨.int .i32, false⟩)
      (.ofFields [("kind", "I32"), ("width", .integer 32)]) :=
    .record (s := Shape.hostType) (by simp [Shape.all]) rfl (by simp) (by simp)
      (.keep _ (.refl _) (.drop ("nullable", .bool false) (.add "width" _ .nil)))
  have ifFalse : Loosened (Constant.toJson .number ⟨.int ⟨.i32, 5, by decide⟩, ⟨.int .i32, false⟩⟩)
      (.ofFields [("value", .ofFields [("I32", .integer 5)]),
        ("host", .ofFields [("kind", "I32"), ("width", .integer 32)])]) :=
    .record (s := Shape.constant) (by simp [Shape.all]) rfl (by simp) (by simp)
      (.keep _ (.refl _) (.keep _ host .nil))
  have h : Loosened (tree.toJson .number) document :=
    .record (s := Shape.node) (by simp [Shape.all]) rfl (by simp) (by simp)
      (.add "version" _ (.keep _ (.tagged _
        (.record (s := Shape.conditional) (by simp [Shape.all]) rfl (by simp) (by simp)
          (.keep _ (node test) (.keep _ (node ifTrue) (.keep _ (node ifFalse) .nil)))))
        (.keep _ (.refl _) .nil)))
  have hdepth : (tree.toJson .number).depth ≤ textLevels := by decide
  -- Its text is read as the document, which is looser than that of the tree.
  have hplain : Plain document := by
    simp [document, plain_ofFields, plain_integer, Plain.string]
  have hexact : ∀ n ∈ tree.nodes, ∀ c ∈ n.constant?, c.value.isExact := by decide
  obtain ⟨hown, hloose, hsame⟩ := @parse_loosened tree .number hexact
  rw [if_pos hdepth] at hown
  rw [hsame (by decide)] at hown hloose
  exact ⟨h, hown, hloose hdepth _ _ (Json.parse?_compact hplain) h⟩

/-- A column under 42 negations is written in every dialect, but its document has 129 levels and is
    not read back. -/
theorem parse_negations_refused :
    let tree : Expr := Nat.repeat (unary .boolean .not) 42 (column .boolean "a" .other)
    tree.height = 43 ∧ (∀ d : Dialect, ∃ t, (Renderer.of d).inline tree = .ok t) ∧
      parse? (tree.toJson .number).compact = none := by
  intro tree
  refine ⟨by decide, fun d => ?_, ?_⟩
  · exact Renderer.exists_inline (by cases d <;> decide) (by cases d <;> decide +kernel)
  · rw [parse?_compact (by decide), if_neg (by decide +kernel)]

end Expr

end WhereClause
