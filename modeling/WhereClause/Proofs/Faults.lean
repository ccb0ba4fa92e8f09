import WhereClause.Proofs.Coverage
import WhereClause.Proofs.Failures

namespace WhereClause

/-!
# Which node is at fault

Whether a node has a form depends on the node alone: on its operator, its names and kinds, and on
how many operands it has. The faults in the draft of a tree are faults of its nodes, and if the
draft has none then no node has one. Two kinds of nodes never ask for a form of their own: what is
sought in an empty array, and an array whose items are taken over by the call that it belongs to.

* `Expr.written` — the nodes of a tree that have to be written;
* `Expr.fault?` — the fault of a node, if it has no form;
* `Explains` — the faults of some expressions are those of some nodes;
* `Expr.layout_explained` — every role of a tree is explained by its nodes.
-/

/-! ### Nodes and their faults -/

namespace Expr

/-- A search for a member, by its family and name. -/
def isSearch (family : Family) (method : String) : Bool :=
  family = .other && method = "Contains"

/-- A concatenation, by its family and name. -/
def isConcat (family : Family) (method : String) : Bool :=
  family = .string && method = "Concat"

mutual

/-- The nodes of a tree that have to be written. An array in which something is sought, or which is
    an argument of a concatenation, stands for its items and is not written itself; what is sought
    in an empty array is not written either. -/
def written : Expr → List Expr
  | e@(constant _ _) => [e]
  | e@(column _ _ _) => [e]
  | e@(member _ object _ _) => e :: written object
  | e@(unary _ _ operand) => e :: written operand
  | e@(binary _ _ left right) => e :: (written left ++ written right)
  | e@(call _ family method receiver args) =>
    e :: if isIdleSearch family method receiver then []
      else (if isSearch family method && receiver.isArray then (written receiver).tail
        else written receiver) ++ listWritten args
  | e@(callStatic _ family method args) =>
    e :: if isConcat family method then listContents args else listWritten args
  | e@(conditional _ test ifTrue ifFalse) =>
    e :: (written test ++ (written ifTrue ++ written ifFalse))
  | e@(construct _ _ args) => e :: listWritten args
  | e@(array _ items) => e :: listWritten items

/-- The nodes of some trees that have to be written. -/
def listWritten : List Expr → List Expr
  | [] => []
  | e :: es => written e ++ listWritten es

/-- The nodes of some trees that have to be written, without those trees that are arrays. -/
def listContents : List Expr → List Expr
  | [] => []
  | e :: es => (if e.isArray then (written e).tail else written e) ++ listContents es

end

/-- The nodes of a tree that have to be written, without the tree itself if it is an array. -/
def contents (e : Expr) : List Expr := if e.isArray then e.written.tail else e.written

/-- What a node hands on to the node around it is written. -/
theorem mem_written_of_mem_contents {e n : Expr} (h : n ∈ e.contents) : n ∈ e.written := by
  unfold contents at h
  split at h
  · exact List.mem_of_mem_tail h
  · exact h

/-- Unfolding lemma: a search is idle in an empty array. -/
theorem isIdleSearch_eq (family : Family) (method : String) (receiver : Expr) :
    isIdleSearch family method receiver = (isSearch family method && receiver.isEmptyArray) := rfl

/-- The nodes of a call that have to be written, with those of the array in which it searches. -/
theorem written_call (k : ValueKind) (family : Family) (method : String) (receiver : Expr)
    (args : List Expr) :
    (call k family method receiver args).written = call k family method receiver args ::
      if isIdleSearch family method receiver then []
      else (if isSearch family method then receiver.contents else receiver.written) ++
        listWritten args := by
  rw [written]
  cases isSearch family method with
  | false => rfl
  | true => rfl

/-- What is written of a list is written of one of its trees. -/
theorem mem_listWritten {n : Expr} {es : List Expr} :
    n ∈ listWritten es ↔ ∃ e ∈ es, n ∈ e.written := by
  induction es with
  | nil => simp [listWritten]
  | cons e es ih => simp [listWritten, ih]

/-- What a list hands on is handed on by one of its trees. -/
theorem mem_listContents {n : Expr} {es : List Expr} :
    n ∈ listContents es ↔ ∃ e ∈ es, n ∈ e.contents := by
  induction es with
  | nil => simp [listContents]
  | cons e es ih =>
    show n ∈ e.contents ++ listContents es ↔ _
    rw [List.mem_append, ih, List.exists_mem_cons_iff]

/-- What has to be written of some trees are nodes of theirs if this holds for each of them. -/
private theorem listNodes_of_written {es : List Expr}
    (ih : ∀ e ∈ es, ∀ n ∈ e.written, n ∈ e.nodes) {n : Expr} (h : ∃ e ∈ es, n ∈ e.written) :
    n ∈ listNodes es := by
  obtain ⟨e, he, hn⟩ := h
  exact mem_listNodes.mpr ⟨e, he, ih e he n hn⟩

/-- What has to be written of a tree are nodes of it. -/
theorem mem_nodes_of_mem_written {e n : Expr} (h : n ∈ e.written) : n ∈ e.nodes := by
  induction e using Expr.induction generalizing n with
  | constant | column => exact h
  | member _ _ _ _ ih | unary _ _ _ ih =>
    exact List.mem_cons.mpr ((List.mem_cons.mp h).imp_right ih)
  | binary k op l r ihl ihr =>
    rw [written, List.mem_cons, List.mem_append] at h
    rw [nodes, List.mem_cons, List.mem_append]
    exact h.imp_right (Or.imp ihl ihr)
  | call k family method receiver args ihr iha =>
    rw [written_call, List.mem_cons] at h
    rw [nodes, List.mem_cons, List.mem_append]
    refine h.imp_right fun h => ?_
    split at h
    · exact absurd h List.not_mem_nil
    · rcases List.mem_append.mp h with h | h
      · left
        split at h
        · exact ihr (mem_written_of_mem_contents h)
        · exact ihr h
      · exact .inr (listNodes_of_written (fun e he n hn => iha e he hn) (mem_listWritten.mp h))
  | callStatic k family method args ih =>
    rw [written, List.mem_cons] at h
    rw [nodes, List.mem_cons]
    refine h.imp_right fun h => listNodes_of_written (fun e he n hn => ih e he hn) ?_
    split at h
    · obtain ⟨e, he, hn⟩ := mem_listContents.mp h
      exact ⟨e, he, mem_written_of_mem_contents hn⟩
    · exact mem_listWritten.mp h
  | conditional k t l r iht ihl ihr =>
    rw [written, List.mem_cons, List.mem_append, List.mem_append] at h
    rw [nodes, List.mem_cons, List.mem_append, List.mem_append, or_assoc]
    exact h.imp_right (Or.imp iht (Or.imp ihl ihr))
  | construct _ _ _ ih | array _ _ ih =>
    refine List.mem_cons.mpr ((List.mem_cons.mp h).imp_right fun h => ?_)
    exact listNodes_of_written (fun e he n hn => ih e he hn) (mem_listWritten.mp h)

end Expr

namespace Method

/-- The rules have a form for a method whose shape fits. Membership asks for an array. -/
def hasForm (d : Rules) (m : Method) (args : Nat) (onArray : Bool) : Bool :=
  match m with
  | compare | compareTo | daysBetween | string .concat => true
  | membership => onArray
  | m => (d.method m args).isSome

end Method

namespace Expr

/-- The fault of a call, if it has no form. -/
def callFault? (d : Rules) (e : Expr) (family : Family) (name : String)
    (hasReceiver onArray : Bool) (args : Nat) : Option Error :=
  match family.method? name with
  | none => some (.unsupported d.name e.text)
  | some m =>
    if m.signature.hasReceiver ≠ hasReceiver then
      some (.malformed (.receiver name family m.signature.hasReceiver))
    else if m.signature.admits args then
      if m.hasForm d args onArray then none else some (.unsupported d.name e.text)
    else some (.malformed (.arguments name m.signature args))

/-- The fault of a node that is to be written, if it has no form. -/
def fault? (d : Rules) : Expr → Option Error
  | constant _ _ => none
  | column _ _ _ => none
  | e@(member _ _ name family) =>
    if ((family.property? name).bind d.property).isSome then none
    else some (.unsupported d.name e.text)
  | e@(unary _ op operand) =>
    if op = .convert ∨ (d.unary op operand.kind).isSome then none
    else some (.unsupported d.name e.text)
  | binary _ _ _ _ => none
  | e@(call _ family method receiver args) =>
    callFault? d e family method true receiver.isArray args.length
  | e@(callStatic _ family method args) => callFault? d e family method false false args.length
  | conditional _ _ _ _ => none
  | e@(construct _ type args) =>
    if (d.construct type args.length).isSome then none else some (.unsupported d.name e.text)
  | e@(array _ _) => some (.unsupported d.name e.text)

end Expr

/-- Rules that have a form for every binary operator, whatever the kinds of its operands, and for
    the conversion to text. -/
structure Rules.Complete (d : Rules) : Prop where
  binary : ∀ op l r, op = .coalesce ∨ (d.binary op l r).isSome ∨
    (d.operator op (l = .boolean)).isSome
  toText : ∀ args, (d.method .toText args).isSome

/-! ### Expressions explained by nodes -/

/-- The faults of some expressions are faults of given nodes, all of these have forms if there are
    no faults, and no expression goes deeper than a given number of levels. -/
structure Explains (d : Rules) (ns : List Expr) (h : Nat) (ss : List Sql) : Prop where
  cause : ∀ s ∈ ss, ∀ err ∈ s.draft.faults, ∃ n ∈ ns, n.fault? d = some err
  clear : (∀ s ∈ ss, s.draft.faults = []) → ∀ n ∈ ns, n.fault? d = none
  levels : ∀ s ∈ ss, s.draft.levels ≤ h

namespace Explains

variable {d : Rules} {ns ns' : List Expr} {h h' : Nat} {ss ss' : List Sql} {s : Sql} {n : Expr}

/-- Nothing needs no explanation. -/
theorem nil : Explains d [] 0 [] := ⟨by simp, by simp, by simp⟩

/-- Nodes that have forms may be added, and levels as well. -/
theorem weaken (hs : Explains d ns h ss) (hsub : ∀ n ∈ ns, n ∈ ns')
    (hnew : ∀ n ∈ ns', n ∈ ns ∨ n.fault? d = none) (hle : h ≤ h') : Explains d ns' h' ss where
  cause := by
    intro s hmem err herr
    obtain ⟨n, hn, hfault⟩ := hs.cause s hmem err herr
    exact ⟨n, hsub n hn, hfault⟩
  clear := by
    intro hnone n hn
    rcases hnew n hn with hold | hfree
    · exact hs.clear hnone n hold
    · exact hfree
  levels s hmem := Nat.le_trans (hs.levels s hmem) hle

/-- A node without a fault of its own explains nothing more. -/
theorem cons (hs : Explains d ns h ss) (hn : n.fault? d = none) : Explains d (n :: ns) h ss := by
  refine hs.weaken (fun n hmem => List.mem_cons_of_mem _ hmem) (fun n' hmem => ?_) (Nat.le_refl h)
  rcases List.mem_cons.mp hmem with rfl | hmem
  · exact .inr hn
  · exact .inl hmem

/-- A fault is explained by the node that has it, whatever stands below that node. -/
theorem fault {err : Error} (hn : n.fault? d = some err) (ns : List Expr) (h : Nat) :
    Explains d (n :: ns) h [.fault err] where
  cause := by
    intro s hs err' herr
    obtain rfl := List.mem_singleton.mp hs
    obtain rfl := List.mem_singleton.mp herr
    exact ⟨n, by simp, hn⟩
  clear hnone := absurd (hnone _ (List.mem_singleton.mpr rfl)) (by simp [Sql.draft, Draft.faults])
  levels := by simp [Sql.draft, Draft.levels]

/-- Expressions side by side are explained by the nodes of both sides, and are as high as the higher
    of them. -/
theorem append (hs : Explains d ns h ss) (hs' : Explains d ns' h' ss') :
    Explains d (ns ++ ns') (Nat.max h h') (ss ++ ss') where
  cause := by
    intro s hmem err herr
    rcases List.mem_append.mp hmem with hmem | hmem
    · obtain ⟨n, hn, hfault⟩ := hs.cause s hmem err herr
      exact ⟨n, List.mem_append_left _ hn, hfault⟩
    · obtain ⟨n, hn, hfault⟩ := hs'.cause s hmem err herr
      exact ⟨n, List.mem_append_right _ hn, hfault⟩
  clear := by
    intro hnone n hn
    rcases List.mem_append.mp hn with hn | hn
    · exact hs.clear (fun s hmem => hnone s (List.mem_append_left _ hmem)) n hn
    · exact hs'.clear (fun s hmem => hnone s (List.mem_append_right _ hmem)) n hn
  levels := by
    intro s hmem
    rcases List.mem_append.mp hmem with hmem | hmem
    · exact Nat.le_trans (hs.levels s hmem) (Nat.le_max_left _ _)
    · exact Nat.le_trans (hs'.levels s hmem) (Nat.le_max_right _ _)

/-- What is put together from expressions is explained by the nodes that explain these. -/
theorem gather (hs : Explains d ns h ss) (hc : Sql.Compound ss s) : Explains d ns h [s] := by
  have hfaults : ∀ err, err ∈ s.draft.faults ↔ ∃ s' ∈ ss, err ∈ s'.draft.faults := by
    intro err
    rw [hc.mem_faults_iff]
    simp only [List.mem_map, exists_exists_and_eq_and]
  refine ⟨?_, ?_, ?_⟩
  · intro s' hs' err herr
    obtain rfl := List.mem_singleton.mp hs'
    obtain ⟨s', hmem, herr⟩ := (hfaults err).mp herr
    exact hs.cause s' hmem err herr
  · intro hnone
    refine hs.clear fun s' hmem => List.eq_nil_iff_forall_not_mem.mpr fun err herr => ?_
    have hs' : err ∈ s.draft.faults := (hfaults err).mpr ⟨s', hmem, herr⟩
    rw [hnone s (List.mem_singleton.mpr rfl)] at hs'
    exact absurd hs' List.not_mem_nil
  · intro s' hs'
    obtain rfl := List.mem_singleton.mp hs'
    refine hc.levels_le fun t ht => ?_
    obtain ⟨s', hmem, rfl⟩ := List.mem_map.mp ht
    exact hs.levels s' hmem

/-- A level is explained by what explains its inside, and is one level higher. -/
theorem level (hs : Explains d ns h [s]) : Explains d ns (h + 1) [.level s] where
  cause s' hs' err herr := by
    obtain rfl := List.mem_singleton.mp hs'
    exact hs.cause s (by simp) err herr
  clear hnone := hs.clear fun s' hs' => by
    obtain rfl := List.mem_singleton.mp hs'
    exact hnone (.level s') (by simp)
  levels s' hs' := by
    obtain rfl := List.mem_singleton.mp hs'
    exact Nat.succ_le_succ (hs.levels s (by simp))

end Explains

/-! ### Bodies of nodes -/

namespace Layout

/-- A node is explained in every role: by some nodes as it is, and by others where it stands for
    its items. -/
structure Explained (d : Rules) (own content : List Expr) (h : Nat) (l : Layout) : Prop where
  natural : Explains d own h [l.natural]
  predicate : Explains d own h [l.predicate]
  value : Explains d own h [l.value]
  summands : Explains d own h l.summands
  alternatives : Explains d own h l.alternatives
  cases : Explains d own h (Sql.branchParts l.branches ++ [l.otherwise])
  spread : Explains d content h l.spread
  items : ∀ ss, l.items = some ss → Explains d content h ss

/-- Nodes are explained one after another. -/
inductive ExplainedInTurn (d : Rules) : List Expr → List Expr → Nat → List Layout → Prop
  | nil : ExplainedInTurn d [] [] 0 []
  | cons {own own' content content' h h' l ls} : l.Explained d own content h →
      ExplainedInTurn d own' content' h' ls →
      ExplainedInTurn d (own ++ own') (content ++ content') (Nat.max h h') (l :: ls)

variable {d : Rules} {own own' own'' content content' content'' : List Expr} {h h' h'' : Nat}
  {t l r : Layout} {ls : List Layout} {e : Expr}

/-- A node is explained as a condition and as a value. -/
theorem Explained.role (hl : l.Explained d own content h) (asPredicate : Bool) :
    Explains d own h [l.role asPredicate] := by
  unfold Layout.role
  split
  · exact hl.predicate
  · exact hl.value

/-- In a role that every node explains by itself, all of them do so together. -/
theorem ExplainedInTurn.flatMap (hs : ExplainedInTurn d own content h ls) {f : Layout → List Sql}
    (hf : ∀ {own content h l}, Explained d own content h l → Explains d own h (f l)) :
    Explains d own h (ls.flatMap f) := by
  induction hs with
  | nil => exact .nil
  | cons hl _ ih => exact (hf hl).append ih

/-- As values, nodes are explained together. -/
theorem ExplainedInTurn.values (hs : ExplainedInTurn d own content h ls) :
    Explains d own h (ls.map Layout.value) := by
  rw [List.map_eq_flatMap]
  exact hs.flatMap Explained.value

/-- As parts of a concatenation, nodes are explained by what they hand on. -/
theorem ExplainedInTurn.spread (hs : ExplainedInTurn d own content h ls) :
    Explains d content h (ls.flatMap Layout.spread) := by
  induction hs with
  | nil => exact .nil
  | cons hl _ ih => exact hl.spread.append ih

/-- A missing form is a fault of the node that asks for it. -/
theorem formOr_explained (hd : d.Sound) {template : Option Template} {ss : List Sql}
    (hu : ∀ t, template = some t → d.Uses t ss.length)
    (he : e.fault? d = if template.isSome then none else some (.unsupported d.name e.text))
    (hs : Explains d own h ss) : Explains d (e :: own) h [formOr d e template ss] := by
  cases template with
  | none => exact .fault he own h
  | some t => exact (hs.gather (Sql.compound_form hd (hu t rfl))).cons he

/-- A property that the dialect lacks is a fault of its node. -/
theorem memberBody_explained (hd : d.Sound) (family : Family) (name : String)
    (he : e.fault? d = if ((family.property? name).bind d.property).isSome then none
      else some (.unsupported d.name e.text))
    (hl : l.Explained d own content h) :
    Explains d (e :: own) h [memberBody d e family name l] := by
  unfold memberBody
  cases hp : family.property? name with
  | none =>
    rw [hp] at he
    exact .fault he own h
  | some p =>
    rw [hp] at he
    exact formOr_explained hd (fun t ht => .property ht) he hl.value

/-- A unary operator that the dialect lacks is a fault of its node. -/
theorem unaryBody_explained (op : UnaryOp) (operand : Expr)
    (he : e.fault? d = if op = .convert ∨ (d.unary op operand.kind).isSome then none
      else some (.unsupported d.name e.text))
    (hl : l.Explained d own content h) :
    Explains d (e :: own) h [unaryBody d e op operand l] := by
  unfold unaryBody
  by_cases hop : op = .convert
  · rw [if_pos (.inl hop)] at he
    rw [if_pos hop]
    exact hl.natural.cons he
  · rw [if_neg hop]
    cases htoken : d.unary op operand.kind with
    | none =>
      rw [if_neg (by simp [hop, htoken])] at he
      exact .fault he own h
    | some token =>
      rw [if_pos (by simp [htoken])] at he
      exact ((hl.role _).gather (Sql.compound_prefixed token _)).cons he

/-- Every dialect has a form or a token for every other operator, so there is no fault of the node
    itself. -/
theorem operatorBody_explained (hd : d.Sound) (hc : d.Complete) (e : Expr) {op : BinaryOp}
    (hop : op ≠ .coalesce) (left right : Expr) (hl : l.Explained d own content h)
    (hr : r.Explained d own' content' h') :
    Explains d (own ++ own') (Nat.max h h') [operatorBody d e op left right l r] := by
  have hroles := fun logical => (hl.role logical).append (hr.role logical)
  simp only [operatorBody]
  split
  · next t ht => exact (hroles _).gather (Sql.compound_form hd (.binary ht))
  · next hbinary =>
    split
    · next token htoken => exact (hroles _).gather (Sql.compound_infixed token _ _)
    · next hoperator =>
      -- Complete rules have a form for the operator.
      rcases hc.binary op left.kind right.kind with h | h | h
      · exact absurd h hop
      · exact absurd h (by simp [hbinary])
      · exact absurd (hoperator ▸ h) (by simp)

/-- A choice of the first value that is not null has no fault of its own. -/
theorem coalesceBody_explained (hd : d.Sound) (hl : l.Explained d own content h)
    (hr : r.Explained d own' content' h') :
    Explains d (own ++ own') (Nat.max h h') [coalesceBody d l r] := by
  unfold coalesceBody
  split
  · next t ht => exact (hl.value.append hr.value).gather (Sql.compound_form hd (.coalesce ht))
  · exact (hl.value.append hr.alternatives).gather (Sql.compound_coalesce _)

/-- A comparison with null is explained without the null, which has a form. -/
theorem comparedWithNull_explained {op : BinaryOp} {left right : Expr} {other : Layout}
    (hother : comparedWithNull op left right l r = some other)
    (hl : l.Explained d own content h) (hr : r.Explained d own' content' h')
    (hnl : left.isNullConstant → ∀ n ∈ own, n.fault? d = none)
    (hnr : right.isNullConstant → ∀ n ∈ own', n.fault? d = none) :
    Explains d (own ++ own') (Nat.max h h') [other.value] := by
  unfold comparedWithNull at hother
  split at hother
  · split at hother
    · next hnull =>
      obtain rfl := Option.some.inj hother
      refine hl.value.weaken (fun n => List.mem_append_left _) (fun n hn => ?_)
        (Nat.le_max_left _ _)
      -- The operand left out is a null constant, which has no fault that could go unreported.
      exact (List.mem_append.mp hn).imp_right (hnr hnull n)
    · split at hother
      · next hnull =>
        obtain rfl := Option.some.inj hother
        refine hr.value.weaken (fun n => List.mem_append_right _) (fun n hn => ?_)
          (Nat.le_max_right _ _)
        exact (List.mem_append.mp hn).symm.imp_right (hnl hnull n)
      · exact absurd hother (by simp)
  · exact absurd hother (by simp)

/-- A binary node has no fault of its own, in any of its readings. -/
theorem binaryBody_explained (hd : d.Sound) (hc : d.Complete) (e : Expr) (op : BinaryOp)
    (left right : Expr) (hl : l.Explained d own content h) (hr : r.Explained d own' content' h')
    (hnl : left.isNullConstant → ∀ n ∈ own, n.fault? d = none)
    (hnr : right.isNullConstant → ∀ n ∈ own', n.fault? d = none) :
    Explains d (own ++ own') (Nat.max h h') [binaryBody d e op left right l r] := by
  unfold binaryBody
  split
  · next other hother =>
    exact (comparedWithNull_explained hother hl hr hnl hnr).gather
      (Sql.compound_form hd (.nullTest op))
  · split
    · exact (hl.summands.append hr.summands).gather (Sql.compound_concat _ _)
    · split
      · exact (hl.value.append hr.value).gather (Sql.compound_form hd .dateDiff)
      · split
        · exact coalesceBody_explained hd hl hr
        · next hop => exact operatorBody_explained hd hc e hop left right hl hr

/-- A method whose shape fits is explained by its operands, if the rules have a form for it. -/
theorem methodBody_explained (hd : d.Sound) (hc : d.Complete) (e : Expr) {m : Method}
    (firstIsString : Bool) {onArray : Bool} {args : Nat} (hargs : m.signature.admits args)
    (hlen : ls.length = args + m.signature.hasReceiver.toNat) (hform : m.hasForm d args onArray)
    (hvalues : m ≠ .string .concat → m ≠ .membership → Explains d own h (ls.map Layout.value))
    (hspread : m = .string .concat → Explains d own h (ls.flatMap Layout.spread))
    (hsearch : m = .membership → onArray → ∀ array needle, ls = [array, needle] →
      Explains d own h [membershipBody d e array needle]) :
    Explains d own h [methodBody d e m firstIsString args ls] := by
  have hlength : (ls.map Layout.value).length = args + m.signature.hasReceiver.toNat := by
    rw [List.length_map, hlen]
  have htwo : m = .compare ∨ m = .compareTo ∨ m = .daysBetween ∨ m = .membership →
      (ls.map Layout.value).length = 2 := length_eq_two hargs hlength
  -- A method without a form of its own has a template for exactly its operands.
  have htemplate : m ≠ .string .concat → m ≠ .membership → (d.method m args).isSome →
      Explains d own h [formOr d e (d.method m args) (ls.map Layout.value)] := by
    intro hconcat hmembership hsome
    obtain ⟨t, ht⟩ := Option.isSome_iff_exists.mp hsome
    rw [ht]
    refine (hvalues hconcat hmembership).gather (Sql.compound_form hd ?_)
    rw [hlength]
    exact .method hconcat hargs ht
  cases m with
  | compare =>
    exact (hvalues (by simp) (by simp)).gather (Sql.compound_form hd (htwo (by simp) ▸ .compare))
  | compareTo =>
    exact (hvalues (by simp) (by simp)).gather (Sql.compound_form hd (htwo (by simp) ▸ .compare))
  | daysBetween =>
    exact (hvalues (by simp) (by simp)).gather (Sql.compound_form hd (htwo (by simp) ▸ .dateDiff))
  | membership =>
    rw [List.length_map] at htwo
    obtain ⟨array, needle, rfl⟩ := List.length_eq_two.mp (htwo (by simp))
    exact hsearch rfl hform array needle rfl
  | string m =>
    by_cases hconcat : m = .concat
    · subst hconcat
      exact (hspread rfl).gather (Sql.compound_concat _ _)
    · cases m <;> first | exact absurd rfl hconcat | exact htemplate (by simp) (by simp) hform
  | toText =>
    obtain ⟨receiver, rfl⟩ := List.length_eq_one_iff.mp (length_eq_one hargs hlen)
    simp only [methodBody]
    split
    · exact hvalues (by simp) (by simp)
    · exact htemplate (by simp) (by simp) (hc.toText args)
  | shift | decimal | math | rounding => exact htemplate (by simp) (by simp) hform

/-- A method that the rules have no form for is a fault. -/
theorem methodBody_eq_fault (hc : d.Complete) (e : Expr) {m : Method} (firstIsString : Bool)
    {onArray : Bool} {args : Nat} (hargs : m.signature.admits args)
    (hlen : ls.length = args + m.signature.hasReceiver.toNat)
    (hform : m.hasForm d args onArray = false)
    (hitems : m = .membership → onArray = false → ∀ l ∈ ls.head?, l.items = none) :
    methodBody d e m firstIsString args ls = .fault (.unsupported d.name e.text) := by
  -- Most methods are templates and have no form exactly where the dialect has none.
  have htemplate : (d.method m args).isSome = false →
      formOr d e (d.method m args) (ls.map Layout.value) =
        .fault (.unsupported d.name e.text) := by
    intro hnone
    have hmethod : d.method m args = none := by simpa using hnone
    rw [hmethod]
    rfl
  cases m with
  | compare | compareTo | daysBetween => exact absurd hform (by simp [Method.hasForm])
  | membership =>
    obtain ⟨array, needle, rfl⟩ := List.length_eq_two.mp (length_eq_two hargs hlen (by simp))
    show membershipBody d e array needle = _
    rw [membershipBody, hitems rfl hform array (by simp)]
  | toText => exact absurd (hc.toText args) (by simpa [Method.hasForm] using hform)
  | string m =>
    by_cases hconcat : m = .concat
    · subst hconcat
      exact absurd hform (by simp [Method.hasForm])
    · cases m <;> first | exact absurd rfl hconcat | exact htemplate hform
  | shift | decimal | math | rounding => exact htemplate hform

/-- A call is explained by its operands and by itself, for its shape or its form may not fit. -/
theorem callBody_explained (hd : d.Sound) (hc : d.Complete) (family : Family) (name : String)
    (hasReceiver firstIsString onArray : Bool) (args : Nat)
    (he : e.fault? d = Expr.callFault? d e family name hasReceiver onArray args)
    (hlen : ls.length = args + hasReceiver.toNat)
    (hitems : hasReceiver → onArray = false → ∀ l ∈ ls.head?, l.items = none)
    (hvalues : ∀ m, family.method? name = some m → m ≠ .string .concat → m ≠ .membership →
      Explains d own h (ls.map Layout.value))
    (hspread : hasReceiver = false → family.method? name = some (.string .concat) →
      Explains d own h (ls.flatMap Layout.spread))
    (hsearch : family.method? name = some .membership → onArray → ∀ array needle,
      ls = [array, needle] → Explains d own h [membershipBody d e array needle]) :
    Explains d (e :: own) h [callBody d e family name hasReceiver firstIsString args ls] := by
  unfold Expr.callFault? at he
  unfold callBody
  cases hm : family.method? name with
  | none =>
    rw [hm] at he
    exact .fault he own h
  | some m =>
    simp only [hm] at he ⊢
    split
    · next hshape =>
      rw [if_pos hshape] at he
      exact .fault he own h
    · next hshape =>
      rw [if_neg hshape] at he
      have hsame : m.signature.hasReceiver = hasReceiver := not_ne_iff.mp hshape
      split
      · next hargs =>
        rw [if_pos hargs] at he
        -- The shape of the call is right. From here on only the dialect can refuse it.
        cases hform : m.hasForm d args onArray with
        | false =>
          rw [hform] at he
          rw [methodBody_eq_fault hc e firstIsString hargs (hsame ▸ hlen) hform
            (fun hmembership => hitems (by rw [← hsame, hmembership]; rfl))]
          exact .fault he own h
        | true =>
          rw [hform] at he
          refine Explains.cons ?_ he
          refine methodBody_explained hd hc e firstIsString hargs (hsame ▸ hlen) hform
            (hvalues m hm) (fun hconcat => ?_) (fun hmembership => hsearch (hmembership ▸ hm))
          subst hconcat
          exact hspread hsame.symm hm
      · next hargs =>
        rw [if_neg hargs] at he
        exact .fault he own h

/-- A conditional has no fault of its own. -/
theorem conditionalBody_explained (hd : d.Sound) (test : Expr) (ht : t.Explained d own content h)
    (hl : l.Explained d own' content' h') (hr : r.Explained d own'' content'' h'') :
    Explains d (own ++ (own' ++ own'')) (Nat.max h (Nat.max h' h''))
      [conditionalBody d test t l r] := by
  unfold conditionalBody
  split
  · next tpl htpl =>
    exact (ht.predicate.append (hl.value.append hr.value)).gather
      (Sql.compound_form hd (.conditional htpl))
  · split
    · refine Explains.gather ?_ (Sql.compound_caseWhen ((t.predicate, l.value) :: r.branches) _)
      exact ht.predicate.append (hl.value.append hr.cases)
    · exact (ht.value.append (hl.value.append hr.value)).gather (Sql.compound_form hd .numericCase)

/-- A node is one level above its body, and coercions add none. -/
theorem ofNode_explained (hd : d.Sound) (isPredicate : Bool) {body : Sql}
    (hb : Explains d own h [body]) :
    (ofNode d isPredicate body).Explained d own own (h + 1) := by
  have hnatural : Explains d own (h + 1) [.level body] := hb.level
  cases isPredicate with
  | false =>
    exact
      { natural := hnatural
        predicate := hnatural.gather (Sql.compound_form hd .predicateCoercion)
        value := hnatural
        summands := hnatural
        alternatives := hnatural
        cases := hnatural
        spread := hnatural
        items := fun _ hss => by cases hss }
  | true =>
    -- A coercion stands around the level and opens none of its own.
    have hvalue : Explains d own (h + 1) [.form d.valueCoercion [.level body]] :=
      hnatural.gather (Sql.compound_form hd .valueCoercion)
    exact
      { natural := hnatural
        predicate := hnatural
        value := hvalue
        summands := hvalue
        alternatives := hvalue
        cases := hvalue
        spread := hvalue
        items := fun _ hss => by cases hss }

end Layout

/-! ### Trees -/

namespace Family

/-- Only one name means concatenation, and only in one family. -/
theorem isConcat_of_method? {family : Family} {name : String}
    (h : family.method? name = some (.string .concat)) : Expr.isConcat family name := by
  obtain ⟨rfl, hfamily⟩ := name_of_method? h
  obtain rfl : family = .string := of_decide_eq_true hfamily
  rfl

end Family

namespace Expr

open Layout

variable {d : Rules}

/-- A null constant has a form. -/
theorem fault?_of_isNullConstant {e : Expr} (h : e.isNullConstant) :
    ∀ n ∈ e.written, n.fault? d = none := by
  cases e with
  | constant k c =>
    intro n hn
    obtain rfl := List.mem_singleton.mp hn
    rfl
  | _ => simp [isNullConstant] at h

/-- A tree that is no array has no items. -/
theorem items_eq_none {e : Expr} (h : e.isArray = false) (p : Position) :
    (e.layout d p).items = none := by
  cases e with
  | array k items => exact absurd h (by simp [isArray])
  | binary k op left right =>
    simp only [layout]
    split
    · rfl
    · split <;> rfl
  | conditional k test l r =>
    simp only [layout]
    split <;> rfl
  | _ => rfl

/-- What is sought in an array is explained by the items and by what is sought; and in an empty
    array by nothing. -/
theorem membershipBody_explained (e : Expr) {k : ValueKind} {items : List Expr} {p : Position}
    {own content own' content' : List Expr} {h h' : Nat} {needle : Layout}
    (ha : ((array k items).layout d p).Explained d own content h)
    (hn : needle.Explained d own' content' h') :
    Explains d (if items.isEmpty then [] else content ++ own') (Nat.max h h')
      [membershipBody d e ((array k items).layout d p) needle] := by
  have hitems := ha.items _ rfl
  cases items with
  | nil =>
    exact (Explains.nil.gather (Sql.compound_inList_nil _)).weaken (by simp) (by simp) (by simp)
  | cons a items =>
    refine (hitems.append hn.value).gather (Sql.compound_inList _ ?_)
    simp [layoutList]

/-- The subtrees of a node are explained one after another. -/
theorem layoutList_explained {es : List Expr}
    (ih : ∀ e ∈ es, ∀ p, (e.layout d p).Explained d e.written e.contents e.height) (p : Position)
    (i : Nat) :
    ExplainedInTurn d (listWritten es) (listContents es) (listHeight es) (layoutList d p i es) := by
  induction es generalizing i with
  | nil => exact .nil
  | cons e es ihs =>
    exact .cons (ih e (by simp) _) (ihs (fun e he => ih e (List.mem_cons_of_mem _ he)) (i + 1))

/-- A call of a receiver is explained by its operands; if it searches an array, by the items of the
    array and what is sought. -/
theorem call_explained (hd : d.Sound) (hc : d.Complete) (k : ValueKind) (family : Family)
    (method : String) (receiver : Expr) (args : List Expr) (p : Position)
    (hr : (receiver.layout d (p.child 0)).Explained d receiver.written receiver.contents
      receiver.height)
    (ha : ∀ a ∈ args, ∀ p, (a.layout d p).Explained d a.written a.contents a.height) :
    Explains d (call k family method receiver args).written
      (Nat.max receiver.height (listHeight args))
      [callBody d (call k family method receiver args) family method true receiver.isString
        args.length (receiver.layout d (p.child 0) :: layoutList d p 1 args)] := by
  have hturn := ExplainedInTurn.cons hr (layoutList_explained ha p 1)
  rw [written_call]
  refine callBody_explained hd hc family method true _ receiver.isArray args.length rfl (by simp)
    ?_ ?_ (fun h => absurd h (by simp)) ?_
  · intro _ harray l hl
    obtain rfl : receiver.layout d (p.child 0) = l := by simpa using hl
    exact items_eq_none harray _
  · intro m hm _ hmembership
    have hsearch : isSearch family method = false := by
      by_contra hsearch
      obtain ⟨rfl, rfl⟩ : family = .other ∧ method = "Contains" := by simpa [isSearch] using hsearch
      exact hmembership (Option.some.inj hm).symm
    rw [isIdleSearch_eq, hsearch]
    exact hturn.values
  · intro hm harray array needle hls
    obtain ⟨rfl, rfl⟩ := Family.eq_contains_of_membership hm
    obtain ⟨rfl, hrest⟩ := List.cons.inj hls
    -- The call has but one argument, for its operands are an array and what is sought.
    obtain ⟨a, rfl⟩ : ∃ a, args = [a] := by
      have hlen := congrArg List.length hrest
      rw [length_layoutList] at hlen
      exact List.length_eq_one_iff.mp hlen
    obtain rfl := (List.cons.inj hrest).1
    cases receiver with
    | array k' items =>
      have hbody := membershipBody_explained (call k .other "Contains" (.array k' items) [a]) hr
        (ha a (by simp) (p.child 1))
      have hone : listWritten [a] = a.written := List.append_nil _
      have hheight : Nat.max (array k' items).height a.height ≤
          Nat.max (array k' items).height (listHeight [a]) := by simp [listHeight]
      rw [hone]
      cases items with
      | nil => exact hbody.weaken (fun _ => id) (fun _ => .inl) hheight
      | cons item items => exact hbody.weaken (fun _ => id) (fun _ => .inl) hheight
    | _ => exact absurd harray (by simp [isArray])

/-- A call without a receiver is explained by its arguments, which a concatenation takes with the
    items of arrays among them. -/
theorem callStatic_explained (hd : d.Sound) (hc : d.Complete) (k : ValueKind) (family : Family)
    (method : String) (args : List Expr) (p : Position)
    (ha : ∀ a ∈ args, ∀ p, (a.layout d p).Explained d a.written a.contents a.height) :
    Explains d (callStatic k family method args).written (listHeight args)
      [callBody d (callStatic k family method args) family method false false args.length
        (layoutList d p 0 args)] := by
  have hturn := layoutList_explained ha p 0
  rw [written]
  refine callBody_explained hd hc family method false _ false args.length rfl (by simp)
    (fun h => absurd h (by simp)) ?_ ?_ (fun _ h => absurd h (by simp))
  · intro m hm hconcat _
    -- Only `Concat` takes its arguments apart; for any other name the contents are the arguments.
    have hname : isConcat family method = false := by
      by_contra hname
      obtain ⟨rfl, rfl⟩ : family = .string ∧ method = "Concat" := by simpa [isConcat] using hname
      exact hconcat (Option.some.inj hm).symm
    rw [hname]
    exact hturn.values
  · intro _ hm
    rw [Family.isConcat_of_method? hm]
    exact hturn.spread

/-- **Which node is at fault.** In every role, the faults of a tree are faults of its nodes, all
    nodes that are to be written have forms if there are none, and the levels are at most as many as
    the tree is high. -/
theorem layout_explained (hd : d.Sound) (hc : d.Complete) (e : Expr) (p : Position) :
    (e.layout d p).Explained d e.written e.contents e.height := by
  induction e using Expr.induction generalizing p with
  | constant k c =>
    refine ofNode_explained hd false ⟨?_, ?_, ?_⟩
    · simp [Sql.draft, Draft.faults]
    · simp [written, fault?]
    · simp [Sql.draft, Draft.levels]
  | column k name family =>
    refine ofNode_explained hd false ⟨?_, ?_, ?_⟩
    · simp [Sql.draft, Draft.faults]
    · simp [written, fault?]
    · simp [Sql.draft, Draft.levels]
  | member k object name family ih =>
    exact ofNode_explained hd _ (memberBody_explained hd family name rfl (ih _))
  | unary k op operand ih =>
    exact ofNode_explained hd _ (unaryBody_explained op operand rfl (ih _))
  | binary k op left right ihl ihr =>
    have hl := ihl (p.child 0)
    have hr := ihr (p.child 1)
    have hbody := binaryBody_explained hd hc (.binary k op left right) op left right hl hr
      fault?_of_isNullConstant fault?_of_isNullConstant
    have hown := ofNode_explained hd (Expr.binary k op left right).isPredicate
      (hbody.cons (n := .binary k op left right) rfl)
    -- A chain adds no node but its own, and no level.
    have hchain : ∀ {ss}, Explains d (left.written ++ right.written)
        (Nat.max left.height right.height) ss →
        Explains d (Expr.binary k op left right).written (Expr.binary k op left right).height ss :=
      fun hs => (hs.cons (n := .binary k op left right) rfl).weaken (fun _ => id) (fun _ => .inl)
        (Nat.le_succ _)
    simp only [layout]
    split
    · exact { hown with
        summands := hchain (hl.summands.append hr.summands)
        spread := hchain (hl.summands.append hr.summands) }
    · split
      · exact { hown with alternatives := hchain (hl.value.append hr.alternatives) }
      · exact hown
  | call k family method receiver args ihr iha =>
    exact ofNode_explained hd _ (call_explained hd hc k family method receiver args p (ihr _) iha)
  | callStatic k family method args ih =>
    exact ofNode_explained hd _ (callStatic_explained hd hc k family method args p ih)
  | conditional k test ifTrue ifFalse iht ihl ihr =>
    have ht := iht (p.child 0)
    have hl := ihl (p.child 1)
    have hr := ihr (p.child 2)
    have hown := ofNode_explained hd false
      ((conditionalBody_explained hd test ht hl hr).cons
        (n := .conditional k test ifTrue ifFalse) rfl)
    have hcases := (ht.predicate.append (hl.value.append hr.cases)).cons
      (n := .conditional k test ifTrue ifFalse) rfl
    simp only [layout]
    split
    · exact { hown with cases := hcases.weaken (fun _ => id) (fun _ => .inl) (Nat.le_succ _) }
    · exact hown
  | construct k type args ih =>
    refine ofNode_explained hd _ (formOr_explained hd (fun t ht => ?_) rfl
      (layoutList_explained ih p 0).values)
    rw [List.length_map, length_layoutList]
    exact .construct ht
  | array k items ih =>
    have hitems := layoutList_explained ih p 0
    have hown := ofNode_explained (h := listHeight items) hd false
      (.fault (n := .array k items) rfl (listWritten items) _)
    exact { hown with
      items := fun ss hss => by
        obtain rfl := Option.some.inj hss
        exact hitems.values.weaken (fun _ => id) (fun _ => .inl) (Nat.le_succ _)
      spread := (hitems.flatMap Explained.summands).weaken (fun _ => id) (fun _ => .inl)
        (Nat.le_succ _) }

end Expr

end WhereClause
