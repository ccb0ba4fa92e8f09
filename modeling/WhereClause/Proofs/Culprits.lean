import WhereClause.Expr.Build
import WhereClause.Proofs.Limits

namespace WhereClause

/-!
# Which node an error names

An error about a construct gives the text of the node that the dialect has no form for, and not of a
node above it: that node is refused with the same error when it is written alone. An error about a
type names the type of a constant that is to be bound. A tree is never refused for a configuration
or a file.

* `Expr.Misplaced` — arrays where no array belongs;
* `Expr.Refused` — the nodes that have no form by themselves;
* `Expr.misplaced_of_mem_written` — an array that has to be written is misplaced;
* `Renderer.query_culprit` — the node behind an error.
-/

/-! ### Nodes without a form -/

namespace Expr

/-- The direct subtrees that a node has to write as they are. A search looks into the array that it
    is called on, and a concatenation takes the items of arrays. -/
def wholeChildren : Expr → List Expr
  | call _ family method receiver args =>
    if isSearch family method then args else receiver :: args
  | callStatic _ family method args => if isConcat family method then [] else args
  | e => e.children

/-- An array that stands in a tree where no array belongs: it is the whole tree, or below a node
    that would have to write it as it is. -/
def Misplaced (e n : Expr) : Prop :=
  n.isArray ∧ (n = e ∨ ∃ parent ∈ e.nodes, n ∈ parent.wholeChildren)

/-- Number of arguments of a call. -/
def argumentCount : Expr → Nat
  | call _ _ _ _ args => args.length
  | callStatic _ _ _ args => args.length
  | _ => 0

/-- The nodes of a tree that have no form by themselves, whatever stands below them. -/
inductive Refused (e : Expr) (d : Rules) (mode : Mode) : Expr → Prop
  | unknownProperty {k object name family} : family.property? name = none →
      Refused e d mode (.member k object name family)
  | property {k object name family p} : family.property? name = some p → d.property p = none →
      Refused e d mode (.member k object name family)
  | operator {k op operand} : op ≠ .convert → d.unary op operand.kind = none →
      Refused e d mode (.unary k op operand)
  | unknownMethod {n} : n.operands?.isSome → n.method? = none → Refused e d mode n
  | method {n m} : n.method? = some m → n.misshape? = none →
      m.hasForm d n.argumentCount true = false → Refused e d mode n
  | search {k family name receiver args} : family.method? name = some .membership →
      receiver.isArray = false → Refused e d mode (.call k family name receiver args)
  | construct {k type args} : d.construct type args.length = none →
      Refused e d mode (.construct k type args)
  | array {n} : Misplaced e n → Refused e d mode n
  | literal {k c} : mode.binds c.value = false → d.literal c.value = none →
      Refused e d mode (.constant k c)

/-! ### Arrays that have to be written -/

theorem mem_children_of_mem_wholeChildren {e c : Expr} (h : c ∈ e.wholeChildren) :
    c ∈ e.children := by
  cases e with
  | call k family method receiver args =>
    simp only [wholeChildren] at h
    split at h
    · exact List.mem_cons_of_mem _ h
    · exact h
  | callStatic k family method args =>
    simp only [wholeChildren] at h
    split at h
    · exact absurd h List.not_mem_nil
    · exact h
  | _ => exact h

/-- What has to be written of a tree is the tree, or has to be written of a subtree; arrays that the
    node takes apart are left out. -/
theorem written_cases {e n : Expr} (h : n ∈ e.written) :
    n = e ∨ (∃ c ∈ e.wholeChildren, n ∈ c.written) ∨ ∃ c ∈ e.children, n ∈ c.contents := by
  cases e with
  | constant | column => exact .inl (List.mem_singleton.mp h)
  | member k object name family =>
    exact (List.mem_cons.mp h).imp_right fun h => .inl ⟨object, List.mem_singleton.mpr rfl, h⟩
  | unary k op operand =>
    exact (List.mem_cons.mp h).imp_right fun h => .inl ⟨operand, List.mem_singleton.mpr rfl, h⟩
  | binary k op l r =>
    rw [written, List.mem_cons, List.mem_append] at h
    refine h.imp_right fun h => .inl ?_
    rcases h with h | h
    · exact ⟨l, List.mem_cons_self, h⟩
    · exact ⟨r, List.mem_cons_of_mem _ List.mem_cons_self, h⟩
  | conditional k t l r =>
    rw [written, List.mem_cons, List.mem_append, List.mem_append] at h
    refine h.imp_right fun h => .inl ?_
    rcases h with h | h | h
    · exact ⟨t, List.mem_cons_self, h⟩
    · exact ⟨l, List.mem_cons_of_mem _ List.mem_cons_self, h⟩
    · exact ⟨r, List.mem_cons_of_mem _ (List.mem_cons_of_mem _ List.mem_cons_self), h⟩
  | call k family method receiver args =>
    rw [written_call, List.mem_cons] at h
    refine h.imp_right fun h => ?_
    simp only [wholeChildren]
    split at h
    · exact absurd h List.not_mem_nil
    · cases hsearch : isSearch family method with
      -- The receiver of a membership test gives its items and not its own text.
      | true =>
        rw [hsearch] at h
        rcases List.mem_append.mp h with h | h
        · exact .inr ⟨receiver, List.mem_cons_self, h⟩
        · exact .inl (mem_listWritten.mp h)
      | false =>
        rw [hsearch] at h
        rcases List.mem_append.mp h with h | h
        · exact .inl ⟨receiver, List.mem_cons_self, h⟩
        · obtain ⟨a, ha, h⟩ := mem_listWritten.mp h
          exact .inl ⟨a, List.mem_cons_of_mem _ ha, h⟩
  | callStatic k family method args =>
    rw [written, List.mem_cons] at h
    refine h.imp_right fun h => ?_
    simp only [wholeChildren]
    cases hconcat : isConcat family method with
    | true =>
      rw [hconcat] at h
      exact .inr (mem_listContents.mp h)
    | false =>
      rw [hconcat] at h
      exact .inl (mem_listWritten.mp h)
  | construct k type args =>
    exact (List.mem_cons.mp h).imp_right fun h => .inl (mem_listWritten.mp h)
  | array k items =>
    exact (List.mem_cons.mp h).imp_right fun h => .inl (mem_listWritten.mp h)

/-- Without the tree itself, the contents of an array have to be written of its items. -/
theorem contents_cases {e n : Expr} (h : n ∈ e.contents) :
    (e.isArray = false ∧ n ∈ e.written) ∨ ∃ c ∈ e.wholeChildren, n ∈ c.written := by
  cases e with
  | array k items => exact .inr (mem_listWritten.mp h)
  | _ => exact .inl ⟨rfl, h⟩

/-- **Arrays out of place.** An array that has to be written is the whole tree or stands below a
    node that would have to write it as it is. -/
theorem misplaced_of_mem_written {e n : Expr} (hn : n ∈ e.written) (harray : n.isArray) :
    Misplaced e n := by
  -- The contents of a tree do not have it among them, so there the array is further down.
  have hboth : (n ∈ e.written → n = e ∨ ∃ parent ∈ e.nodes, n ∈ parent.wholeChildren) ∧
      (n ∈ e.contents → ∃ parent ∈ e.nodes, n ∈ parent.wholeChildren) := by
    clear hn
    induction e using Expr.induction_children with
    | node e ih =>
      have hdeeper : ∀ c ∈ e.children, (∃ parent ∈ c.nodes, n ∈ parent.wholeChildren) →
          ∃ parent ∈ e.nodes, n ∈ parent.wholeChildren := by
        rintro c hc ⟨parent, hparent, hchild⟩
        exact ⟨parent, mem_nodes_of_mem_children hc hparent, hchild⟩
      have hwhole : (∃ c ∈ e.wholeChildren, n ∈ c.written) →
          ∃ parent ∈ e.nodes, n ∈ parent.wholeChildren := by
        rintro ⟨c, hc, h⟩
        have hchild := mem_children_of_mem_wholeChildren hc
        rcases (ih c hchild).1 h with rfl | h
        · exact ⟨e, mem_nodes_self e, hc⟩
        · exact hdeeper c hchild h
      have hwritten : n ∈ e.written → n = e ∨ ∃ parent ∈ e.nodes, n ∈ parent.wholeChildren := by
        intro h
        rcases written_cases h with h | h | ⟨c, hc, h⟩
        · exact .inl h
        · exact .inr (hwhole h)
        · exact .inr (hdeeper c hc ((ih c hc).2 h))
      refine ⟨hwritten, fun h => ?_⟩
      rcases contents_cases h with ⟨hnot, h⟩ | h
      · rcases hwritten h with rfl | h
        · exact absurd harray (by simp [hnot])
        · exact h
      · exact hwhole h
  exact ⟨harray, hboth.1 hn⟩

/-! ### Faults of nodes -/

variable {d : Rules} {mode : Mode} {e n : Expr}

/-- A fault is about the node itself, or about the shape of a call. -/
theorem fault?_cases {err : Error} (h : n.fault? d = some err) :
    err = .unsupported d.name n.text ∨ ∃ cause, err = .malformed cause := by
  have hcall : ∀ {family name hasReceiver onArray args},
      callFault? d n family name hasReceiver onArray args = some err →
      err = .unsupported d.name n.text ∨ ∃ cause, err = .malformed cause := by
    intro family name hasReceiver onArray args h
    -- Of the four ways a call is refused, an unknown method and a missing form name the construct;
    -- a wrong receiver and a wrong number of arguments are malformed.
    unfold callFault? at h
    grind
  cases n with
  | constant | column | binary | conditional => exact absurd h (by simp [fault?])
  | call | callStatic => exact hcall h
  | member | unary | construct =>
    simp only [fault?] at h
    split at h
    · exact absurd h (by simp)
    · exact .inl (Option.some.inj h).symm
  | array => exact .inl (Option.some.inj h).symm

/-- A call that has no form names an unknown method, or one of a shape that fits but without a
    form. -/
private theorem callFault?_unsupported {family : Family} {name : String}
    {hasReceiver onArray : Bool} {args : Nat} {dialect construct : String}
    (h : callFault? d n family name hasReceiver onArray args =
      some (.unsupported dialect construct)) :
    family.method? name = none ∨
      ∃ m, family.method? name = some m ∧ callMisshape? family name hasReceiver args = none ∧
        m.hasForm d args onArray = false := by
  unfold callFault? at h
  cases hm : family.method? name with
  | none => exact .inl rfl
  | some m =>
    simp only [hm] at h
    split at h
    · exact absurd h (by simp)
    · next hshape =>
      split at h
      · next hargs =>
        refine .inr ⟨m, rfl, ?_, ?_⟩
        · simp only [callMisshape?, hm]
          rw [if_neg hshape, if_pos hargs]
        · split at h
          · exact absurd h (by simp)
          · next hform => exact Bool.eq_false_iff.mpr hform
      · exact absurd h (by simp)

/-- A method other than a search asks nothing of its receiver. -/
private theorem hasForm_onArray {m : Method} (hm : m ≠ .membership) (args : Nat) (onArray : Bool) :
    m.hasForm d args onArray = m.hasForm d args true := by
  cases m with
  | membership => exact absurd rfl hm
  | string m => cases m <;> rfl
  | _ => rfl

/-- **Nodes at fault.** A node that has to be written and is at fault has no form by itself, unless
    the fault is in the shape of a call. -/
theorem refused_of_fault? {dialect construct : String}
    (h : n.fault? d = some (.unsupported dialect construct)) (hn : n ∈ e.written) :
    e.Refused d mode n := by
  cases n with
  | constant | column | binary | conditional => exact absurd h (by simp [fault?])
  | member k object name family =>
    simp only [fault?] at h
    split at h
    · exact absurd h (by simp)
    · next hnone =>
      cases hp : family.property? name with
      | none => exact .unknownProperty hp
      | some p => exact .property hp (by simpa [hp] using hnone)
  | unary k op operand =>
    simp only [fault?] at h
    split at h
    · exact absurd h (by simp)
    · next hnone =>
      obtain ⟨hop, hunary⟩ := not_or.mp hnone
      exact .operator hop (by simpa using hunary)
  | call k family name receiver args =>
    rcases callFault?_unsupported h with hnone | ⟨m, hm, hshape, hform⟩
    · exact .unknownMethod rfl hnone
    · by_cases hsearch : m = .membership
      · subst hsearch
        exact .search hm hform
      · exact .method hm hshape (hasForm_onArray hsearch _ _ ▸ hform)
  | callStatic k family name args =>
    rcases callFault?_unsupported h with hnone | ⟨m, hm, hshape, hform⟩
    · exact .unknownMethod rfl hnone
    · by_cases hsearch : m = .membership
      · -- A search without a receiver has the wrong shape.
        subst hsearch
        exact absurd hshape (by simp [callMisshape?, hm, Method.signature, Method.onReceiver])
      · exact .method hm hshape (hasForm_onArray hsearch _ _ ▸ hform)
  | construct k type args =>
    simp only [fault?] at h
    split at h
    · exact absurd h (by simp)
    · next hnone => exact .construct (by simpa using hnone)
  | array k items => exact .array (misplaced_of_mem_written hn rfl)

end Expr

/-! ### A node alone -/

namespace Layout

variable {d : Rules} {e : Expr}

theorem callBody_eq_fault (hc : d.Complete) {family : Family} {name : String}
    {hasReceiver : Bool} (firstIsString : Bool) {onArray : Bool} {args : Nat} {ls : List Layout}
    {err : Error} (h : Expr.callFault? d e family name hasReceiver onArray args = some err)
    (hlen : ls.length = args + hasReceiver.toNat)
    (hitems : hasReceiver → onArray = false → ∀ l ∈ ls.head?, l.items = none) :
    callBody d e family name hasReceiver firstIsString args ls = .fault err := by
  unfold Expr.callFault? at h
  unfold callBody
  cases hm : family.method? name with
  | none =>
    obtain rfl := by simpa [hm] using h
    rfl
  | some m =>
    simp only [hm] at h ⊢
    split at h
    · next hshape =>
      obtain rfl := Option.some.inj h
      rw [if_pos hshape]
    · next hshape =>
      have hsame : m.signature.hasReceiver = hasReceiver := not_ne_iff.mp hshape
      rw [if_neg hshape]
      split at h
      · next hargs =>
        rw [if_pos hargs]
        split at h
        · exact absurd h (by simp)
        · next hform =>
          obtain rfl := Option.some.inj h
          exact methodBody_eq_fault hc e firstIsString hargs (hsame ▸ hlen)
            (Bool.eq_false_iff.mpr hform)
            fun hmembership => hitems (by rw [← hsame, hmembership]; rfl)
      · next hargs =>
        obtain rfl := Option.some.inj h
        rw [if_neg hargs]

/-- Coercions are put around a node as it is. -/
theorem ofNode_compound (hd : d.Sound) (isPredicate : Bool) (body : Sql) :
    Sql.Compound [(ofNode d isPredicate body).natural] (ofNode d isPredicate body).predicate := by
  cases isPredicate with
  | false => exact Sql.compound_form hd .predicateCoercion
  | true => exact Draft.Compound.part

end Layout

namespace Expr

open Layout

variable {d : Rules} {n : Expr}

/-- A node that is at fault is its fault, one level down. -/
theorem natural_of_fault? (hc : d.Complete) {err : Error} (h : n.fault? d = some err)
    (p : Position) : (n.layout d p).natural = .level (.fault err) := by
  cases n with
  | constant | column | binary | conditional => exact absurd h (by simp [fault?])
  | member k object name family =>
    simp only [fault?] at h
    split at h
    · exact absurd h (by simp)
    · next hnone =>
      obtain rfl := Option.some.inj h
      simp only [layout, ofNode, memberBody]
      cases hp : family.property? name with
      | none => rfl
      | some property =>
        have hproperty : d.property property = none := by simpa [hp] using hnone
        simp only [hproperty, formOr]
  | unary k op operand =>
    simp only [fault?] at h
    split at h
    · exact absurd h (by simp)
    · next hnone =>
      obtain rfl := Option.some.inj h
      obtain ⟨hop, hunary⟩ := not_or.mp hnone
      have hunary : d.unary op operand.kind = none := by simpa using hunary
      simp only [layout, ofNode, unaryBody, if_neg hop, hunary]
  | call k family name receiver args =>
    refine congrArg Sql.level (callBody_eq_fault hc _ h (by simp) ?_)
    -- A membership test without a form has a receiver that is no array, which has no items to list.
    intro _ harray l hl
    obtain rfl : receiver.layout d (p.child 0) = l := by simpa using hl
    exact items_eq_none harray _
  | callStatic k family name args =>
    exact congrArg Sql.level (callBody_eq_fault hc _ h (by simp) (by simp))
  | construct k type args =>
    simp only [fault?] at h
    split at h
    · exact absurd h (by simp)
    · next hnone =>
      obtain rfl := Option.some.inj h
      have hconstruct : d.construct type args.length = none := by simpa using hnone
      simp only [layout, ofNode, hconstruct, formOr]
  | array k items =>
    obtain rfl := Option.some.inj h
    rfl

/-- A tree as a condition is put together from the tree as it is. -/
theorem predicate_compound (hd : d.Sound) (e : Expr) (p : Position) :
    Sql.Compound [(e.layout d p).natural] (e.predicate d p) := by
  cases e with
  | binary k op left right =>
    simp only [predicate, layout]
    split
    · exact ofNode_compound hd _ _
    · split
      · exact ofNode_compound hd _ _
      · exact ofNode_compound hd _ _
  | conditional k test ifTrue ifFalse =>
    simp only [predicate, layout]
    split
    · exact ofNode_compound hd false _
    · exact ofNode_compound hd false _
  | array k items => exact ofNode_compound hd false _
  | _ => exact ofNode_compound hd _ _

end Expr

namespace Settings

variable {w : Settings} {n : Expr}

/-- A tree that is refused fails in a way in which the node at its root can, coercions aside. -/
theorem failure_natural (hd : w.rules.Sound) {err : Error} (hq : w.query n = .error err) :
    (n.layout w.rules (.root 0)).natural.draft.Failure w 0 err := by
  have hcompound := n.predicate_compound hd (.root 0)
  refine (failure_of_query hq).of_part ?_ ?_ ?_
  · intro err' herr
    simpa using hcompound.mem_faults_iff.mp herr
  · intro x hx
    simpa using hcompound.gathers.constants x hx
  · exact Nat.add_le_add_left (hcompound.levels_le (by simp)) 0

/-- A tree that is written has no fault at its root, and a constant there has a literal if it is not
    bound. -/
theorem natural_of_query (hd : w.rules.Sound) {q : Query} (hq : w.query n = .ok q) :
    (n.layout w.rules (.root 0)).natural.draft.isFaultless ∧
      ∀ x ∈ (n.layout w.rules (.root 0)).natural.draft.constants, w.mode.binds x.2.value = false →
        ∃ t, w.rules.literal x.2.value = some t := by
  obtain ⟨b, htranscript⟩ := exists_transcript hq
  obtain ⟨hfaultless, hconstants⟩ := (n.predicate_compound hd (.root 0)).gathers.all
    htranscript.isFaultless _ (List.mem_singleton.mpr rfl)
  exact ⟨hfaultless, fun x hx => htranscript.literals x (hconstants x hx)⟩

/-- A node that is at fault is refused alone, with its own fault, if a level can be entered. -/
theorem query_of_fault? (hd : w.rules.Sound) (hc : w.rules.Complete) (hlimit : 0 < w.maxDepth)
    {err : Error} (h : n.fault? w.rules = some err) : w.query n = .error err := by
  have hnatural := Expr.natural_of_fault? hc h (.root 0)
  cases hq : w.query n with
  | ok q =>
    have hfaultless := (natural_of_query hd hq).1
    rw [hnatural] at hfaultless
    exact absurd hfaultless (by simp [Sql.draft, Draft.isFaultless])
  | error err' =>
    have hfailure := failure_natural hd hq
    rw [hnatural] at hfailure
    cases hfailure with
    | fault herr => rw [List.mem_singleton.mp herr]
    -- One level is open when the fault is met, and the limit admits one.
    | nesting hlevels => exact absurd hlevels (Nat.not_lt.mpr hlimit)
    | literal hx => exact absurd hx List.not_mem_nil
    | type hx => exact absurd hx List.not_mem_nil

/-- A constant that is not bound and has no literal is refused alone. -/
theorem query_constant (hd : w.rules.Sound) (hlimit : 0 < w.maxDepth) (k : ValueKind)
    {c : Constant} (hbinds : w.mode.binds c.value = false)
    (hliteral : w.rules.literal c.value = none) :
    w.query (.constant k c) = .error (.unsupported w.rules.name c.value.text) := by
  cases hq : w.query (.constant k c) with
  | ok q =>
    obtain ⟨t, ht⟩ := (natural_of_query hd hq).2 (.root 0, c) (List.mem_singleton.mpr rfl) hbinds
    exact absurd ht (by simp [hliteral])
  | error err =>
    cases failure_natural hd hq with
    | fault herr => exact absurd herr List.not_mem_nil
    | nesting hlevels => exact absurd hlevels (Nat.not_lt.mpr hlimit)
    | literal hx => rw [List.mem_singleton.mp hx]
    | type hx hbinds' =>
      rw [List.mem_singleton.mp hx] at hbinds'
      exact absurd hbinds' (by simp [hbinds])

end Settings

/-! ### Errors -/

namespace HostKind

/-- Only a type that is none of the known ones has no counterpart, and it is shown by its name. -/
theorem eq_other_of_resolve? {types : TypeSystem} {host : HostType}
    (h : types.resolve? host = none) : host.kind = .other host.kind.text := by
  have hcolumn : types.column? host.kind = none := by simpa [TypeSystem.resolve?] using h
  cases hkind : host.kind with
  | other name => rfl
  | int k => cases k <;> simp [hkind, TypeSystem.column?] at hcolumn
  | float p => cases p <;> simp [hkind, TypeSystem.column?] at hcolumn
  | _ => simp [hkind, TypeSystem.column?] at hcolumn

end HostKind

/-- A constant that is written stands at a node. -/
theorem Expr.exists_constant_node {d : Rules} (hd : d.Sound) {e : Expr} {p : Position}
    {x : Position × Constant} (hx : x ∈ (e.predicate d p).draft.constants) :
    ∃ k, Expr.constant k x.2 ∈ e.nodes := by
  have hc : x.2 ∈ (e.constants p).map Prod.snd :=
    List.mem_map_of_mem (mem_constants_of_mem_draft hd hx)
  rw [← e.written_constants, List.mem_filterMap] at hc
  obtain ⟨n, hn, hc⟩ := hc
  cases n with
  | constant k c =>
    obtain rfl := Option.some.inj hc
    exact ⟨k, mem_nodes_of_mem_written hn⟩
  | _ => exact absurd hc (by simp [constant?])

namespace Renderer

/-- **Which node an error names.** If a tree is refused as unsupported, the error gives the name of
    the dialect and the text of a node of the tree that has no form by itself, and that is refused
    with the same error alone. If it is refused for a type, constants are bound, and one of them has
    a host type of that name which is none of the known ones. There is no other error but that the
    tree is malformed. -/
theorem query_culprit (r : Renderer) (mode : Mode) (e : Expr) :
    (∀ dialect construct, (r.settings mode).query e = .error (.unsupported dialect construct) →
      dialect = r.dialect.name ∧ ∃ n ∈ e.nodes, construct = n.text ∧
        e.Refused r.dialect.rules mode n ∧
        ∀ limit, 0 < limit →
          r.queryWithin mode n limit = .error (.unsupported dialect construct)) ∧
    (∀ host, (r.settings mode).query e = .error (.typeResolution host) →
      ∃ policy, mode = .parameterized policy ∧ ∃ k c, .constant k c ∈ e.nodes ∧
        policy.binds c.value ∧ c.host.kind = .other host) ∧
    (∀ cause, (r.settings mode).query e ≠ .error (.config cause)) ∧
    (r.settings mode).query e ≠ .error .missingFile := by
  have hd := r.dialect.sound
  have hc := r.dialect.complete
  have hfault : ∀ {err}, err ∈ (e.predicate r.dialect.rules (.root 0)).draft.faults →
      ∃ n ∈ e.written, n.fault? r.dialect.rules = some err := fun herr =>
    (e.layout_explained hd hc (.root 0)).predicate.cause _ (List.mem_singleton.mpr rfl) _ herr
  -- An error of any other kind is no fault of a node.
  have hother : ∀ {err}, err ∈ (e.predicate r.dialect.rules (.root 0)).draft.faults →
      (∃ dialect construct, err = .unsupported dialect construct) ∨
        ∃ cause, err = .malformed cause := by
    intro err herr
    obtain ⟨n, -, hn⟩ := hfault herr
    exact (Expr.fault?_cases hn).imp_left fun h => ⟨_, _, h⟩
  refine ⟨?_, ?_, ?_, ?_⟩
  · intro dialect construct h
    cases Settings.failure_of_query h with
    | fault herr =>
      obtain ⟨n, hn, hn'⟩ := hfault herr
      obtain ⟨rfl, rfl⟩ : dialect = r.dialect.name ∧ construct = n.text := by
        simpa [Dialect.name] using Expr.fault?_cases hn'
      refine ⟨rfl, n, Expr.mem_nodes_of_mem_written hn, rfl, Expr.refused_of_fault? hn' hn, ?_⟩
      intro limit hlimit
      unfold queryWithin
      exact Settings.query_of_fault? hd hc hlimit hn'
    | literal hx hbinds hliteral =>
      obtain ⟨k, hk⟩ := Expr.exists_constant_node hd hx
      refine ⟨rfl, _, hk, rfl, .literal hbinds hliteral, ?_⟩
      intro limit hlimit
      unfold queryWithin
      exact Settings.query_constant hd hlimit k hbinds hliteral
  · intro host h
    cases Settings.failure_of_query h with
    | fault herr => exact absurd (hother herr) (by simp)
    | type hx hbinds htype =>
      obtain ⟨k, hk⟩ := Expr.exists_constant_node hd hx
      cases mode with
      | inline => exact absurd hbinds (by simp [settings, Mode.binds])
      | parameterized policy =>
        exact ⟨policy, rfl, k, _, hk, hbinds, HostKind.eq_other_of_resolve? htype⟩
  · intro cause h
    cases Settings.failure_of_query h with
    | fault herr => exact absurd (hother herr) (by simp)
  · intro h
    cases Settings.failure_of_query h with
    | fault herr => exact absurd (hother herr) (by simp)

/-- Access has no milliseconds, which are asked for below a conversion and an alternative that is
    written twice; and a point has no counterpart in a database. -/
theorem query_culprit_millisecond :
    let r := Renderer.of .access
    let mode := Mode.parameterized .nonNumeric
    let e := Build.binary .greaterThan
      (Build.binary .coalesce
        (Build.convert .integer (Build.datePart "Millisecond" (Build.column "Created" .date)))
        (Build.column "Rank" .integer))
      (Build.column "Limit" .integer)
    let e' := Build.binary .equal (Build.column "Place" .other)
      (Build.literalOf (.string "1 2") (.of (.other "Point")))
    ((r.settings mode).query e = .error (.unsupported "access" "Created.Millisecond") ∧
      ∃ n ∈ e.nodes, "Created.Millisecond" = n.text ∧ e.Refused r.dialect.rules mode n ∧
        ∀ limit, 0 < limit →
          r.queryWithin mode n limit = .error (.unsupported "access" "Created.Millisecond")) ∧
    (r.settings mode).query e' = .error (.typeResolution "Point") ∧
      ∃ policy, mode = .parameterized policy ∧ ∃ k c, .constant k c ∈ e'.nodes ∧
        policy.binds c.value ∧ c.host.kind = .other "Point" := by
  intro r mode e e'
  have hqueries : (r.settings mode).query e = .error (.unsupported "access" "Created.Millisecond") ∧
      (r.settings mode).query e' = .error (.typeResolution "Point") := by decide +kernel
  obtain ⟨hconstruct, htype⟩ := hqueries
  exact ⟨⟨hconstruct, ((query_culprit r mode e).1 _ _ hconstruct).2⟩, htype,
    (query_culprit r mode e').2.1 _ htype⟩

end Renderer

end WhereClause
