import WhereClause.Expr.Build
import WhereClause.Proofs.Faults
import WhereClause.Proofs.Tables

namespace WhereClause

/-!
# Which trees can be written

A tree can be written with all its constants as literals exactly if each of its nodes has a form in
the dialect, and whether a node has one can be read off the node. The dialects differ in five
places: Access has no bytes, no milliseconds and three functions less, Oracle has no complement of
bits, and SQLite does not search from a position.

* `Expr.hasForm` — the nodes that a dialect can write;
* `Dialect.complete` — no dialect lacks a binary operator;
* `Expr.hasForm_iff` — a node has a form if and only if it is not at fault;
* `Renderer.inline_succeeds_iff` — a tree can be written if and only if its nodes have forms.
-/

/-! ### Nodes that have forms -/

/-- The values that a dialect has literals for. -/
def Value.hasLiteral (d : Dialect) : Value → Bool
  | .float _ x => x.isFinite
  | .bytes _ => d ≠ .access
  | _ => true

/-- The methods that a dialect lacks, by their number of arguments. -/
def Method.isMissing (d : Dialect) (m : Method) (args : Nat) : Bool :=
  match d with
  | .sqlite => m = .string .indexOf && args = 2
  | .access => m = .shift .milliseconds || m = .math .acos || m = .math .asin || m = .math .atan2
  | _ => false

namespace Expr

/-- The calls that a dialect can write: the method is known, the shape of the call is that of the
    method, members are sought in an array, and the dialect does not lack the method. -/
def callHasForm (d : Dialect) (family : Family) (name : String) (hasReceiver onArray : Bool)
    (args : Nat) : Bool :=
  match family.method? name with
  | none => false
  | some m =>
    m.signature.hasReceiver = hasReceiver && m.signature.admits args &&
      (m ≠ .membership || onArray) && !m.isMissing d args

/-- The nodes that a dialect can write, apart from what stands below them. -/
def hasForm (d : Dialect) : Expr → Bool
  | constant _ c => c.value.hasLiteral d
  | column _ _ _ => true
  | member _ _ name family =>
    match family.property? name with
    | none => false
    | some p => !(d = .access && p = .part .millisecond)
  | unary _ op operand => !(d = .oracle && op = .not && operand.kind ≠ .boolean)
  | binary _ _ _ _ => true
  | call _ family method receiver args =>
    callHasForm d family method true receiver.isArray args.length
  | callStatic _ family method args => callHasForm d family method false false args.length
  | conditional _ _ _ _ => true
  | construct _ type args => type = .dateTime && (args.length = 3 || args.length = 6)
  | array _ _ => false

/-- The constant at a node. -/
def constant? : Expr → Option Constant
  | constant _ c => some c
  | _ => none

end Expr

/-! ### Tables of the dialects -/

namespace Dialect

/-- Every binary operator has a template or an infix token, whatever the kinds of its operands. -/
theorem binary_complete : ∀ d ∈ all, ∀ op ∈ BinaryOp.all, ∀ l ∈ ValueKind.all, ∀ r ∈ ValueKind.all,
    op = .coalesce ∨ (d.rules.binary op l r).isSome ∨
      (d.rules.operator op (l = .boolean)).isSome := by
  decide +kernel

/-- **No dialect lacks a binary operator**, nor the conversion to text. -/
theorem complete (d : Dialect) : d.rules.Complete where
  binary op l r := binary_complete d d.mem_all op op.mem_all l l.mem_all r r.mem_all
  toText args := by cases d <;> rfl

/-- Only Access lacks a property. -/
theorem property_isSome (d : Dialect) (p : Property) :
    (d.rules.property p).isSome = !(d = .access && p = .part .millisecond) := by
  have h : ∀ d ∈ all, ∀ p ∈ Property.all,
      (d.rules.property p).isSome = !(d = .access && p = .part .millisecond) := by decide
  exact h d d.mem_all p p.mem_all

/-- Only Oracle lacks a unary operator. -/
theorem unary_isSome (d : Dialect) (op : UnaryOp) (k : ValueKind) :
    (d.rules.unary op k).isSome = !(d = .oracle && op = .not && k ≠ .boolean) := by
  have h : ∀ d ∈ all, ∀ op ∈ UnaryOp.all, ∀ k ∈ ValueKind.all,
      (d.rules.unary op k).isSome = !(d = .oracle && op = .not && k ≠ .boolean) := by decide
  exact h d d.mem_all op op.mem_all k k.mem_all

/-- A method whose shape fits has a form unless the dialect lacks it. -/
theorem method_hasForm (d : Dialect) {m : Method} {args : Nat} (h : m.signature.admits args)
    (onArray : Bool) :
    m.hasForm d.rules args onArray = ((m ≠ .membership || onArray) && !m.isMissing d args) := by
  have htable : ∀ d ∈ all, ∀ m ∈ Method.all, ∀ n < 3, m.signature.admits n → ∀ onArray,
      m.hasForm d.rules n onArray = ((m ≠ .membership || onArray) && !m.isMissing d n) := by
    decide
  by_cases hm : m = .string .concat
  · -- A concatenation takes any number of arguments, and none of them matters.
    subst hm
    cases d <;> simp [Method.hasForm, Method.isMissing]
  · exact htable d d.mem_all m m.mem_all args (Method.args_lt_three hm h) h onArray

/-- Dates are constructed from three fields or from six, and nothing else is constructed, in every
    dialect. -/
theorem construct_isSome (d : Dialect) (type : HostKind) (args : Nat) :
    (d.rules.construct type args).isSome = (type = .dateTime && (args = 3 || args = 6)) := by
  rw [Bool.eq_iff_iff, Option.isSome_iff_exists]
  simp only [Bool.and_eq_true, Bool.or_eq_true, decide_eq_true_eq]
  constructor
  · rintro ⟨t, ht⟩
    exact d.constructsDates ht
  · rintro ⟨rfl, rfl | rfl⟩
    · cases d <;> exact ⟨_, rfl⟩
    · cases d <;> exact ⟨_, rfl⟩

/-- The values that have a literal in a dialect. -/
theorem literal_isSome (d : Dialect) (v : Value) :
    (d.rules.literal v).isSome = v.hasLiteral d := by
  -- The generic literals are those of every dialect but for the bytes.
  have hfloat : ∀ p x, (Generic.literal (.float p x)).isSome = x.isFinite := by
    intro p x
    simp only [Generic.literal]
    split <;> simp_all
  cases v with
  | float p x => cases d <;> exact hfloat p x
  | _ => cases d <;> rfl

end Dialect

namespace Expr

/-- A call has a form exactly if it has no fault. -/
theorem callHasForm_iff (d : Dialect) (e : Expr) (family : Family) (name : String)
    (hasReceiver onArray : Bool) (args : Nat) :
    callHasForm d family name hasReceiver onArray args ↔
      callFault? d.rules e family name hasReceiver onArray args = none := by
  unfold callHasForm callFault?
  cases family.method? name with
  | none => simp
  | some m =>
    dsimp only
    by_cases hshape : m.signature.hasReceiver = hasReceiver
    · by_cases hargs : m.signature.admits args
      · rw [d.method_hasForm hargs onArray]
        simp [hshape, hargs]
      · simp [hshape, hargs]
    · simp [hshape]

/-- A node has a form if it is not at fault and, if it is a constant, has a literal. -/
theorem hasForm_iff (d : Dialect) (n : Expr) :
    n.hasForm d ↔ n.fault? d.rules = none ∧ ∀ c ∈ n.constant?, c.value.hasLiteral d := by
  cases n with
  | constant k c => simp [hasForm, fault?, constant?]
  | member k object name family =>
    simp only [hasForm, fault?, constant?]
    cases family.property? name with
    | none => simp
    | some p => simp [← d.property_isSome p, Option.isSome_iff_ne_none]
  | unary k op operand =>
    simp only [hasForm, fault?, constant?, ← d.unary_isSome op operand.kind]
    by_cases hop : op = .convert
    · -- A conversion is never missing.
      have hconvert : (d.rules.unary op operand.kind).isSome := by
        rw [d.unary_isSome, hop]
        simp
      simp [hop, hop ▸ hconvert]
    · simp [hop, Option.isSome_iff_ne_none]
  | call k family method receiver args =>
    simpa [hasForm, fault?, constant?] using callHasForm_iff d _ family method true _ args.length
  | callStatic k family method args =>
    simpa [hasForm, fault?, constant?] using callHasForm_iff d _ family method false _ args.length
  | construct k type args =>
    simp only [hasForm, fault?, constant?, ← d.construct_isSome]
    simp [Option.isSome_iff_ne_none]
  | column | binary | conditional | array => simp [hasForm, fault?, constant?]

/-! ### The constants among the nodes -/

/-- What a node hands on has the constants of the node. -/
theorem contents_constants (e : Expr) :
    e.contents.filterMap constant? = e.written.filterMap constant? := by
  cases e with
  | array k items => exact (List.filterMap_cons_none rfl).symm
  | _ => rfl

/-- The constants of a list, as they are written and as they are handed on. -/
private theorem listWritten_constants {es : List Expr}
    (ih : ∀ e ∈ es, ∀ p, e.written.filterMap constant? = (e.constants p).map Prod.snd)
    (p : Position) (i : Nat) :
    (listWritten es).filterMap constant? = (listConstants p i es).map Prod.snd ∧
      (listContents es).filterMap constant? = (listConstants p i es).map Prod.snd := by
  induction es generalizing i with
  | nil => exact ⟨rfl, rfl⟩
  | cons e es ihs =>
    obtain ⟨hwritten, hcontents⟩ := ihs (fun e he => ih e (List.mem_cons_of_mem _ he)) (i + 1)
    have he := ih e (by simp) (p.child i)
    constructor
    · rw [listWritten, listConstants, List.filterMap_append, List.map_append, he, hwritten]
    · rw [listContents, listConstants, List.filterMap_append, List.map_append, hcontents, ← he]
      exact congrArg (· ++ _) e.contents_constants

/-- The constants among the nodes to be written are those of the tree. -/
theorem written_constants (e : Expr) (p : Position) :
    e.written.filterMap constant? = (e.constants p).map Prod.snd := by
  induction e using Expr.induction generalizing p with
  | constant k c => rfl
  | column => rfl
  | member _ _ _ _ ih => exact ih _
  | unary _ _ _ ih => exact ih _
  | binary k op l r ihl ihr =>
    show (l.written ++ r.written).filterMap constant? = _
    rw [List.filterMap_append, ihl (p.child 0), ihr (p.child 1), ← List.map_append]
    rfl
  | call k family method receiver args ihr iha =>
    obtain ⟨hargs, -⟩ := listWritten_constants iha p 1
    rw [written_call, List.filterMap_cons_none rfl, constants]
    split
    · rfl
    · rw [List.filterMap_append, List.map_append, hargs, ← ihr (p.child 0)]
      split
      · rw [contents_constants]
      · rfl
  | callStatic k family method args ih =>
    obtain ⟨hargs, hcontents⟩ := listWritten_constants ih p 0
    rw [written, List.filterMap_cons_none rfl, constants]
    split
    · exact hcontents
    · exact hargs
  | conditional k t l r iht ihl ihr =>
    show (t.written ++ (l.written ++ r.written)).filterMap constant? = _
    rw [List.filterMap_append, List.filterMap_append, iht (p.child 0), ihl (p.child 1),
      ihr (p.child 2), ← List.map_append, ← List.map_append, ← List.append_assoc]
    rfl
  | construct _ _ _ ih => exact (listWritten_constants ih p 0).1
  | array _ _ ih => exact (listWritten_constants ih p 0).1

/-- The nodes to be written have forms if and only if none is at fault and every constant has a
    literal. -/
theorem forall_hasForm_iff (d : Dialect) (e : Expr) (p : Position) :
    (∀ n ∈ e.written, n.hasForm d) ↔
      (∀ n ∈ e.written, n.fault? d.rules = none) ∧
        ∀ x ∈ e.constants p, (d.rules.literal x.2.value).isSome := by
  have hconstants : (∀ x ∈ e.constants p, (d.rules.literal x.2.value).isSome) ↔
      ∀ c ∈ e.written.filterMap constant?, c.value.hasLiteral d := by
    rw [e.written_constants p]
    simp only [List.forall_mem_map, d.literal_isSome]
  rw [hconstants]
  simp only [hasForm_iff, List.mem_filterMap, Option.mem_def]
  constructor
  · intro h
    exact ⟨fun n hn => (h n hn).1, fun c ⟨n, hn, hc⟩ => (h n hn).2 c hc⟩
  · rintro ⟨hfault, hliteral⟩ n hn
    exact ⟨hfault n hn, fun c hc => hliteral c ⟨n, hn, hc⟩⟩

end Expr

/-! ### Trees that can be written -/

namespace Renderer

variable {r : Renderer} {e : Expr}

/-- A tree whose nodes have forms is written as long as it is not too high. -/
theorem exists_inline (hdepth : e.height ≤ r.maxDepth) (h : ∀ n ∈ e.written, n.hasForm r.dialect) :
    ∃ t, r.inline e = .ok t := by
  have hd := r.dialect.sound
  obtain ⟨hfault, hliteral⟩ := (e.forall_hasForm_iff r.dialect (.root 0)).mp h
  have hexplained := (e.layout_explained hd r.dialect.complete (.root 0)).predicate
  -- Neither a fault nor a level nor a constant can stop the writing.
  have hquery : ∀ err, ¬ (e.predicate r.dialect.rules (.root 0)).draft.Failure
      (r.settings .inline) 0 err := by
    intro err hfailure
    cases hfailure with
    | fault herr =>
      obtain ⟨n, hn, hn'⟩ := hexplained.cause _ (List.mem_singleton.mpr rfl) err herr
      exact absurd ((hfault n hn).symm.trans hn') (by simp)
    | nesting hlevels =>
      have hle : (e.predicate r.dialect.rules (.root 0)).draft.levels ≤ e.height :=
        hexplained.levels _ (List.mem_singleton.mpr rfl)
      have hlimit : (r.settings .inline).maxDepth = r.maxDepth := rfl
      omega
    | literal hx _ hnone =>
      have hsome := hliteral _ (Expr.mem_constants_of_mem_draft hd hx)
      exact absurd (hnone ▸ hsome) (by simp)
    | type _ hbinds _ => exact absurd hbinds (by simp [settings, Mode.binds])
  obtain ⟨q, hq⟩ := Settings.exists_query hquery
  exact ⟨q.sql, by rw [inline, hq]; rfl⟩

/-- Every node of a tree that was written has a form. -/
theorem hasForm_of_inline {t : String} (h : r.inline e = .ok t) :
    ∀ n ∈ e.written, n.hasForm r.dialect := by
  have hd := r.dialect.sound
  cases hq : (r.settings .inline).query e with
  | error err => simp [inline, hq, Except.map] at h
  | ok q =>
    obtain ⟨b, htranscript⟩ := Settings.exists_transcript hq
    have hfaultless := htranscript.isFaultless
    rw [e.forall_hasForm_iff r.dialect (.root 0)]
    constructor
    · refine (e.layout_explained hd r.dialect.complete (.root 0)).predicate.clear fun s hs => ?_
      obtain rfl := List.mem_singleton.mp hs
      exact Draft.isFaultless_iff.mp hfaultless
    · intro x hx
      -- A null may be missing from the draft, but it has a literal everywhere.
      cases hnull : x.2.value.isNull with
      | true =>
        rw [r.dialect.literal_isSome]
        cases hvalue : x.2.value with
        | null => rfl
        | _ => simp [hvalue, Value.isNull] at hnull
      | false =>
        have hdraft := Expr.mem_draft_of_mem_constants hd hfaultless hx hnull
        exact Option.isSome_iff_exists.mpr (htranscript.literals x hdraft rfl)

/-- **Which trees can be written.** With all constants as literals, a tree that is not too high is
    written if and only if each of its nodes that have to be written has a form in the dialect. A
    binary operator always has one, whatever the kinds of its operands: it can be written exactly if
    they can. -/
theorem inline_succeeds_iff (r : Renderer) (e : Expr) (hdepth : e.height ≤ r.maxDepth) :
    ((∃ t, r.inline e = .ok t) ↔ ∀ n ∈ e.written, n.hasForm r.dialect) ∧
      ∀ k op left right, e = .binary k op left right → ((∃ t, r.inline e = .ok t) ↔
        (∃ t, r.inline left = .ok t) ∧ ∃ t, r.inline right = .ok t) := by
  have hiff : ∀ e : Expr, e.height ≤ r.maxDepth →
      ((∃ t, r.inline e = .ok t) ↔ ∀ n ∈ e.written, n.hasForm r.dialect) :=
    fun e hdepth => ⟨fun ⟨t, ht⟩ => hasForm_of_inline ht, exists_inline hdepth⟩
  refine ⟨hiff e hdepth, ?_⟩
  rintro k op left right rfl
  have hheight : (Expr.binary k op left right).height = Nat.max left.height right.height + 1 := rfl
  have hleft : left.height ≤ Nat.max left.height right.height := Nat.le_max_left _ _
  have hright : right.height ≤ Nat.max left.height right.height := Nat.le_max_right _ _
  rw [hiff _ hdepth, hiff left (by omega), hiff right (by omega), Expr.written]
  simp only [List.forall_mem_cons, List.forall_mem_append, Expr.hasForm, true_and]

/-- What is sought in an empty array may be a number without a literal, and an array may be joined
    to a string. -/
theorem inline_succeeds_iff_arrays :
    let e := Build.binary .andAlso
      (Build.inArray (Build.literal (.float .double .nan)) [])
      (Build.contains (Build.column "Name" .string)
        (Build.concat [Build.array [Build.column "First" .string, Build.column "Last" .string]]))
    e.height ≤ (of .access).maxDepth ∧ ∃ t, (of .access).inline e = .ok t :=
  ⟨by decide, (inline_succeeds_iff (of .access) _ (by decide)).1.mpr (by decide)⟩

end Renderer

end WhereClause
