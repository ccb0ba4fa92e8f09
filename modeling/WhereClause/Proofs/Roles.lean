import WhereClause.Proofs.Enumerations
import WhereClause.Proofs.Forms

namespace WhereClause

/-!
# Conditions and values

Whether a node is a condition is decided twice: once by looking at its operator, its kind and the
kinds below it, and once by the form that is chosen for it. The two agree in every tree whose calls
carry the kind that their method gives them. This file follows the walk with two properties of
expressions, one for conditions and one for values, and shows that no role mixes them up.

* `Expr.isWellKinded` — a call is Boolean exactly if its method is a test;
* `Rules.Sorts` — two properties that every form keeps apart;
* `Expr.layout_sorted` — every role of a tree has the property it should have.
-/

/-! ### Tests among the methods -/

/-- String methods that give a truth value. -/
def StringMethod.isTest : StringMethod → Bool
  | startsWith | endsWith | contains | isNullOrEmpty => true
  | _ => false

/-- Methods that give a truth value. -/
def Method.isTest : Method → Bool
  | string m => m.isTest
  | membership => true
  | _ => false

/-- Names of methods that give a truth value. -/
def Family.isTest (family : Family) (name : String) : Bool :=
  match family with
  | string =>
    name = "StartsWith" || name = "EndsWith" || name = "Contains" || name = "IsNullOrEmpty"
  | other => name = "Contains"
  | _ => false

/-- A call is Boolean exactly if its name is that of a test. Any other node may be of any kind. -/
def Expr.isWellKinded : Expr → Bool
  | call k family name _ _ => decide (k = .boolean) = family.isTest name
  | callStatic k family name _ => decide (k = .boolean) = family.isTest name
  | _ => true

namespace Family

/-- The name of a method says whether it is a test. -/
theorem isTest_of_method? {family : Family} {name : String} {m : Method}
    (h : family.method? name = some m) : m.isTest = family.isTest name := by
  obtain ⟨rfl, hfamily⟩ := name_of_method? h
  cases m with
  | string m =>
    obtain rfl : family = .string := of_decide_eq_true hfamily
    cases m <;> rfl
  | membership =>
    obtain rfl : family = .other := of_decide_eq_true hfamily
    rfl
  | shift | daysBetween =>
    obtain rfl : family = .date := of_decide_eq_true hfamily
    rfl
  | decimal =>
    obtain rfl : family = .decimal := of_decide_eq_true hfamily
    rfl
  | math =>
    obtain rfl : family = .math := of_decide_eq_true hfamily
    rfl
  | rounding =>
    -- Rounding is the only method that two families share, and it is a test in neither.
    have hfamilies : family = .decimal ∨ family = .math := by
      simpa [Method.isKnownTo] using hfamily
    rcases hfamilies with rfl | rfl <;> rfl
  | compare | compareTo | toText => cases family <;> rfl

end Family

/-! ### Forms of conditions and of values -/

namespace Rules

/-- The templates whose operands are values and whose result is a condition. -/
inductive Tests (d : Rules) : Template → Nat → Prop
  | nullTest (op) : Tests d (Layout.nullTest op) 1
  | difference {k t} : d.binary .exclusiveOr .boolean k = some t → Tests d t 2
  | search {m n t} : m.isTest → (Method.string m).signature.admits n →
      d.method (.string m) n = some t →
      Tests d t (n + (Method.string m).signature.hasReceiver.toNat)

/-- The templates whose operands are values and whose result is a value as well. -/
inductive Computes (d : Rules) : Template → Nat → Prop
  | property {p t} : d.property p = some t → Computes d t 1
  | method {m n t} : m.isTest = false → m ≠ .string .concat → m.signature.admits n →
      d.method m n = some t → Computes d t (n + m.signature.hasReceiver.toNat)
  | binary {op l r t} : ¬ (op = .exclusiveOr ∧ l = .boolean) → d.binary op l r = some t →
      Computes d t 2
  | construct {type n t} : d.construct type n = some t → Computes d t n
  | dateDiff : Computes d d.dateDiff 2
  | compare : Computes d d.compare 2
  | coalesce {t} : d.coalesce = .nested t → Computes d t 2
  | numericCase : Computes d ["(case ", 0, " when 0 then ", 2, " else ", 1, " end)"] 3

/-- A template that tests is one that the dialect uses. -/
theorem Tests.uses {d : Rules} {t : Template} {n : Nat} (h : d.Tests t n) : d.Uses t n := by
  cases h with
  | nullTest op => exact .nullTest op
  | difference ht => exact .binary ht
  | @search m n t hm hn ht =>
    have hconcat : Method.string m ≠ .string .concat := by
      rintro heq
      obtain rfl := Method.string.inj heq
      exact absurd hm (by decide)
    exact .method hconcat hn ht

/-- A template that computes is one that the dialect uses. -/
theorem Computes.uses {d : Rules} {t : Template} {n : Nat} (h : d.Computes t n) : d.Uses t n := by
  cases h with
  | property ht => exact .property ht
  | method _ hm hn ht => exact .method hm hn ht
  | binary _ ht => exact .binary ht
  | construct ht => exact .construct ht
  | dateDiff => exact .dateDiff
  | compare => exact .compare
  | coalesce ht => exact .coalesce ht
  | numericCase => exact .numericCase

/-- Comparisons and connectives are infix, and the exclusive or of truth values is not. -/
structure Regular (d : Rules) : Prop where
  infixed : ∀ op l r, op.isComparison ∨ op.isLogical (l = .boolean) → d.binary op l r = none
  exclusiveOr : ∀ r, (d.binary .exclusiveOr .boolean r).isSome

/-- Two properties of expressions, one for conditions and one for values, that the forms of the
    rules keep apart. -/
structure Sorts (d : Rules) (P V : Sql → Prop) : Prop where
  comparison : ∀ {op b token l r}, op.isComparison → d.operator op b = some token → V l → V r →
    P (.infixed token l r)
  connective : ∀ {op b token l r}, op.isLogical b → d.operator op b = some token → P l → P r →
    P (.infixed token l r)
  negation : ∀ {token s}, d.unary .not .boolean = some token → P s → P (.prefixed token s)
  test : ∀ {t ss}, d.Tests t ss.length → (∀ s ∈ ss, V s) → P (.form t ss)
  membership : ∀ {needle ss}, V needle → (∀ s ∈ ss, V s) → P (.inList needle ss)
  predicateCoercion : ∀ {s}, V s → P (.form d.predicateCoercion [s])
  arithmetic : ∀ {op b token l r}, op.isComparison = false → op.isLogical b = false →
    (op = .exclusiveOr → b = false) → d.operator op b = some token → V l → V r →
    V (.infixed token l r)
  sign : ∀ {op k token s}, ¬ (op = .not ∧ k = .boolean) → d.unary op k = some token → V s →
    V (.prefixed token s)
  form : ∀ {t ss}, d.Computes t ss.length → (∀ s ∈ ss, V s) → V (.form t ss)
  concat : ∀ {ss}, (∀ s ∈ ss, V s) → V (.concat d.concat ss)
  coalesce : ∀ {s ss}, V s → (∀ s ∈ ss, V s) → V (.coalesce (s :: ss))
  caseWhen : ∀ {test value bs o}, P test → V value → (∀ b ∈ bs, P b.1 ∧ V b.2) → V o →
    V (.caseWhen ((test, value) :: bs) o)
  choice : ∀ {t test l r}, d.conditional = .nested t → P test → V l → V r →
    V (.form t [test, l, r])
  valueCoercion : ∀ {s}, P s → V (.form d.valueCoercion [s])
  level : ∀ {s}, (P s → P (.level s)) ∧ (V s → V (.level s))
  fault : ∀ e, P (.fault e) ∧ V (.fault e)

end Rules

/-- An expression has the property of conditions, or that of values. -/
def Sql.SortedAs (P V : Sql → Prop) (isPredicate : Bool) (s : Sql) : Prop :=
  if isPredicate then P s else V s

namespace Sql.SortedAs

variable {P V : Sql → Prop} {isPredicate : Bool} {s : Sql}

/-- A condition is sorted as one. -/
theorem condition (h : isPredicate = true) (hs : P s) : SortedAs P V isPredicate s := by
  rwa [SortedAs, if_pos h]

/-- A value is sorted as one. -/
theorem value (h : isPredicate = false) (hs : V s) : SortedAs P V isPredicate s := by
  rwa [SortedAs, if_neg (by simp [h])]

/-- A fault is sorted either way. -/
theorem fault {d : Rules} (hd : d.Sorts P V) (e : Error) :
    SortedAs P V isPredicate (.fault e) := by
  cases isPredicate with
  | false => exact (hd.fault e).2
  | true => exact (hd.fault e).1

end Sql.SortedAs

/-! ### Bodies of nodes -/

namespace Layout

/-- A node has the property it should have in every role. -/
structure Sorted (P V : Sql → Prop) (isPredicate : Bool) (l : Layout) : Prop where
  natural : l.natural.SortedAs P V isPredicate
  predicate : P l.predicate
  value : V l.value
  summands : ∀ s ∈ l.summands, V s
  spread : ∀ s ∈ l.spread, V s
  alternatives : ∀ s ∈ l.alternatives, V s
  branches : ∀ b ∈ l.branches, P b.1 ∧ V b.2
  otherwise : V l.otherwise
  items : ∀ ss, l.items = some ss → ∀ s ∈ ss, V s

variable {d : Rules} {P V : Sql → Prop} {t l r : Layout} {ls : List Layout} {p q : Bool}

/-- In a role that every operand has a value in, all of them are values. -/
theorem forall_values (h : ∀ l ∈ ls, ∃ p, l.Sorted P V p) : ∀ s ∈ ls.map Layout.value, V s := by
  intro s hs
  obtain ⟨l, hl, rfl⟩ := List.mem_map.mp hs
  obtain ⟨p, hsorted⟩ := h l hl
  exact hsorted.value

/-- A form that computes is a value, and so is a missing one. -/
theorem formOr_sorted (hd : d.Sorts P V) (e : Expr) {template : Option Template} {ss : List Sql}
    (hu : ∀ t, template = some t → d.Computes t ss.length) (hs : ∀ s ∈ ss, V s) :
    V (formOr d e template ss) := by
  cases template with
  | none => exact (hd.fault _).2
  | some t => exact hd.form (hu t rfl) hs

/-- A property is a value. -/
theorem memberBody_sorted (hd : d.Sorts P V) (e : Expr) (family : Family) (name : String)
    (hl : l.Sorted P V p) : V (memberBody d e family name l) := by
  unfold memberBody
  split
  · exact formOr_sorted hd e (fun t ht => .property ht) (by simpa using hl.value)
  · exact (hd.fault _).2

/-- A unary operator is a condition if it negates one, or converts one. -/
theorem unaryBody_sorted (hd : d.Sorts P V) (k : ValueKind) (op : UnaryOp) (operand : Expr)
    (hl : l.Sorted P V operand.isPredicate) :
    (unaryBody d (.unary k op operand) op operand l).SortedAs P V
      (Expr.unary k op operand).isPredicate := by
  by_cases hconvert : op = .convert
  · subst hconvert
    exact hl.natural
  · rw [unaryBody, if_neg hconvert]
    -- Only the logical negation takes its operand as a condition; the bitwise one takes a value.
    by_cases hnot : op = .not ∧ operand.kind = .boolean
    · obtain ⟨rfl, hkind⟩ := hnot
      have hpredicate : (Expr.unary k .not operand).isPredicate = true := by
        simp [Expr.isPredicate, Expr.isBoolean, hkind]
      have hrole : l.role (UnaryOp.not = .not && operand.isBoolean) = l.predicate := by
        simp [Layout.role, Expr.isBoolean, hkind]
      rw [hrole, hkind]
      split
      · next token htoken => exact .condition hpredicate (hd.negation htoken hl.predicate)
      · exact .fault hd _
    · have hpredicate : (Expr.unary k op operand).isPredicate = false := by
        cases op <;> simp_all [Expr.isPredicate, Expr.isBoolean]
      have hrole : l.role (op = .not && operand.isBoolean) = l.value := by
        have hfalse : (decide (op = .not) && operand.isBoolean) = false := by
          simpa [Expr.isBoolean] using hnot
        rw [hfalse]
        rfl
      rw [hrole]
      split
      · next token htoken => exact .value hpredicate (hd.sign hnot htoken hl.value)
      · exact .fault hd _

/-- The operators of a binary node that is written as a condition. -/
theorem isPredicate_binary (k : ValueKind) (op : BinaryOp) (left right : Expr) :
    (Expr.binary k op left right).isPredicate =
      (op.isComparison || op.isLogical (left.kind = .boolean) ||
        (op = .exclusiveOr && left.kind = .boolean)) := rfl

/-- An operator is a condition if it compares, connects or tells truth values apart. -/
theorem operatorBody_sorted (hd : d.Sorts P V) (hr' : d.Regular) (k : ValueKind) (op : BinaryOp)
    (left right : Expr) (hl : l.Sorted P V p) (hr : r.Sorted P V q) :
    (operatorBody d (.binary k op left right) op left right l r).SortedAs P V
      (Expr.binary k op left right).isPredicate := by
  have hpredicate := isPredicate_binary k op left right
  simp only [operatorBody, Expr.isBoolean]
  by_cases hlogical : op.isLogical (left.kind = .boolean)
  · -- A connective is infix and has conditions as operands.
    rw [hr'.infixed op left.kind right.kind (.inr hlogical), hlogical]
    dsimp only
    split
    · next token htoken =>
      exact .condition (by simp [hpredicate, hlogical])
        (hd.connective hlogical htoken hl.predicate hr.predicate)
    · exact .fault hd _
  · have hvalues : op.isLogical (left.kind = .boolean) = false := by simpa using hlogical
    rw [hvalues]
    by_cases hcomparison : op.isComparison
    · rw [hr'.infixed op left.kind right.kind (.inl hcomparison)]
      dsimp only
      split
      · next token htoken =>
        exact .condition (by simp [hpredicate, hcomparison])
          (hd.comparison hcomparison htoken hl.value hr.value)
      · exact .fault hd _
    · have hnot : op.isComparison = false := by simpa using hcomparison
      have htwo : ∀ s ∈ [l.role false, r.role false], V s := by
        simpa [Layout.role] using ⟨hl.value, hr.value⟩
      by_cases hxor : op = .exclusiveOr ∧ left.kind = .boolean
      · obtain ⟨rfl, hkind⟩ := hxor
        obtain ⟨tpl, htpl⟩ := Option.isSome_iff_exists.mp (hr'.exclusiveOr right.kind)
        rw [hkind, htpl]
        exact .condition (by simp [hpredicate, hkind]) (hd.test (.difference htpl) htwo)
      · have hvalue : (Expr.binary k op left right).isPredicate = false := by
          rw [hpredicate, hnot, hvalues]
          simpa using hxor
        split
        · next tpl htpl => exact .value hvalue (hd.form (.binary hxor htpl) htwo)
        · split
          · next token htoken =>
            refine .value hvalue
              (hd.arithmetic hnot hvalues (fun hop => ?_) htoken hl.value hr.value)
            simpa using fun hkind => hxor ⟨hop, hkind⟩
          · exact .fault hd _

/-- The first value that is not null is a value. -/
theorem coalesceBody_sorted (hd : d.Sorts P V) (hl : l.Sorted P V p) (hr : r.Sorted P V q) :
    V (coalesceBody d l r) := by
  unfold coalesceBody
  split
  · next tpl htpl => exact hd.form (.coalesce htpl) (by simpa using ⟨hl.value, hr.value⟩)
  · exact hd.coalesce hl.value hr.alternatives

/-- What an equality compares with null is a value, and the operator a comparison. -/
theorem comparedWithNull_sorted {op : BinaryOp} {left right : Expr} {other : Layout}
    (h : comparedWithNull op left right l r = some other) (hl : l.Sorted P V p)
    (hr : r.Sorted P V q) : V other.value ∧ op.isComparison := by
  unfold comparedWithNull at h
  split at h
  · next hop =>
    have hcomparison : op.isComparison := by rcases hop with rfl | rfl <;> rfl
    split at h
    · obtain rfl := Option.some.inj h
      exact ⟨hl.value, hcomparison⟩
    · split at h
      · obtain rfl := Option.some.inj h
        exact ⟨hr.value, hcomparison⟩
      · exact absurd h (by simp)
  · exact absurd h (by simp)

/-- A binary node is sorted as its kind and operator say: comparisons, connectives and tests are
    conditions, all others are values. -/
theorem binaryBody_sorted (hd : d.Sorts P V) (hr' : d.Regular) (k : ValueKind) (op : BinaryOp)
    (left right : Expr) (hl : l.Sorted P V p) (hr : r.Sorted P V q) :
    (binaryBody d (.binary k op left right) op left right l r).SortedAs P V
      (Expr.binary k op left right).isPredicate := by
  -- Sums, differences and alternatives are values whatever their kinds.
  have hvalue : op = .add ∨ op = .subtract ∨ op = .coalesce →
      (Expr.binary k op left right).isPredicate = false := by
    rintro (rfl | rfl | rfl) <;> rfl
  unfold binaryBody
  split
  · next other hother =>
    obtain ⟨hother, hcomparison⟩ := comparedWithNull_sorted hother hl hr
    exact .condition (by simp [isPredicate_binary, hcomparison])
      (hd.test (.nullTest op) (by simpa using hother))
  · split
    · next hadd =>
      exact .value (hvalue (.inl hadd.1))
        (hd.concat (List.forall_mem_append.mpr ⟨hl.summands, hr.summands⟩))
    · split
      · next hsubtract =>
        exact .value (hvalue (.inr (.inl hsubtract.1)))
          (hd.form .dateDiff (by simpa using ⟨hl.value, hr.value⟩))
      · split
        · next hcoalesce =>
          exact .value (hvalue (.inr (.inr hcoalesce))) (coalesceBody_sorted hd hl hr)
        · exact operatorBody_sorted hd hr' k op left right hl hr

/-- A search is a condition. -/
theorem membershipBody_sorted (hd : d.Sorts P V) (e : Expr) (ha : l.Sorted P V p)
    (hn : r.Sorted P V q) : P (membershipBody d e l r) := by
  unfold membershipBody
  split
  · next items hitems => exact hd.membership hn.value (ha.items items hitems)
  · exact (hd.fault _).1

/-- A method is a condition if it is a test. -/
theorem methodBody_sorted (hd : d.Sorts P V) (e : Expr) (m : Method) (firstIsString : Bool)
    {args : Nat} (hargs : m.signature.admits args)
    (hlen : ls.length = args + m.signature.hasReceiver.toNat)
    (h : ∀ l ∈ ls, ∃ p, l.Sorted P V p) :
    (methodBody d e m firstIsString args ls).SortedAs P V m.isTest := by
  have hvalues := forall_values h
  have hlength : (ls.map Layout.value).length = args + m.signature.hasReceiver.toNat := by
    rw [List.length_map, hlen]
  have htwo : m = .compare ∨ m = .compareTo ∨ m = .daysBetween ∨ m = .membership →
      (ls.map Layout.value).length = 2 := length_eq_two hargs hlength
  have hform : m.isTest = false → m ≠ .string .concat →
      V (formOr d e (d.method m args) (ls.map Layout.value)) := by
    intro htest hconcat
    refine formOr_sorted hd e (fun t ht => ?_) hvalues
    rw [hlength]
    exact .method htest hconcat hargs ht
  cases m with
  | compare => exact .value rfl (hd.form (htwo (by simp) ▸ .compare) hvalues)
  | compareTo => exact .value rfl (hd.form (htwo (by simp) ▸ .compare) hvalues)
  | daysBetween => exact .value rfl (hd.form (htwo (by simp) ▸ .dateDiff) hvalues)
  | membership =>
    rw [List.length_map] at htwo
    obtain ⟨array, needle, rfl⟩ := List.length_eq_two.mp (htwo (by simp))
    obtain ⟨_, ha⟩ := h array (by simp)
    obtain ⟨_, hn⟩ := h needle (by simp)
    exact .condition rfl (membershipBody_sorted hd e ha hn)
  | string m =>
    by_cases hconcat : m = .concat
    · subst hconcat
      refine .value rfl (hd.concat fun s hs => ?_)
      obtain ⟨l, hl, hs⟩ := List.mem_flatMap.mp hs
      obtain ⟨_, hsorted⟩ := h l hl
      exact hsorted.spread s hs
    · have hbody : methodBody d e (.string m) firstIsString args ls =
          formOr d e (d.method (.string m) args) (ls.map Layout.value) := by
        cases m <;> first | exact absurd rfl hconcat | rfl
      rw [hbody]
      by_cases htest : m.isTest
      · -- A test on strings has a form, or the dialect does not know it.
        cases ht : d.method (.string m) args with
        | none => exact .fault hd _
        | some t =>
          refine .condition htest (hd.test ?_ hvalues)
          rw [hlength]
          exact .search htest hargs ht
      · have hvalue : (Method.string m).isTest = false := by simpa [Method.isTest] using htest
        exact .value hvalue (hform hvalue (by simpa using hconcat))
  | toText =>
    obtain ⟨receiver, rfl⟩ := List.length_eq_one_iff.mp (length_eq_one hargs hlen)
    refine .value rfl ?_
    show V (if firstIsString then receiver.value else _)
    split
    · exact hvalues _ (by simp)
    · exact hform rfl (by simp)
  | shift | decimal | math | rounding => exact .value rfl (hform rfl (by simp))

/-- A call is a condition if the name of its method says so. -/
theorem callBody_sorted (hd : d.Sorts P V) (e : Expr) (family : Family) (name : String)
    (hasReceiver firstIsString : Bool) (args : Nat) (hlen : ls.length = args + hasReceiver.toNat)
    (h : ∀ l ∈ ls, ∃ p, l.Sorted P V p) :
    (callBody d e family name hasReceiver firstIsString args ls).SortedAs P V
      (family.isTest name) := by
  unfold callBody
  cases hm : family.method? name with
  | none => exact .fault hd _
  | some m =>
    dsimp only
    by_cases hshape : m.signature.hasReceiver = hasReceiver
    · rw [if_neg (not_ne_iff.mpr hshape)]
      by_cases hargs : m.signature.admits args
      · rw [if_pos hargs, ← Family.isTest_of_method? hm]
        exact methodBody_sorted hd e m firstIsString hargs (hshape ▸ hlen) h
      · rw [if_neg hargs]
        exact .fault hd _
    · rw [if_pos hshape]
      exact .fault hd _

/-- A conditional is a value. -/
theorem conditionalBody_sorted (hd : d.Sorts P V) (test : Expr) {p' : Bool} (ht : t.Sorted P V p)
    (hl : l.Sorted P V q) (hr : r.Sorted P V p') : V (conditionalBody d test t l r) := by
  unfold conditionalBody
  split
  · next tpl htpl => exact hd.choice htpl ht.predicate hl.value hr.value
  · split
    · exact hd.caseWhen ht.predicate hl.value hr.branches hr.otherwise
    · exact hd.form .numericCase (by simpa using ⟨ht.value, hl.value, hr.value⟩)

/-- A node is coerced where it is not what is needed. -/
theorem ofNode_sorted (hd : d.Sorts P V) {body : Sql} (hb : body.SortedAs P V p) :
    (ofNode d p body).Sorted P V p := by
  cases p with
  | false =>
    have hvalue : V (.level body) := hd.level.2 hb
    exact
      { natural := hvalue
        predicate := hd.predicateCoercion hvalue
        value := hvalue
        summands := by simpa [ofNode] using hvalue
        spread := by simpa [ofNode] using hvalue
        alternatives := by simpa [ofNode] using hvalue
        branches := by simp [ofNode]
        otherwise := hvalue
        items := fun _ hss => by cases hss }
  | true =>
    have hpredicate : P (.level body) := hd.level.1 hb
    have hvalue : V (.form d.valueCoercion [.level body]) := hd.valueCoercion hpredicate
    exact
      { natural := hpredicate
        predicate := hpredicate
        value := hvalue
        summands := by simpa [ofNode] using hvalue
        spread := by simpa [ofNode] using hvalue
        alternatives := by simpa [ofNode] using hvalue
        branches := by simp [ofNode]
        otherwise := hvalue
        items := fun _ hss => by cases hss }

end Layout

/-! ### Trees -/

namespace Expr

open Layout

variable {d : Rules} {P V : Sql → Prop}

/-- The layouts of subtrees are sorted one by one. -/
theorem layoutList_sorted {es : List Expr}
    (ih : ∀ e ∈ es, ∀ p, (e.layout d p).Sorted P V e.isPredicate) (p : Position) (i : Nat) :
    ∀ l ∈ layoutList d p i es, ∃ q, l.Sorted P V q := by
  induction es generalizing i with
  | nil => simp [layoutList]
  | cons e es ihs =>
    rw [layoutList, List.forall_mem_cons]
    exact ⟨⟨_, ih e (by simp) _⟩, ihs (fun e he => ih e (List.mem_cons_of_mem _ he)) (i + 1)⟩

/-- **Conditions and values are kept apart.** In a tree whose calls carry the kinds of their
    methods, every role has the property it should have, as long as constants and columns are
    values. -/
theorem layout_sorted (hd : d.Sorts P V) (hr : d.Regular) (hconstant : ∀ p c, V (.constant p c))
    (hcolumn : ∀ name, V (.column name)) (e : Expr) (he : ∀ n ∈ e.nodes, n.isWellKinded)
    (p : Position) : (e.layout d p).Sorted P V e.isPredicate := by
  induction e using Expr.induction generalizing p with
  | constant k c => exact ofNode_sorted hd (hconstant p c)
  | column k name family => exact ofNode_sorted hd (hcolumn name)
  | member k object name family ih =>
    have ho := ih (forall_nodes_of_mem_children he (by simp [children])) (p.child 0)
    exact ofNode_sorted hd (memberBody_sorted hd _ family name ho)
  | unary k op operand ih =>
    have ho := ih (forall_nodes_of_mem_children he (by simp [children])) (p.child 0)
    exact ofNode_sorted hd (unaryBody_sorted hd k op operand ho)
  | binary k op left right ihl ihr =>
    have hl := ihl (forall_nodes_of_mem_children he (by simp [children])) (p.child 0)
    have hright := ihr (forall_nodes_of_mem_children he (by simp [children])) (p.child 1)
    have hown := ofNode_sorted hd (binaryBody_sorted hd hr k op left right hl hright)
    -- An addition of strings and a coalescing operator replace the fields that a parent may take
    -- apart; the rest of the layout is the node's own.
    have hsummands := List.forall_mem_append.mpr ⟨hl.summands, hright.summands⟩
    simp only [layout]
    split
    · exact { hown with summands := hsummands, spread := hsummands }
    · split
      · exact { hown with alternatives := List.forall_mem_cons.mpr ⟨hl.value, hright.alternatives⟩ }
      · exact hown
  | call k family method receiver args ihr iha =>
    have hpredicate : decide (k = .boolean) = family.isTest method := by
      simpa [isWellKinded] using he _ (mem_nodes_self _)
    have hreceiver := ihr (forall_nodes_of_mem_children he (by simp [children])) (p.child 0)
    have hargs := layoutList_sorted (fun a ha => iha a ha
      (forall_nodes_of_mem_children he (List.mem_cons_of_mem _ ha))) p 1
    show Layout.Sorted _ _ (decide (k = .boolean)) _
    simp only [layout, isPredicate, hpredicate]
    exact ofNode_sorted hd (callBody_sorted hd _ family method true _ _ (by simp)
      (List.forall_mem_cons.mpr ⟨⟨_, hreceiver⟩, hargs⟩))
  | callStatic k family method args ih =>
    have hpredicate : decide (k = .boolean) = family.isTest method := by
      simpa [isWellKinded] using he _ (mem_nodes_self _)
    have hargs := layoutList_sorted (fun a ha => ih a ha (forall_nodes_of_mem_children he ha)) p 0
    show Layout.Sorted _ _ (decide (k = .boolean)) _
    simp only [layout, isPredicate, hpredicate]
    exact ofNode_sorted hd (callBody_sorted hd _ family method false _ _ (by simp) hargs)
  | conditional k test ifTrue ifFalse iht ihl ihr =>
    have ht := iht (forall_nodes_of_mem_children he (by simp [children])) (p.child 0)
    have hl := ihl (forall_nodes_of_mem_children he (by simp [children])) (p.child 1)
    have hf := ihr (forall_nodes_of_mem_children he (by simp [children])) (p.child 2)
    have hown : (ofNode d false _).Sorted P V false :=
      ofNode_sorted hd (conditionalBody_sorted hd test ht hl hf)
    show Layout.Sorted P V false _
    simp only [layout]
    split
    · exact { hown with
        branches := List.forall_mem_cons.mpr ⟨⟨ht.predicate, hl.value⟩, hf.branches⟩
        otherwise := hf.otherwise }
    · exact hown
  | construct k type args ih =>
    have hargs := layoutList_sorted (fun a ha => ih a ha (forall_nodes_of_mem_children he ha)) p 0
    refine ofNode_sorted hd (formOr_sorted hd _ (fun t ht => ?_) (forall_values hargs))
    rw [List.length_map, length_layoutList]
    exact .construct ht
  | array k items ih =>
    have hitems := layoutList_sorted (fun a ha => ih a ha (forall_nodes_of_mem_children he ha)) p 0
    -- An array has no text of its own: what is sorted is the list of its items.
    have hown : (ofNode d false (.fault (.unsupported d.name (Expr.array k items).text))).Sorted
        P V false := ofNode_sorted hd (hd.fault _).2
    exact { hown with
      items := fun ss hss => by
        obtain rfl := Option.some.inj hss
        exact forall_values hitems
      spread := fun s hs => by
        obtain ⟨l, hl, hs⟩ := List.mem_flatMap.mp hs
        obtain ⟨_, hsorted⟩ := hitems l hl
        exact hsorted.summands s hs }

end Expr

namespace Dialect

/-- In every dialect comparisons and connectives are infix, and the exclusive or of truth values has
    a template. -/
theorem regular (d : Dialect) : d.rules.Regular where
  infixed op l r := by
    have h : ∀ d ∈ all, ∀ op ∈ BinaryOp.all, ∀ l ∈ ValueKind.all, ∀ r ∈ ValueKind.all,
        op.isComparison ∨ op.isLogical (l = .boolean) → d.rules.binary op l r = none := by
      decide +kernel
    exact h d d.mem_all op op.mem_all l l.mem_all r r.mem_all
  exclusiveOr r := by cases d <;> rfl

end Dialect

end WhereClause
