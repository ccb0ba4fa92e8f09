import Mathlib.Data.List.Forall2
import WhereClause.Layout
import WhereClause.Proofs.Places

namespace WhereClause

/-!
# What a layout is made of

A layout chooses a form for every node of a tree, and the forms come from the rules of the dialect.
Which form is chosen depends on a constant only in so far as it is null. Two trees that are alike
up to the values of their constants are therefore laid out in the same forms, and a relation between
expressions that every form respects holds between the two layouts in all roles. A property of
expressions is the case where both trees are the same. The two trees may also be laid out by
different rules, as long as these agree in all forms but those of properties.

* `Expr.Alike`, `Expr.SameHead` — two trees, or two nodes, that differ in their constants only;
* `Rules.Uses` — the templates that the rules fill, with the number of operands each is given;
* `Rules.Preserves`, `Rules.Respects` — a relation between expressions that every form respects,
  with what is known of faults apart;
* `Rules.Agrees` — two rules that differ in no form but those of properties;
* `Expr.layout_node_related` — such a relation passes from the children of two nodes to the nodes;
* `Expr.layout_related_places` — so it holds in all roles of a tree that stands at two places;
* `Expr.layout_related_at` — and it holds in all roles of two trees that are alike, at two places
  and under two rules that agree;
* `Expr.layout_related_of_agrees`, `Expr.layout_related` — the same at one place, or by one rule.
-/

namespace Expr

/-- Two trees that are the same except for their constants, which are related one by one. -/
inductive Alike (R : Constant → Constant → Prop) : Expr → Expr → Prop
  | constant {k c c'} : R c c' → Alike R (.constant k c) (.constant k c')
  | column {k name family} : Alike R (.column k name family) (.column k name family)
  | member {k o o' name family} : Alike R o o' →
      Alike R (.member k o name family) (.member k o' name family)
  | unary {k op o o'} : Alike R o o' → Alike R (.unary k op o) (.unary k op o')
  | binary {k op l l' r r'} : Alike R l l' → Alike R r r' →
      Alike R (.binary k op l r) (.binary k op l' r')
  | call {k family method o o' args args'} : Alike R o o' → List.Forall₂ (Alike R) args args' →
      Alike R (.call k family method o args) (.call k family method o' args')
  | callStatic {k family method args args'} : List.Forall₂ (Alike R) args args' →
      Alike R (.callStatic k family method args) (.callStatic k family method args')
  | conditional {k t t' l l' r r'} : Alike R t t' → Alike R l l' → Alike R r r' →
      Alike R (.conditional k t l r) (.conditional k t' l' r')
  | construct {k type args args'} : List.Forall₂ (Alike R) args args' →
      Alike R (.construct k type args) (.construct k type args')
  | array {k items items'} : List.Forall₂ (Alike R) items items' →
      Alike R (.array k items) (.array k items')

variable {R : Constant → Constant → Prop} {e e' : Expr}

/-- A tree is like itself. -/
theorem alike_refl (hR : ∀ c, R c c) (e : Expr) : Alike R e e := by
  have hlist : ∀ {es : List Expr}, (∀ e ∈ es, Alike R e e) → List.Forall₂ (Alike R) es es :=
    List.forall₂_same.mpr
  induction e using Expr.induction with
  | constant k c => exact .constant (hR c)
  | column => exact .column
  | member _ _ _ _ ih => exact .member ih
  | unary _ _ _ ih => exact .unary ih
  | binary _ _ _ _ ihl ihr => exact .binary ihl ihr
  | call _ _ _ _ _ ihr iha => exact .call ihr (hlist iha)
  | callStatic _ _ _ _ ih => exact .callStatic (hlist ih)
  | conditional _ _ _ _ iht ihl ihr => exact .conditional iht ihl ihr
  | construct _ _ _ ih => exact .construct (hlist ih)
  | array _ _ ih => exact .array (hlist ih)

/-- Two trees that look the same to the node above them. -/
structure Similar (e e' : Expr) : Prop where
  kind : e.kind = e'.kind
  isPredicate : e.isPredicate = e'.isPredicate
  isNullConstant : e.isNullConstant = e'.isNullConstant

/-- A tree is similar to itself. -/
theorem similar_refl (e : Expr) : Similar e e := ⟨rfl, rfl, rfl⟩

/-- Similar trees are both conditions or neither. -/
theorem Similar.isBoolean (h : Similar e e') : e.isBoolean = e'.isBoolean := by
  simp only [Expr.isBoolean, h.kind]

/-- Similar trees are both texts or neither. -/
theorem Similar.isString (h : Similar e e') : e.isString = e'.isString := by
  simp only [Expr.isString, h.kind]

/-- Two nodes that differ at most in what stands below them, and in the value of a constant. -/
inductive SameHead (R : Constant → Constant → Prop) : Expr → Expr → Prop
  | constant {k c c'} : R c c' → SameHead R (.constant k c) (.constant k c')
  | column {k name family} : SameHead R (.column k name family) (.column k name family)
  | member {k o o' name family} : SameHead R (.member k o name family) (.member k o' name family)
  | unary {k op o o'} : SameHead R (.unary k op o) (.unary k op o')
  | binary {k op l l' r r'} : SameHead R (.binary k op l r) (.binary k op l' r')
  | call {k family method o o' args args'} : args.length = args'.length →
      SameHead R (.call k family method o args) (.call k family method o' args')
  | callStatic {k family method args args'} : args.length = args'.length →
      SameHead R (.callStatic k family method args) (.callStatic k family method args')
  | conditional {k t t' l l' r r'} : SameHead R (.conditional k t l r) (.conditional k t' l' r')
  | construct {k type args args'} : args.length = args'.length →
      SameHead R (.construct k type args) (.construct k type args')
  | array {k items items'} : items.length = items'.length →
      SameHead R (.array k items) (.array k items')

/-- Trees that are alike have the same root, up to what the relation allows. -/
theorem Alike.sameHead (h : Alike R e e') : SameHead R e e' := by
  cases h with
  | constant hc => exact .constant hc
  | column => exact .column
  | member => exact .member
  | unary => exact .unary
  | binary => exact .binary
  | call _ hargs => exact .call hargs.length_eq
  | callStatic hargs => exact .callStatic hargs.length_eq
  | conditional => exact .conditional
  | construct hargs => exact .construct hargs.length_eq
  | array hitems => exact .array hitems.length_eq

/-- Trees that are alike have subtrees that are, one by one. -/
theorem Alike.children (h : Alike R e e') : List.Forall₂ (Alike R) e.children e'.children := by
  cases h with
  | constant | column => exact .nil
  | member ho => exact .cons ho .nil
  | unary ho => exact .cons ho .nil
  | binary hl hr => exact .cons hl (.cons hr .nil)
  | call ho hargs => exact .cons ho hargs
  | callStatic hargs => exact hargs
  | conditional ht hl hr => exact .cons ht (.cons hl (.cons hr .nil))
  | construct hargs => exact hargs
  | array hitems => exact hitems

/-- Two children that stand at the same number below two nodes. -/
def Opposite (e e' : Expr) (i : Nat) (c c' : Expr) : Prop :=
  e.children[i]? = some c ∧ e'.children[i]? = some c'

/-- Subtrees at the same place are alike. -/
theorem Alike.of_opposite (h : Alike R e e') {i : Nat} {c c' : Expr} (hc : Opposite e e' i c c') :
    Alike R c c' := by
  obtain ⟨hi, hget⟩ := List.getElem?_eq_some_iff.mp hc.1
  obtain ⟨hi', hget'⟩ := List.getElem?_eq_some_iff.mp hc.2
  rw [← hget, ← hget']
  exact h.children.get hi hi'

/-- Nodes with the same head look the same from above if their children do. -/
theorem SameHead.similar (hR : ∀ c c', R c c' → c.value.isNull = c'.value.isNull)
    (h : SameHead R e e') (hchildren : ∀ i c c', Opposite e e' i c c' → Similar c c') :
    Similar e e' := by
  cases h with
  | constant hc => exact ⟨rfl, rfl, hR _ _ hc⟩
  | @unary k op o o' =>
    have ho := hchildren 0 o o' ⟨rfl, rfl⟩
    refine ⟨rfl, ?_, rfl⟩
    cases op <;> simp [Expr.isPredicate, ho.isBoolean, ho.isPredicate]
  | @binary k op l l' r r' =>
    have hl := hchildren 0 l l' ⟨rfl, rfl⟩
    exact ⟨rfl, by simp [Expr.isPredicate, hl.isBoolean], rfl⟩
  | column | member | call | callStatic | conditional | construct | array => exact ⟨rfl, rfl, rfl⟩

/-- A sum of strings, which is written as one concatenation with the sums in it. -/
def isSum : Expr → Bool
  | binary k op _ _ => op = .add && k = .string
  | _ => false

/-- A call of the method that concatenates its arguments. -/
def isConcatCall : Expr → Bool
  | callStatic _ family method _ => family.method? method = some (.string .concat)
  | _ => false

end Expr

/-! ### Relations that the forms respect -/

namespace Signature

/-- A method with bounds on both sides takes a number of arguments between them. -/
theorem admits_fixed {b : Bool} {least most n : Nat} :
    (Signature.mk b least (some most)).admits n ↔ least ≤ n ∧ n ≤ most := by
  simp [admits]

end Signature

namespace Rules

/-- The templates that are filled under given rules, each with the number of its operands. A method
    comes with a number of arguments that its shape admits; concatenations have no template. -/
inductive Uses (d : Rules) : Template → Nat → Prop
  | property {p t} : d.property p = some t → Uses d t 1
  | method {m n t} : m ≠ .string .concat → m.signature.admits n → d.method m n = some t →
      Uses d t (n + m.signature.hasReceiver.toNat)
  | binary {op l r t} : d.binary op l r = some t → Uses d t 2
  | construct {type n t} : d.construct type n = some t → Uses d t n
  | dateDiff : Uses d d.dateDiff 2
  | compare : Uses d d.compare 2
  | valueCoercion : Uses d d.valueCoercion 1
  | predicateCoercion : Uses d d.predicateCoercion 1
  | coalesce {t} : d.coalesce = .nested t → Uses d t 2
  | conditional {t} : d.conditional = .nested t → Uses d t 3
  | nullTest (op) : Uses d (Layout.nullTest op) 1
  | numericCase : Uses d ["(case ", 0, " when 0 then ", 2, " else ", 1, " end)"] 3

/-- A relation between expressions that passes from the parts of every form of the rules to the
    form. -/
structure Preserves (d : Rules) (Q : Sql → Sql → Prop) : Prop where
  form : ∀ {t ss ss'}, d.Uses t ss.length → List.Forall₂ Q ss ss' → Q (.form t ss) (.form t ss')
  prefixed : ∀ {op kind token s s'}, d.unary op kind = some token → Q s s' →
    Q (.prefixed token s) (.prefixed token s')
  infixed : ∀ {op b token l l' r r'}, d.operator op b = some token → Q l l' → Q r r' →
    Q (.infixed token l r) (.infixed token l' r')
  concat : ∀ {ss ss'}, List.Forall₂ Q ss ss' → Q (.concat d.concat ss) (.concat d.concat ss')
  coalesce : ∀ {ss ss'}, List.Forall₂ Q ss ss' → Q (.coalesce ss) (.coalesce ss')
  inList : ∀ {n n' ss ss'}, Q n n' → List.Forall₂ Q ss ss' → Q (.inList n ss) (.inList n' ss')
  caseWhen : ∀ {bs bs' o o'}, List.Forall₂ (fun b b' => Q b.1 b'.1 ∧ Q b.2 b'.2) bs bs' → Q o o' →
    Q (.caseWhen bs o) (.caseWhen bs' o')
  level : ∀ {s s'}, Q s s' → Q (.level s) (.level s')

/-- A relation between expressions that every form of the rules respects, and that faults do not
    break. -/
structure Respects (d : Rules) (Q : Sql → Sql → Prop) : Prop extends Preserves d Q where
  fault : ∀ e e', Q (.fault e) (.fault e')

/-- The faults that two nodes have in the same case are related. -/
structure FaultsRelated (Q : Sql → Sql → Prop) (d d' : Rules) (e e' : Expr) : Prop where
  unsupported : Q (.fault (.unsupported d.name e.text)) (.fault (.unsupported d'.name e'.text))
  malformed : ∀ cause, Q (.fault (.malformed cause)) (.fault (.malformed cause))

/-- Faults are related in a dialect whose rules respect the relation. -/
theorem Respects.faultsRelated {d : Rules} {Q : Sql → Sql → Prop} (hd : d.Respects Q) (d' : Rules)
    (e e' : Expr) : FaultsRelated Q d d' e e' :=
  ⟨hd.fault _ _, fun _ => hd.fault _ _⟩

/-- Two rules that have the same forms, except perhaps for properties of values. -/
structure Agrees (d d' : Rules) : Prop where
  method : d'.method = d.method
  binary : d'.binary = d.binary
  operator : d'.operator = d.operator
  unary : d'.unary = d.unary
  construct : d'.construct = d.construct
  dateDiff : d'.dateDiff = d.dateDiff
  compare : d'.compare = d.compare
  valueCoercion : d'.valueCoercion = d.valueCoercion
  predicateCoercion : d'.predicateCoercion = d.predicateCoercion
  concat : d'.concat = d.concat
  coalesce : d'.coalesce = d.coalesce
  conditional : d'.conditional = d.conditional

/-- A dialect agrees with itself. -/
theorem agrees_refl (d : Rules) : d.Agrees d := by
  constructor <;> rfl

/-- Two rules have forms for a property that keep a relation, or have both none. -/
def PropertyRelated (Q : Sql → Sql → Prop) (d d' : Rules) (p : Property) : Prop :=
  Option.Rel (fun t t' => ∀ s s', Q s s' → Q (.form t [s]) (.form t' [s'])) (d.property p)
    (d'.property p)

/-- Under the same rules every property has a form that keeps the relation, or has none. -/
theorem Preserves.propertyRelated {d : Rules} {Q : Sql → Sql → Prop} (hd : d.Preserves Q)
    (p : Property) : PropertyRelated Q d d p := by
  unfold PropertyRelated
  cases hp : d.property p with
  | none => exact .none
  | some t => exact .some fun _ _ hs => hd.form (.property hp) (.cons hs .nil)

end Rules

namespace Layout

/-- A relation holds between two nodes in the roles of a whole expression, and also as parts of a
    concatenation or as an argument of one if this is asked for. -/
structure Related (asParts asArgument : Prop) (Q : Sql → Sql → Prop) (l l' : Layout) : Prop where
  natural : Q l.natural l'.natural
  predicate : Q l.predicate l'.predicate
  value : Q l.value l'.value
  summands : asParts → List.Forall₂ Q l.summands l'.summands
  spread : asArgument → List.Forall₂ Q l.spread l'.spread
  alternatives : List.Forall₂ Q l.alternatives l'.alternatives
  branches : List.Forall₂ (fun b b' => Q b.1 b'.1 ∧ Q b.2 b'.2) l.branches l'.branches
  otherwise : Q l.otherwise l'.otherwise
  items : Option.Rel (List.Forall₂ Q) l.items l'.items

variable {d d' : Rules} {Q : Sql → Sql → Prop} {e e' left left' right right' : Expr}
  {l l' r r' t t' : Layout} {asParts asArgument asParts' asArgument' asParts'' asArgument'' : Prop}

/-- Less is asked where parts or arguments are not taken up. -/
theorem Related.mono (h : Related asParts asArgument Q l l') (hparts : asParts' → asParts)
    (hargument : asArgument' → asArgument) : Related asParts' asArgument' Q l l' :=
  { h with
    summands := fun hs => h.summands (hparts hs)
    spread := fun hs => h.spread (hargument hs) }

/-- Related nodes are related as conditions and as values. -/
theorem Related.role (h : Related asParts asArgument Q l l') (asPredicate : Bool) :
    Q (l.role asPredicate) (l'.role asPredicate) := by
  unfold Layout.role
  split
  · exact h.predicate
  · exact h.value

/-- The values of related operands are related. -/
theorem Related.values {ls ls' : List Layout}
    (h : List.Forall₂ (Related asParts asArgument Q) ls ls') :
    List.Forall₂ Q (ls.map Layout.value) (ls'.map Layout.value) :=
  List.rel_map (fun _ _ hl => hl.value) h

/-! ### Bodies of nodes -/

/-- A form on both sides, or a fault on both. -/
theorem formOr_related (hd : d.Preserves Q) (hf : Rules.FaultsRelated Q d d' e e')
    {template : Option Template} {ss ss' : List Sql}
    (hu : ∀ t, template = some t → d.Uses t ss.length) (hs : List.Forall₂ Q ss ss') :
    Q (formOr d e template ss) (formOr d' e' template ss') := by
  cases template with
  | none => exact hf.unsupported
  | some t => exact hd.form (hu t rfl) hs

/-- Properties of related values. -/
theorem memberBody_related (hf : Rules.FaultsRelated Q d d' e e') {family : Family} {name : String}
    (hp : ∀ p, family.property? name = some p → Rules.PropertyRelated Q d d' p)
    (h : Related asParts asArgument Q l l') :
    Q (memberBody d e family name l) (memberBody d' e' family name l') := by
  unfold memberBody
  cases hname : family.property? name with
  | none => exact hf.unsupported
  | some p =>
    -- The two dialects may spell the property differently, but both have it or neither has.
    have hforms := hp p hname
    simp only [formOr]
    revert hforms
    unfold Rules.PropertyRelated
    generalize d.property p = template
    generalize d'.property p = template'
    rintro (ht | _)
    · exact ht _ _ h.value
    · exact hf.unsupported

/-- Unary operators on related operands of one kind. -/
theorem unaryBody_related (hd : d.Preserves Q) (ha : d.Agrees d')
    (hf : Rules.FaultsRelated Q d d' e e') (op : UnaryOp)
    (hk : left.kind = left'.kind) (h : Related asParts asArgument Q l l') :
    Q (unaryBody d e op left l) (unaryBody d' e' op left' l') := by
  simp only [unaryBody, Expr.isBoolean, ← hk, ha.unary]
  split
  · exact h.natural
  · split
    · next token htoken => exact hd.prefixed htoken (h.role _)
    · exact hf.unsupported

/-- Binary operators on related operands of the same kinds. -/
theorem operatorBody_related (hd : d.Preserves Q) (ha : d.Agrees d')
    (hf : Rules.FaultsRelated Q d d' e e') (op : BinaryOp)
    (hkl : left.kind = left'.kind) (hkr : right.kind = right'.kind)
    (hl : Related asParts asArgument Q l l') (hr : Related asParts' asArgument' Q r r') :
    Q (operatorBody d e op left right l r) (operatorBody d' e' op left' right' l' r') := by
  simp only [operatorBody, Expr.isBoolean, ← hkl, ← hkr, ha.binary, ha.operator]
  split
  · next t ht => exact hd.form (.binary ht) (.cons (hl.role _) (.cons (hr.role _) .nil))
  · split
    · next token htoken => exact hd.infixed htoken (hl.role _) (hr.role _)
    · exact hf.unsupported

/-- A choice of the first value that is not null, among related ones. -/
theorem coalesceBody_related (hd : d.Preserves Q) (ha : d.Agrees d')
    (hl : Related asParts asArgument Q l l') (hr : Related asParts' asArgument' Q r r') :
    Q (coalesceBody d l r) (coalesceBody d' l' r') := by
  simp only [coalesceBody, ha.coalesce]
  split
  · next t ht => exact hd.form (.coalesce ht) (.cons hl.value (.cons hr.value .nil))
  · exact hd.coalesce (.cons hl.value hr.alternatives)

/-- Two equalities compare with null on the same side, or both do not. -/
theorem comparedWithNull_related (op : BinaryOp)
    (hnl : left.isNullConstant = left'.isNullConstant)
    (hnr : right.isNullConstant = right'.isNullConstant)
    (hl : Related asParts asArgument Q l l') (hr : Related asParts asArgument Q r r') :
    Option.Rel (Related asParts asArgument Q) (comparedWithNull op left right l r)
      (comparedWithNull op left' right' l' r') := by
  simp only [comparedWithNull, ← hnl, ← hnr]
  split
  · split
    · exact .some hl
    · split
      · exact .some hr
      · exact .none
  · exact .none

/-- A binary node is read in the same way on both sides, since this depends on kinds and nulls only.
    -/
theorem binaryBody_related (hd : d.Preserves Q) (ha : d.Agrees d')
    (hf : Rules.FaultsRelated Q d d' e e') (op : BinaryOp)
    (hk : e.kind = e'.kind) (hl' : left.Similar left') (hr' : right.Similar right')
    (hl : Related asParts asArgument Q l l') (hr : Related asParts asArgument Q r r')
    (hsum : op = .add ∧ e.kind = .string → asParts) :
    Q (binaryBody d e op left right l r) (binaryBody d' e' op left' right' l' r') := by
  have hnull := comparedWithNull_related op hl'.isNullConstant hr'.isNullConstant hl hr
  simp only [binaryBody, ← hk, ← hl'.kind, ← hr'.kind, ha.concat, ha.dateDiff]
  -- From here on only the outcome of the test for null counts, which is the same for both.
  revert hnull
  generalize comparedWithNull op left right l r = other
  generalize comparedWithNull op left' right' l' r' = other'
  rintro (ho | _)
  · exact hd.form (.nullTest op) (.cons ho.value .nil)
  · dsimp only
    split
    · next h => exact hd.concat (List.rel_append (hl.summands (hsum h)) (hr.summands (hsum h)))
    · split
      · exact hd.form .dateDiff (.cons hl.value (.cons hr.value .nil))
      · split
        · exact coalesceBody_related hd ha hl hr
        · exact operatorBody_related hd ha hf op hl'.kind hr'.kind hl hr

/-- A search in related arrays, or a fault if there is no array. -/
theorem membershipBody_related (hd : d.Preserves Q) (hf : Rules.FaultsRelated Q d d' e e')
    (ha : Related asParts asArgument Q l l') (hn : Related asParts asArgument Q r r') :
    Q (membershipBody d e l r) (membershipBody d' e' l' r') := by
  have hitems := ha.items
  unfold membershipBody
  revert hitems
  generalize l.items = items
  generalize l'.items = items'
  rintro (hs | _)
  · exact hd.inList hn.value hs
  · exact hf.unsupported

/-- Comparisons and the days between two dates have two operands, with or without a receiver. -/
theorem length_eq_two {m : Method} {args n : Nat} (hargs : m.signature.admits args)
    (hlen : n = args + m.signature.hasReceiver.toNat)
    (hm : m = .compare ∨ m = .compareTo ∨ m = .daysBetween ∨ m = .membership) : n = 2 := by
  rcases hm with rfl | rfl | rfl | rfl
  all_goals
    have hfixed := Signature.admits_fixed.mp hargs
    simp only [Method.signature, Method.standalone, Method.onReceiver] at hfixed hlen
    simp only [Bool.toNat_false, Bool.toNat_true] at hlen
    omega

/-- A conversion to text has nothing but its receiver. -/
theorem length_eq_one {args n : Nat} (hargs : Method.toText.signature.admits args)
    (hlen : n = args + Method.toText.signature.hasReceiver.toNat) : n = 1 := by
  have hfixed := Signature.admits_fixed.mp hargs
  simp only [Method.signature, Method.onReceiver, Bool.toNat_true] at hfixed hlen
  omega

/-- A method with as many operands as it takes, on both sides. -/
theorem methodBody_related (hd : d.Preserves Q) (ha : d.Agrees d')
    (hf : Rules.FaultsRelated Q d d' e e') (m : Method)
    (firstIsString : Bool) {args : Nat} {ls ls' : List Layout} (hargs : m.signature.admits args)
    (hlen : ls.length = args + m.signature.hasReceiver.toNat)
    (h : List.Forall₂ (Related asParts asArgument Q) ls ls')
    (hconcat : m = .string .concat → asArgument) :
    Q (methodBody d e m firstIsString args ls) (methodBody d' e' m firstIsString args ls') := by
  have hvalues := Related.values h
  have hlength : (ls.map Layout.value).length = args + m.signature.hasReceiver.toNat := by
    rw [List.length_map, hlen]
  have htwo : m = .compare ∨ m = .compareTo ∨ m = .daysBetween ∨ m = .membership →
      (ls.map Layout.value).length = 2 := length_eq_two hargs hlength
  -- Without a form of its own, a method has a template with exactly its operands.
  have hform : m ≠ .string .concat →
      Q (formOr d e (d.method m args) (ls.map Layout.value))
        (formOr d' e' (d'.method m args) (ls'.map Layout.value)) := by
    intro hm
    rw [ha.method]
    refine formOr_related hd hf (fun t ht => ?_) hvalues
    rw [hlength]
    exact .method hm hargs ht
  cases m with
  | compare | compareTo =>
    simp only [methodBody, ha.compare]
    exact hd.form (htwo (by simp) ▸ .compare) hvalues
  | daysBetween =>
    simp only [methodBody, ha.dateDiff]
    exact hd.form (htwo (by simp) ▸ .dateDiff) hvalues
  | string m =>
    by_cases hm : m = .concat
    · subst hm
      simp only [methodBody, ha.concat]
      exact hd.concat (List.rel_flatMap h (fun _ _ hl => hl.spread (hconcat rfl)))
    · cases m <;> first | exact absurd rfl hm | exact hform (by simp)
  | membership =>
    rw [List.length_map] at htwo
    obtain ⟨array, needle, rfl⟩ := List.length_eq_two.mp (htwo (by simp))
    obtain ⟨array', needle', rfl⟩ := List.length_eq_two.mp (h.length_eq ▸ htwo (by simp))
    rcases h with _ | ⟨harray, _ | ⟨hneedle, -⟩⟩
    exact membershipBody_related hd hf harray hneedle
  | toText =>
    obtain ⟨receiver, rfl⟩ := List.length_eq_one_iff.mp (length_eq_one hargs hlen)
    obtain ⟨receiver', rfl⟩ :=
      List.length_eq_one_iff.mp (h.length_eq ▸ length_eq_one hargs hlen)
    rcases h with _ | ⟨hr, -⟩
    simp only [methodBody]
    split
    · exact hr.value
    · exact hform (by simp)
  | shift | decimal | math | rounding => exact hform (by simp)

/-- A call of the same name with related operands. -/
theorem callBody_related (hd : d.Preserves Q) (ha : d.Agrees d')
    (hf : Rules.FaultsRelated Q d d' e e') (family : Family) (name : String)
    (hasReceiver firstIsString : Bool) (args : Nat) {ls ls' : List Layout}
    (hlen : ls.length = args + hasReceiver.toNat)
    (h : List.Forall₂ (Related asParts asArgument Q) ls ls')
    (hconcat : hasReceiver = false → family.method? name = some (.string .concat) → asArgument) :
    Q (callBody d e family name hasReceiver firstIsString args ls)
      (callBody d' e' family name hasReceiver firstIsString args ls') := by
  unfold callBody
  cases hm : family.method? name with
  | none => exact hf.unsupported
  | some m =>
    dsimp only
    split
    · exact hf.malformed _
    · next hshape =>
      split
      · next hargs =>
        have hsame : m.signature.hasReceiver = hasReceiver := not_ne_iff.mp hshape
        refine methodBody_related hd ha hf m firstIsString hargs (hsame ▸ hlen) h ?_
        rintro rfl
        exact hconcat hsame.symm hm
      · exact hf.malformed _

/-- Conditionals whose tests are of one kind. -/
theorem conditionalBody_related (hd : d.Preserves Q) (ha : d.Agrees d')
    (hk : left.kind = left'.kind) (ht : Related asParts asArgument Q t t')
    (hl : Related asParts' asArgument' Q l l') (hr : Related asParts'' asArgument'' Q r r') :
    Q (conditionalBody d left t l r) (conditionalBody d' left' t' l' r') := by
  -- A boolean test continues the chain of the last operand; any other test is compared with zero in
  -- a form of its own.
  have hcase : Q (.caseWhen ((t.predicate, l.value) :: r.branches) r.otherwise)
      (.caseWhen ((t'.predicate, l'.value) :: r'.branches) r'.otherwise) :=
    hd.caseWhen (.cons ⟨ht.predicate, hl.value⟩ hr.branches) hr.otherwise
  simp only [conditionalBody, Expr.isBoolean, ← hk, ha.conditional]
  split
  · next tpl htpl =>
    exact hd.form (.conditional htpl) (.cons ht.predicate (.cons hl.value (.cons hr.value .nil)))
  · by_cases hb : left.kind = .boolean
    · simpa only [hb, decide_true, if_true] using hcase
    · simpa [hb] using hd.form .numericCase (.cons ht.value (.cons hl.value (.cons hr.value .nil)))

/-- A node has its own form in every role, with a coercion where that is needed. -/
theorem ofNode_related (hd : d.Preserves Q) (ha : d.Agrees d') (isPredicate : Bool)
    {body body' : Sql} (h : Q body body') :
    Related asParts asArgument Q (ofNode d isPredicate body) (ofNode d' isPredicate body') := by
  have hnatural : Q (.level body) (.level body') := hd.level h
  simp only [ofNode, ha.predicateCoercion, ha.valueCoercion]
  cases isPredicate with
  | false =>
    exact
      { natural := hnatural
        predicate := hd.form .predicateCoercion (.cons hnatural .nil)
        value := hnatural
        summands := fun _ => .cons hnatural .nil
        spread := fun _ => .cons hnatural .nil
        alternatives := .cons hnatural .nil
        branches := .nil
        otherwise := hnatural
        items := .none }
  | true =>
    have hvalue := hd.form .valueCoercion (.cons hnatural .nil)
    exact
      { natural := hnatural
        predicate := hnatural
        value := hvalue
        summands := fun _ => .cons hvalue .nil
        spread := fun _ => .cons hvalue .nil
        alternatives := .cons hvalue .nil
        branches := .nil
        otherwise := hvalue
        items := .none }

end Layout

/-! ### Roles of trees -/

namespace Expr

open Layout

/-- Every tree of a list is laid out. -/
@[simp] theorem length_layoutList (d : Rules) (p : Position) (i : Nat) (es : List Expr) :
    (layoutList d p i es).length = es.length := by
  induction es generalizing i with
  | nil => rfl
  | cons e es ih => simp [layoutList, ih]

/-- The property that a node takes of its object, if it is a known one. -/
def property? : Expr → Option Property
  | member _ _ name family => family.property? name
  | _ => none

/-- The layouts of two rows of subtrees are related if those at the same number are. -/
theorem layoutList_related {P : Layout → Layout → Prop} {d d' : Rules} {p p' : Position}
    {es es' : List Expr} (hlength : es.length = es'.length) (i : Nat)
    (h : ∀ (j : Nat) (c c' : Expr), es[j]? = some c → es'[j]? = some c' →
      P (c.layout d (p.child (i + j))) (c'.layout d' (p'.child (i + j)))) :
    List.Forall₂ P (layoutList d p i es) (layoutList d' p' i es') := by
  induction es generalizing es' i with
  | nil =>
    obtain rfl := List.length_eq_zero_iff.mp hlength.symm
    exact .nil
  | cons e es ih =>
    cases es' with
    | nil => simp at hlength
    | cons e' es' =>
      refine .cons (h 0 e e' rfl rfl) (ih (Nat.succ.inj hlength) (i + 1) fun j c c' hc hc' => ?_)
      -- The tail begins one child later.
      have hj := h (j + 1) c c' hc hc'
      rwa [show i + (j + 1) = i + 1 + j by omega] at hj

/-- As it is, every node is one level down. -/
theorem exists_natural_eq (d : Rules) (p : Position) (e : Expr) :
    ∃ body, (e.layout d p).natural = .level body := by
  cases e with
  | binary | conditional =>
    simp only [layout]
    split_ifs <;> exact ⟨_, rfl⟩
  | _ => exact ⟨_, rfl⟩

/-- A condition is written as it is where one is needed, and anything else with a coercion. -/
theorem predicate_eq (d : Rules) (p : Position) (e : Expr) :
    e.predicate d p = if e.isPredicate then (e.layout d p).natural
      else .form d.predicateCoercion [(e.layout d p).natural] := by
  cases e with
  | binary | conditional =>
    simp only [predicate, layout]
    split_ifs <;> simp_all [ofNode, isPredicate]
  | _ => rfl

/-- A condition is written with a coercion where a value is needed, and anything else as it is. -/
theorem value_eq (d : Rules) (p : Position) (e : Expr) :
    e.value d p = if e.isPredicate then .form d.valueCoercion [(e.layout d p).natural]
      else (e.layout d p).natural := by
  cases e with
  | binary | conditional =>
    simp only [value, layout]
    split_ifs <;> simp_all [ofNode, isPredicate]
  | _ => rfl

section Nodes

variable {R : Constant → Constant → Prop} {Q : Sql → Sql → Prop} {d d' : Rules} {e e' : Expr}
  {p p' : Position} {asArgument : Prop}

/-- **One node.** If the children of two nodes with the same head are related, so are the nodes. The
    children of a sum have to be related also as parts of a concatenation, and those of a call that
    concatenates also as its arguments. An array is related as an argument only if its items are
    related as parts. -/
theorem layout_node_related (hd : d.Preserves Q) (ha : d.Agrees d')
    (hf : Rules.FaultsRelated Q d d' e e') (h : SameHead R e e')
    (hconstant : ∀ c c', R c c' →
      c.value.isNull = c'.value.isNull ∧ Q (.constant p c) (.constant p' c'))
    (hcolumn : ∀ k name family, e = .column k name family → Q (.column name) (.column name))
    (hproperty : ∀ q, e.property? = some q → Rules.PropertyRelated Q d d' q)
    (hchildren : ∀ i c c', Opposite e e' i c c' → Similar c c' ∧
      Related (e.isSum ∨ (e.isArray ∧ asArgument)) e.isConcatCall Q (c.layout d (p.child i))
        (c'.layout d' (p'.child i))) :
    Similar e e' ∧ Related True asArgument Q (e.layout d p) (e'.layout d' p') := by
  have hsimilar := h.similar (fun c c' hc => (hconstant c c' hc).1)
    (fun i c c' hc => (hchildren i c c' hc).1)
  have hsame := hsimilar.isPredicate
  have hrow : ∀ {es es' : List Expr} (i : Nat), es.length = es'.length →
      (∀ (j : Nat) (c c' : Expr), es[j]? = some c → es'[j]? = some c' →
        Opposite e e' (i + j) c c') →
      List.Forall₂ (Related (e.isSum ∨ (e.isArray ∧ asArgument)) e.isConcatCall Q)
        (layoutList d p i es) (layoutList d' p' i es') := fun i hlength hopposite =>
    layoutList_related hlength i fun j c c' hc hc' => (hchildren _ c c' (hopposite j c c' hc hc')).2
  refine ⟨hsimilar, ?_⟩
  cases h with
  | constant hc => exact ofNode_related hd ha _ (hconstant _ _ hc).2
  | @column k name family => exact ofNode_related hd ha _ (hcolumn k name family rfl)
  | @member k o o' name family =>
    obtain ⟨-, ho⟩ := hchildren 0 o o' ⟨rfl, rfl⟩
    exact ofNode_related hd ha _ (memberBody_related hf hproperty ho)
  | @unary k op o o' =>
    obtain ⟨hkind, ho⟩ := hchildren 0 o o' ⟨rfl, rfl⟩
    simp only [layout, ← hsame]
    exact ofNode_related hd ha _ (unaryBody_related hd ha hf op hkind.kind ho)
  | @binary k op left left' right right' =>
    obtain ⟨hleft, hl⟩ := hchildren 0 left left' ⟨rfl, rfl⟩
    obtain ⟨hright, hr⟩ := hchildren 1 right right' ⟨rfl, rfl⟩
    have hparts : op = .add ∧ k = .string → (Expr.binary k op left right).isSum := by
      rintro ⟨rfl, rfl⟩
      rfl
    have hkind : (Expr.binary k op left right).kind = (Expr.binary k op left' right').kind := rfl
    have hown : Related True asArgument Q _ _ := ofNode_related hd ha
      (Expr.binary k op left right).isPredicate
      (binaryBody_related hd ha hf op hkind hleft hright hl hr fun hsum => .inl (hparts hsum))
    -- A sum of strings and a choice of the first value also offer their parts to the parent.
    simp only [layout, ← hsame]
    split
    · next hsum =>
      have hsummands := List.rel_append (hl.summands (.inl (hparts hsum)))
        (hr.summands (.inl (hparts hsum)))
      exact { hown with summands := fun _ => hsummands, spread := fun _ => hsummands }
    · split
      · exact { hown with alternatives := .cons hl.value hr.alternatives }
      · exact hown
  | @call k family method o o' args args' hlength =>
    obtain ⟨hkind, ho⟩ := hchildren 0 o o' ⟨rfl, rfl⟩
    have hargs := hrow 1 hlength fun j c c' hc hc' => by
      rw [Nat.add_comm]
      exact ⟨hc, hc'⟩
    simp only [layout, ← hsame, ← hkind.isString, ← hlength]
    exact ofNode_related hd ha _ (callBody_related hd ha hf family method true _ _ (by simp)
      (.cons ho hargs) (by simp))
  | @callStatic k family method args args' hlength =>
    have hargs := hrow 0 hlength fun j c c' hc hc' => by
      rw [Nat.zero_add]
      exact ⟨hc, hc'⟩
    simp only [layout, ← hsame, ← hlength]
    refine ofNode_related hd ha _
      (callBody_related hd ha hf family method false _ _ (by simp) hargs ?_)
    intro _ hconcat
    simp [isConcatCall, hconcat]
  | @conditional k t t' l l' r r' =>
    obtain ⟨htest, ht⟩ := hchildren 0 t t' ⟨rfl, rfl⟩
    obtain ⟨-, hl⟩ := hchildren 1 l l' ⟨rfl, rfl⟩
    obtain ⟨-, hr⟩ := hchildren 2 r r' ⟨rfl, rfl⟩
    have hown : Related True asArgument Q _ _ := ofNode_related hd ha false
      (conditionalBody_related hd ha htest.kind ht hl hr)
    -- A conditional in the last place of another one goes on with the branches of that one.
    simp only [layout, ← htest.isBoolean]
    split
    · exact { hown with
        branches := .cons ⟨ht.predicate, hl.value⟩ hr.branches
        otherwise := hr.otherwise }
    · exact hown
  | @construct k type args args' hlength =>
    have hvalues := Related.values (hrow 0 hlength fun j c c' hc hc' => by
      rw [Nat.zero_add]
      exact ⟨hc, hc'⟩)
    simp only [layout, ← hlength, ha.construct]
    refine ofNode_related hd ha _ (formOr_related hd hf (fun t ht => ?_) hvalues)
    rw [List.length_map, length_layoutList]
    exact .construct ht
  | @array k items items' hlength =>
    have hrows := hrow 0 hlength fun j c c' hc hc' => by
      rw [Nat.zero_add]
      exact ⟨hc, hc'⟩
    have hown : Related True asArgument Q _ _ := ofNode_related hd ha false hf.unsupported
    exact { hown with
      items := .some (Related.values hrows)
      spread := fun hargument =>
        List.rel_flatMap hrows (fun _ _ hl => hl.summands (.inr ⟨rfl, hargument⟩)) }

end Nodes

/-- **A tree at two places.** If the forms of the dialect keep a relation that holds between a leaf
    or a fault and itself, where the constants stand at both places, then it holds in every role. -/
theorem layout_related_places {Q : Sql → Sql → Prop} {d : Rules} (hd : d.Preserves Q)
    (hfault : ∀ err, Q (.fault err) (.fault err))
    (hcolumn : ∀ name, Q (.column name) (.column name)) (e : Expr) {p p' : Position}
    (hconstant : ∀ steps c,
      Q (.constant (p.descend steps) c) (.constant (p'.descend steps) c)) :
    Related True True Q (e.layout d p) (e.layout d p') := by
  induction e using Expr.induction_children generalizing p p' with
  | node e ih =>
    have hhead : SameHead Eq e e := (alike_refl (fun _ => rfl) e).sameHead
    -- The node's own place is the empty descent.
    have hown : ∀ c c', c = c' →
        c.value.isNull = c'.value.isNull ∧ Q (.constant p c) (.constant p' c') := by
      rintro c _ rfl
      exact ⟨rfl, hconstant [] c⟩
    refine (layout_node_related hd d.agrees_refl ⟨hfault _, fun _ => hfault _⟩ hhead hown
      (fun _ name _ _ => hcolumn name) (fun q _ => hd.propertyRelated q) fun i c c' hc => ?_).2
    obtain rfl : c = c' := Option.some.inj (hc.1.symm.trans hc.2)
    have hchild := @ih c (List.mem_of_getElem? hc.1) (p.child i) (p'.child i) fun steps a => by
      rw [Position.child_descend, Position.child_descend]
      exact hconstant _ a
    exact ⟨similar_refl c, hchild.mono (fun _ => trivial) (fun _ => trivial)⟩

/-- **Trees that are alike have related layouts.** If constants may only be exchanged for others
    that are null as well or are not null either, and the forms of the dialect respect a relation
    that holds at the leaves, then it holds in every role. The second tree may stand at another
    place, and it may be laid out by other rules that agree with the first, if the forms they have
    for the properties in the tree keep the relation. -/
theorem layout_related_at {R : Constant → Constant → Prop} {Q : Sql → Sql → Prop}
    {d d' : Rules} (hd : d.Respects Q) (ha : d.Agrees d')
    (hnull : ∀ c c', R c c' → c.value.isNull = c'.value.isNull)
    (hcolumn : ∀ name, Q (.column name) (.column name)) {e e' : Expr} (h : Alike R e e')
    (hproperty : ∀ n ∈ e.nodes, ∀ p, n.property? = some p → Rules.PropertyRelated Q d d' p)
    {p p' : Position}
    (hconstant : ∀ steps c c', R c c' →
      Q (.constant (p.descend steps) c) (.constant (p'.descend steps) c')) :
    Similar e e' ∧ Related True True Q (e.layout d p) (e'.layout d' p') := by
  -- The induction is on the first tree; the second one has the same nodes.
  induction e using Expr.induction_children generalizing p p' e' with
  | node e ih =>
    refine layout_node_related hd.toPreserves ha (hd.faultsRelated d' e e') h.sameHead
      (fun c c' hc => ⟨hnull c c' hc, hconstant [] c c' hc⟩) (fun _ name _ _ => hcolumn name)
      (hproperty e (mem_nodes_self e)) fun i c c' hc => ?_
    have hmem : c ∈ e.children := List.mem_of_getElem? hc.1
    have hbelow : ∀ steps c c', R c c' → Q (.constant ((p.child i).descend steps) c)
        (.constant ((p'.child i).descend steps) c') := by
      intro steps c c' hc
      rw [Position.child_descend, Position.child_descend]
      exact hconstant _ c c' hc
    obtain ⟨hsimilar, hrelated⟩ := ih c hmem (h.of_opposite hc)
      (forall_nodes_of_mem_children hproperty hmem) hbelow
    exact ⟨hsimilar, hrelated.mono (fun _ => trivial) (fun _ => trivial)⟩

/-- Trees that are alike have related layouts at one place, under rules that agree. -/
theorem layout_related_of_agrees {R : Constant → Constant → Prop} {Q : Sql → Sql → Prop}
    {d d' : Rules} (hd : d.Respects Q) (ha : d.Agrees d')
    (hnull : ∀ c c', R c c' → c.value.isNull = c'.value.isNull)
    (hconstant : ∀ p c c', R c c' → Q (.constant p c) (.constant p c'))
    (hcolumn : ∀ name, Q (.column name) (.column name)) {e e' : Expr} (h : Alike R e e')
    (hproperty : ∀ n ∈ e.nodes, ∀ p, n.property? = some p → Rules.PropertyRelated Q d d' p)
    (p : Position) : Related True True Q (e.layout d p) (e'.layout d' p) :=
  (layout_related_at hd ha hnull hcolumn h hproperty fun _ => hconstant _).2

/-- Trees that are alike have related layouts under the same rules. -/
theorem layout_related {R : Constant → Constant → Prop} {Q : Sql → Sql → Prop} {d : Rules}
    (hd : d.Respects Q) (hnull : ∀ c c', R c c' → c.value.isNull = c'.value.isNull)
    (hconstant : ∀ p c c', R c c' → Q (.constant p c) (.constant p c'))
    (hcolumn : ∀ name, Q (.column name) (.column name)) {e e' : Expr} (h : Alike R e e')
    (p : Position) : Related True True Q (e.layout d p) (e'.layout d p) :=
  layout_related_of_agrees hd d.agrees_refl hnull hconstant hcolumn h
    (fun _ _ p _ => hd.propertyRelated p) p

end Expr

end WhereClause
