import Mathlib.Data.List.Nodup
import WhereClause.Expr.Basic

namespace WhereClause

/-!
# Nodes of a tree and the places of its leaves

The constants and the columns that a tree mentions, from left to right. A constant comes with the
place where it stands, so that equal constants at different places stay apart. What is sought in an
empty array is left out, since the answer does not depend on it.

* `Expr.induction`, `Expr.induction_children` — induction over trees, with a hypothesis for every
  argument of a call, or in one case for all nodes;
* `Expr.nodes` — every node of a tree;
* `Expr.constants`, `Expr.columns` — the leaves;
* `Expr.constants_nodup` — no place holds two constants.
-/

namespace Expr

/-- Induction over trees. Where a node has a list of subtrees, the hypothesis holds for each of
    them. -/
@[elab_as_elim]
theorem induction {motive : Expr → Prop}
    (constant : ∀ k c, motive (.constant k c))
    (column : ∀ k name family, motive (.column k name family))
    (member : ∀ k object name family, motive object → motive (.member k object name family))
    (unary : ∀ k op operand, motive operand → motive (.unary k op operand))
    (binary : ∀ k op left right, motive left → motive right → motive (.binary k op left right))
    (call : ∀ k family method receiver args, motive receiver → (∀ a ∈ args, motive a) →
      motive (.call k family method receiver args))
    (callStatic : ∀ k family method args, (∀ a ∈ args, motive a) →
      motive (.callStatic k family method args))
    (conditional : ∀ k test ifTrue ifFalse, motive test → motive ifTrue → motive ifFalse →
      motive (.conditional k test ifTrue ifFalse))
    (construct : ∀ k type args, (∀ a ∈ args, motive a) → motive (.construct k type args))
    (array : ∀ k items, (∀ a ∈ items, motive a) → motive (.array k items))
    (e : Expr) : motive e :=
  @Expr.rec motive (fun es => ∀ a ∈ es, motive a) constant column
    (fun k object name family ih => member k object name family ih)
    (fun k op operand ih => unary k op operand ih)
    (fun k op left right ihl ihr => binary k op left right ihl ihr)
    (fun k family method receiver args ihr iha => call k family method receiver args ihr iha)
    (fun k family method args ih => callStatic k family method args ih)
    (fun k test ifTrue ifFalse iht ihl ihr => conditional k test ifTrue ifFalse iht ihl ihr)
    (fun k type args ih => construct k type args ih)
    (fun k items ih => array k items ih)
    -- The lists of arguments: every member of the empty list, and of a list one longer.
    (fun _ h => absurd h List.not_mem_nil)
    (fun _ _ ih ihs _ h => (List.mem_cons.mp h).elim (fun ha => ha ▸ ih) (ihs _))
    e

/-- Induction over trees in one case, with the hypothesis for every child of a node. -/
@[elab_as_elim]
theorem induction_children {motive : Expr → Prop}
    (node : ∀ e, (∀ c ∈ e.children, motive c) → motive e) (e : Expr) : motive e := by
  induction e using Expr.induction with
  | constant | column => exact node _ (by simp [children])
  | member _ _ _ _ ih | unary _ _ _ ih => exact node _ (by simpa [children] using ih)
  | binary _ _ _ _ ihl ihr => exact node _ (by simpa [children] using ⟨ihl, ihr⟩)
  | call _ _ _ _ _ ihr iha => exact node _ (by simpa [children] using ⟨ihr, iha⟩)
  | callStatic _ _ _ _ ih | construct _ _ _ ih | array _ _ ih => exact node _ ih
  | conditional _ _ _ _ iht ihl ihr => exact node _ (by simpa [children] using ⟨iht, ihl, ihr⟩)

mutual

/-- All nodes of a tree, each as the subtree that it is the root of. -/
def nodes : Expr → List Expr
  | e@(constant _ _) => [e]
  | e@(column _ _ _) => [e]
  | e@(member _ object _ _) => e :: nodes object
  | e@(unary _ _ operand) => e :: nodes operand
  | e@(binary _ _ left right) => e :: (nodes left ++ nodes right)
  | e@(call _ _ _ receiver args) => e :: (nodes receiver ++ listNodes args)
  | e@(callStatic _ _ _ args) => e :: listNodes args
  | e@(conditional _ test ifTrue ifFalse) => e :: (nodes test ++ nodes ifTrue ++ nodes ifFalse)
  | e@(construct _ _ args) => e :: listNodes args
  | e@(array _ items) => e :: listNodes items

/-- All nodes of some trees. -/
def listNodes : List Expr → List Expr
  | [] => []
  | e :: es => nodes e ++ listNodes es

end

/-- A node of a list is one of a tree in it. -/
theorem mem_listNodes {n : Expr} {es : List Expr} : n ∈ listNodes es ↔ ∃ e ∈ es, n ∈ e.nodes := by
  induction es with
  | nil => simp [listNodes]
  | cons e es ih => simp [listNodes, ih]

/-- The nodes of a subtree are nodes of the tree. -/
theorem mem_nodes_of_mem_children {e a n : Expr} (ha : a ∈ e.children) (hn : n ∈ a.nodes) :
    n ∈ e.nodes := by
  have hlist : ∀ {es : List Expr}, a ∈ es → n ∈ listNodes es :=
    fun ha => mem_listNodes.mpr ⟨a, ha, hn⟩
  cases e with
  | constant | column => simp [children] at ha
  | member | unary =>
    obtain rfl := List.mem_singleton.mp ha
    exact List.mem_cons_of_mem _ hn
  | binary k op l r =>
    have hpair : a = l ∨ a = r := by simpa [children] using ha
    rcases hpair with rfl | rfl <;> simp [nodes, hn]
  | conditional k t l r =>
    have htriple : a = t ∨ a = l ∨ a = r := by simpa [children] using ha
    rcases htriple with rfl | rfl | rfl <;> simp [nodes, hn]
  | call k family method receiver args =>
    rcases List.mem_cons.mp ha with rfl | ha
    · simp [nodes, hn]
    · simp [nodes, hlist ha]
  | callStatic | construct | array => exact List.mem_cons_of_mem _ (hlist ha)

/-- What is known of all nodes of a tree is known of those of its subtrees. -/
theorem forall_nodes_of_mem_children {e a : Expr} {Q : Expr → Prop} (he : ∀ n ∈ e.nodes, Q n)
    (ha : a ∈ e.children) : ∀ n ∈ a.nodes, Q n :=
  fun n hn => he n (mem_nodes_of_mem_children ha hn)

/-- The root is a node. -/
theorem mem_nodes_self (e : Expr) : e ∈ e.nodes := by
  cases e <;> exact List.mem_cons_self

/-- An array. -/
def isArray : Expr → Bool
  | array _ _ => true
  | _ => false

/-- An array without items. -/
def isEmptyArray : Expr → Bool
  | array _ [] => true
  | _ => false

/-- A search in an empty array, which finds nothing whatever is sought. -/
def isIdleSearch (family : Family) (method : String) (receiver : Expr) : Bool :=
  family = .other && method = "Contains" && receiver.isEmptyArray

mutual

/-- The constants of a tree whose root stands at `p`, with their places. -/
def constants (p : Position) : Expr → List (Position × Constant)
  | constant _ c => [(p, c)]
  | column _ _ _ => []
  | member _ object _ _ => constants (p.child 0) object
  | unary _ _ operand => constants (p.child 0) operand
  | binary _ _ left right => constants (p.child 0) left ++ constants (p.child 1) right
  | call _ family method receiver args =>
    if isIdleSearch family method receiver then []
    else constants (p.child 0) receiver ++ listConstants p 1 args
  | callStatic _ _ _ args => listConstants p 0 args
  | conditional _ test ifTrue ifFalse =>
    constants (p.child 0) test ++ constants (p.child 1) ifTrue ++ constants (p.child 2) ifFalse
  | construct _ _ args => listConstants p 0 args
  | array _ items => listConstants p 0 items

/-- The constants of subtrees, the first of which is number `i`. -/
def listConstants (p : Position) (i : Nat) : List Expr → List (Position × Constant)
  | [] => []
  | e :: es => constants (p.child i) e ++ listConstants p (i + 1) es

end

mutual

/-- The columns of a tree under the names they have in it. -/
def columns : Expr → List String
  | constant _ _ => []
  | column _ name _ => [name]
  | member _ object _ _ => columns object
  | unary _ _ operand => columns operand
  | binary _ _ left right => columns left ++ columns right
  | call _ family method receiver args =>
    if isIdleSearch family method receiver then [] else columns receiver ++ listColumns args
  | callStatic _ _ _ args => listColumns args
  | conditional _ test ifTrue ifFalse => columns test ++ columns ifTrue ++ columns ifFalse
  | construct _ _ args => listColumns args
  | array _ items => listColumns items

/-- The columns of subtrees. -/
def listColumns : List Expr → List String
  | [] => []
  | e :: es => columns e ++ listColumns es

end

/-- A column of a list is one of a tree in it. -/
theorem mem_listColumns {name : String} {es : List Expr} :
    name ∈ listColumns es ↔ ∃ e ∈ es, name ∈ e.columns := by
  induction es with
  | nil => simp [listColumns]
  | cons e es ih => simp [listColumns, ih]

/-! ### Subtrees by number -/

/-- A constant of a list is one of a tree in it, below the place of that tree. -/
theorem mem_listConstants {p : Position} {x : Position × Constant} {es : List Expr} {i : Nat} :
    x ∈ listConstants p i es ↔
      ∃ (k : Nat) (e : Expr), es[k]? = some e ∧ x ∈ e.constants (p.child (i + k)) := by
  induction es generalizing i with
  | nil => simp [listConstants]
  | cons e es ih =>
    rw [listConstants, List.mem_append, ih]
    constructor
    · rintro (hx | ⟨k, e', hk, hx⟩)
      · exact ⟨0, e, rfl, hx⟩
      -- The tail is numbered from the next child on.
      · exact ⟨k + 1, e', hk, by rwa [show i + (k + 1) = i + 1 + k by omega]⟩
    · rintro ⟨k, e', hk, hx⟩
      cases k with
      | zero =>
        obtain rfl : e = e' := by simpa using hk
        exact .inl hx
      | succ k => exact .inr ⟨k, e', hk, by rwa [show i + 1 + k = i + (k + 1) by omega]⟩

end Expr

/-! ### Places below a node -/

namespace Position

/-- A place in the subtree whose root stands at another place. -/
def Below (p q : Position) : Prop := p.tree = q.tree ∧ p.steps <:+ q.steps

/-- A place is below itself. -/
theorem below_self (p : Position) : p.Below p := ⟨rfl, List.suffix_rfl⟩

/-- The place that some steps lead to from here, the last of them first. -/
def descend (p : Position) (steps : List Nat) : Position := ⟨p.tree, steps ++ p.steps⟩

/-- The way from a child is one step longer from its parent. -/
theorem child_descend (p : Position) (i : Nat) (steps : List Nat) :
    (p.child i).descend steps = p.descend (steps ++ [i]) := by
  simp [child, descend]

/-- A way down leads below. -/
theorem below_descend (p : Position) (steps : List Nat) : p.Below (p.descend steps) :=
  ⟨rfl, List.suffix_append _ _⟩

/-- What is below a place that is below another is below that. -/
theorem Below.trans {p q x : Position} (h : p.Below q) (h' : q.Below x) : p.Below x :=
  ⟨h.1.trans h'.1, h.2.trans h'.2⟩

/-- What is below a child is below its parent. -/
theorem Below.of_child {p q : Position} {i : Nat} (h : (p.child i).Below q) : p.Below q :=
  ⟨h.1, (List.suffix_cons i p.steps).trans h.2⟩

/-- No place is below one of its children. -/
theorem not_child_below (p : Position) (i : Nat) : ¬ (p.child i).Below p := by
  intro h
  have hlength : (p.child i).steps.length ≤ p.steps.length := h.2.length_le
  simp only [child, List.length_cons] at hlength
  omega

/-- Subtrees of different numbers have no place in common. -/
theorem not_below_of_ne {p q : Position} {i j : Nat} (hij : i ≠ j) (hi : (p.child i).Below q) :
    ¬ (p.child j).Below q := by
  intro hj
  -- Two suffixes of one path that have the same length are the same.
  have hsuffix : (p.child i).steps <:+ (p.child j).steps :=
    List.suffix_of_suffix_length_le hi.2 hj.2 (by simp [child])
  have heq := hsuffix.eq_of_length (by simp [child])
  simp only [child, List.cons.injEq, and_true] at heq
  exact hij heq

end Position

namespace Expr

/-- Constants that stand below the roots of the subtrees stand below their common parent. -/
private theorem below_of_mem_listConstants {p : Position} {es : List Expr}
    (h : ∀ e ∈ es, ∀ (p : Position), ∀ x ∈ e.constants p, p.Below x.1) {i : Nat}
    {x : Position × Constant} (hx : x ∈ listConstants p i es) : p.Below x.1 := by
  obtain ⟨k, e, he, hx⟩ := mem_listConstants.mp hx
  exact (h e (List.mem_of_getElem? he) _ x hx).of_child

/-- Every constant of a tree stands below its root. -/
theorem below_of_mem_constants (e : Expr) (p : Position) (x : Position × Constant)
    (hx : x ∈ e.constants p) : p.Below x.1 := by
  induction e using Expr.induction generalizing p x with
  | constant k c =>
    obtain rfl : x = (p, c) := by simpa [constants] using hx
    exact p.below_self
  | column => simp [constants] at hx
  | member _ _ _ _ ih => exact (ih _ _ hx).of_child
  | unary _ _ _ ih => exact (ih _ _ hx).of_child
  | binary _ _ _ _ ihl ihr =>
    rcases List.mem_append.mp hx with hx | hx
    · exact (ihl _ _ hx).of_child
    · exact (ihr _ _ hx).of_child
  | call k family method receiver args ihr iha =>
    rw [constants] at hx
    split at hx
    · simp at hx
    · rcases List.mem_append.mp hx with hx | hx
      · exact (ihr _ _ hx).of_child
      · exact below_of_mem_listConstants iha hx
  | callStatic _ _ _ _ ih => exact below_of_mem_listConstants ih hx
  | conditional _ _ _ _ iht ihl ihr =>
    rcases List.mem_append.mp hx with hx | hx
    · rcases List.mem_append.mp hx with hx | hx
      · exact (iht _ _ hx).of_child
      · exact (ihl _ _ hx).of_child
    · exact (ihr _ _ hx).of_child
  | construct _ _ _ ih => exact below_of_mem_listConstants ih hx
  | array _ _ ih => exact below_of_mem_listConstants ih hx

/-- Constants below different numbers stand at different places. -/
private theorem disjoint_children {p : Position} {i j : Nat} {a b : Expr} (hij : i ≠ j)
    {q : Position} (ha : q ∈ (a.constants (p.child i)).map Prod.fst)
    (hb : q ∈ (b.constants (p.child j)).map Prod.fst) : False := by
  obtain ⟨x, hx, rfl⟩ := List.mem_map.mp ha
  obtain ⟨y, hy, hxy⟩ := List.mem_map.mp hb
  refine Position.not_below_of_ne hij (below_of_mem_constants a _ x hx) ?_
  rw [← hxy]
  exact below_of_mem_constants b _ y hy

/-- Constants below a number stand at other places than those of subtrees with greater numbers. -/
private theorem disjoint_listConstants {p : Position} {i j : Nat} {a : Expr} {es : List Expr}
    (hij : i < j) {q : Position} (ha : q ∈ (a.constants (p.child i)).map Prod.fst)
    (hes : q ∈ (listConstants p j es).map Prod.fst) : False := by
  obtain ⟨y, hy, rfl⟩ := List.mem_map.mp hes
  obtain ⟨k, e, -, hy⟩ := mem_listConstants.mp hy
  exact disjoint_children (by omega) ha (List.mem_map_of_mem hy)

/-- Subtrees whose places are distinct one by one have distinct places all together. -/
private theorem listConstants_nodup {p : Position} {es : List Expr}
    (h : ∀ e ∈ es, ∀ p, ((e.constants p).map Prod.fst).Nodup) (i : Nat) :
    ((listConstants p i es).map Prod.fst).Nodup := by
  induction es generalizing i with
  | nil => simp [listConstants]
  | cons e es ih =>
    rw [listConstants, List.map_append, List.nodup_append']
    exact ⟨h e (by simp) _, ih (fun e' he' => h e' (by simp [he'])) (i + 1),
      fun q => disjoint_listConstants (by omega)⟩

/-- **Places are distinct.** No two constants of a tree stand at the same place. -/
theorem constants_nodup (e : Expr) (p : Position) : ((e.constants p).map Prod.fst).Nodup := by
  induction e using Expr.induction generalizing p with
  | constant => simp [constants]
  | column => simp [constants]
  | member _ _ _ _ ih => exact ih _
  | unary _ _ _ ih => exact ih _
  | binary _ _ l r ihl ihr =>
    rw [constants, List.map_append, List.nodup_append']
    exact ⟨ihl _, ihr _, fun q => disjoint_children (by omega)⟩
  | call k family method receiver args ihr iha =>
    rw [constants]
    split
    · simp
    · -- The receiver is number 0 and the arguments come after it.
      rw [List.map_append, List.nodup_append']
      exact ⟨ihr _, listConstants_nodup iha 1, fun q => disjoint_listConstants (by omega)⟩
  | callStatic _ _ _ _ ih => exact listConstants_nodup ih 0
  | conditional _ t l r iht ihl ihr =>
    rw [constants, List.map_append, List.nodup_append', List.map_append, List.nodup_append']
    refine ⟨⟨iht _, ihl _, fun q => disjoint_children (by omega)⟩, ihr _, ?_⟩
    intro q hq
    rcases List.mem_append.mp hq with hq | hq
    · exact disjoint_children (by omega) hq
    · exact disjoint_children (by omega) hq
  | construct _ _ _ ih => exact listConstants_nodup ih 0
  | array _ _ ih => exact listConstants_nodup ih 0

end Expr

end WhereClause
