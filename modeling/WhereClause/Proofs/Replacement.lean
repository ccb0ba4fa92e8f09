import WhereClause.Proofs.Forms

namespace WhereClause

/-!
# Subtrees and their surroundings

A subtree is replaced by another one, and everything around it stays. A node sees of what stands
below it only the roles in its layout, so whatever relates the two subtrees also relates the two
trees. How much has to be related depends on the surroundings: a concatenation that stands around a
subtree takes it apart and goes on with its parts.

* `Expr.subtreeAt?`, `Expr.replaceAt` — the subtree at a path from the root, and its replacement;
* `Expr.isTakenApart` — the surroundings look at the parts of the subtree at a path;
* `Expr.layout_replaceAt_related` — a relation between two subtrees passes to the trees around them.
-/

namespace Expr

/-! ### Replacement -/

/-- The node with other children, as many as it has. -/
def withChildren : Expr → List Expr → Expr
  | member k _ name family, [object] => member k object name family
  | unary k op _, [operand] => unary k op operand
  | binary k op _ _, [left, right] => binary k op left right
  | call k family method _ _, receiver :: args => call k family method receiver args
  | callStatic k family method _, args => callStatic k family method args
  | conditional k _ _ _, [test, ifTrue, ifFalse] => conditional k test ifTrue ifFalse
  | construct k type _, args => construct k type args
  | array k _, items => array k items
  | e, _ => e

/-- The subtree at a path, which lists the numbers of the children from the root on. -/
def subtreeAt? (e : Expr) : List Nat → Option Expr
  | [] => some e
  | i :: path => e.children[i]?.bind fun c => c.subtreeAt? path

/-- The tree with another subtree at a path. A path that leads out of the tree changes nothing. -/
def replaceAt (e : Expr) (path : List Nat) (t : Expr) : Expr :=
  match path with
  | [] => t
  | i :: path =>
    match e.children[i]? with
    | some c => e.withChildren (e.children.set i (c.replaceAt path t))
    | none => e

/-- What stands around the subtree at a path takes it apart: its parent is a sum of strings, or a
    call that concatenates, or an array that is an argument of such a call. For the root it is given
    whether it is taken apart, and whether it is such an argument. -/
def isTakenApart (here asArgument : Bool) (e : Expr) : List Nat → Bool
  | [] => here
  | i :: path =>
    match e.children[i]? with
    | some c =>
      isTakenApart (e.isSum || e.isConcatCall || (e.isArray && asArgument)) e.isConcatCall c path
    | none => false

variable {e e' c t t' : Expr} {es es' : List Expr} {i : Nat} {path : List Nat}

/-- New children are the children. -/
theorem children_withChildren (h : es.length = e.children.length) :
    (e.withChildren es).children = es := by
  cases e with
  | constant | column => exact (List.length_eq_zero_iff.mp h).symm
  | member | unary =>
    obtain ⟨c, rfl⟩ := List.length_eq_one_iff.mp h
    rfl
  | binary =>
    obtain ⟨l, r, rfl⟩ := List.length_eq_two.mp h
    rfl
  | conditional =>
    obtain ⟨t, l, r, rfl⟩ := List.length_eq_three.mp h
    rfl
  | call =>
    obtain ⟨c, args, rfl⟩ := List.exists_cons_of_length_eq_add_one h
    rfl
  | callStatic | construct | array => rfl

/-- With its own children a node is the same. -/
theorem withChildren_children (e : Expr) : e.withChildren e.children = e := by
  cases e <;> rfl

/-- Whatever children a node is given, its head is the same. -/
theorem sameHead_withChildren (h : es.length = e.children.length)
    (h' : es'.length = e.children.length) :
    SameHead Eq (e.withChildren es) (e.withChildren es') := by
  cases e with
  | constant => exact .constant rfl
  | column => exact .column
  | member =>
    obtain ⟨c, rfl⟩ := List.length_eq_one_iff.mp h
    obtain ⟨c', rfl⟩ := List.length_eq_one_iff.mp h'
    exact .member
  | unary =>
    obtain ⟨c, rfl⟩ := List.length_eq_one_iff.mp h
    obtain ⟨c', rfl⟩ := List.length_eq_one_iff.mp h'
    exact .unary
  | binary =>
    obtain ⟨l, r, rfl⟩ := List.length_eq_two.mp h
    obtain ⟨l', r', rfl⟩ := List.length_eq_two.mp h'
    exact .binary
  | conditional =>
    obtain ⟨t, l, r, rfl⟩ := List.length_eq_three.mp h
    obtain ⟨t', l', r', rfl⟩ := List.length_eq_three.mp h'
    exact .conditional
  | call =>
    obtain ⟨c, args, rfl⟩ := List.exists_cons_of_length_eq_add_one h
    obtain ⟨c', args', rfl⟩ := List.exists_cons_of_length_eq_add_one h'
    exact .call (Nat.succ.inj (h.trans h'.symm))
  | callStatic => exact .callStatic (h.trans h'.symm)
  | construct => exact .construct (h.trans h'.symm)
  | array => exact .array (h.trans h'.symm)

/-- The head of a node tells how it takes its children. -/
theorem SameHead.takes_eq {R : Constant → Constant → Prop} (h : SameHead R e e') :
    e.isSum = e'.isSum ∧ e.isArray = e'.isArray ∧ e.isConcatCall = e'.isConcatCall := by
  cases h <;> exact ⟨rfl, rfl, rfl⟩

/-- A path that leads out of the tree changes nothing. -/
theorem replaceAt_of_subtreeAt?_eq_none (h : e.subtreeAt? path = none) :
    e.replaceAt path t = e := by
  induction path generalizing e with
  | nil => simp [subtreeAt?] at h
  | cons i path ih =>
    rw [replaceAt]
    cases hc : e.children[i]? with
    | none => rfl
    | some c =>
      have hbelow : c.subtreeAt? path = none := by simpa [subtreeAt?, hc] using h
      simp only [ih hbelow]
      -- The child is replaced by itself.
      obtain ⟨hi, rfl⟩ := List.getElem?_eq_some_iff.mp hc
      rw [List.set_getElem_self, withChildren_children]

/-- The node above the replaced subtree, or above one of its ancestors. -/
theorem replaceAt_cons (hc : e.children[i]? = some c) :
    e.replaceAt (i :: path) t = e.withChildren (e.children.set i (c.replaceAt path t)) := by
  simp only [replaceAt, hc]

/-- Two replacements at one path leave the head of the node above as it is. -/
theorem sameHead_replaceAt_cons (hc : e.children[i]? = some c) (path : List Nat) (t t' : Expr) :
    SameHead Eq (e.replaceAt (i :: path) t) (e.replaceAt (i :: path) t') := by
  rw [replaceAt_cons hc, replaceAt_cons hc]
  exact sameHead_withChildren List.length_set List.length_set

/-- A node takes what is replaced below it as it took what was there before. -/
theorem takes_replaceAt_cons (hc : e.children[i]? = some c) (path : List Nat) (t : Expr) :
    e.isSum = (e.replaceAt (i :: path) t).isSum ∧ e.isArray = (e.replaceAt (i :: path) t).isArray ∧
      e.isConcatCall = (e.replaceAt (i :: path) t).isConcatCall := by
  have hhead := sameHead_withChildren (e := e) rfl
    (List.length_set : (e.children.set i (c.replaceAt path t)).length = _)
  rw [withChildren_children, ← replaceAt_cons hc] at hhead
  exact hhead.takes_eq

/-! ### Layouts -/

/-- Below two nodes in which something is replaced at the same path, the children are the same,
    except for those on the path. -/
theorem opposite_replaceAt_cons (hc : e.children[i]? = some c) {j : Nat} {a a' : Expr}
    (h : Opposite (e.replaceAt (i :: path) t) (e.replaceAt (i :: path) t') j a a') :
    (j = i ∧ a = c.replaceAt path t ∧ a' = c.replaceAt path t') ∨ (j ≠ i ∧ a = a') := by
  obtain ⟨ha, ha'⟩ := h
  rw [replaceAt_cons hc, children_withChildren List.length_set, List.getElem?_set] at ha ha'
  have hi : i < e.children.length := (List.getElem?_eq_some_iff.mp hc).1
  by_cases hij : i = j
  · subst hij
    simp only [if_pos, hi, Option.some.injEq] at ha ha'
    exact .inl ⟨rfl, ha.symm, ha'.symm⟩
  · rw [if_neg hij] at ha ha'
    exact .inr ⟨Ne.symm hij, Option.some.inj (ha.symm.trans ha')⟩

open Layout (Related)

variable {Q : Sql → Sql → Prop} {d : Rules}

/-- A tree is laid out as it is itself, if the relation holds at its leaves. -/
theorem layout_related_self (hd : d.Respects Q) (hcolumn : ∀ name, Q (.column name) (.column name))
    (e : Expr) {p : Position}
    (hconstant : ∀ place c, p.Below place → Q (.constant place c) (.constant place c)) :
    Related True True Q (e.layout d p) (e.layout d p) :=
  layout_related_places hd.toPreserves (fun err => hd.fault err err) hcolumn e fun steps c =>
    hconstant _ c (p.below_descend steps)

/-- **Surroundings.** Two trees that differ in one subtree have related layouts if the two subtrees
    have. Where the surroundings do not take the subtree apart, nothing needs to be known about its
    parts. -/
theorem layout_replaceAt_related (hd : d.Respects Q)
    (hcolumn : ∀ name, Q (.column name) (.column name)) {p : Position}
    {here asArgument : Bool} (hargument : asArgument → here)
    (hpath : (e.subtreeAt? path).isSome)
    (hconstant : ∀ place c, ¬ (p.descend path.reverse).Below place →
      Q (.constant place c) (.constant place c))
    (hsimilar : Similar t t')
    (hrelated : Related (isTakenApart here asArgument e path)
      (isTakenApart here asArgument e path) Q
      (t.layout d (p.descend path.reverse)) (t'.layout d (p.descend path.reverse))) :
    Similar (e.replaceAt path t) (e.replaceAt path t') ∧
      Related here asArgument Q ((e.replaceAt path t).layout d p)
        ((e.replaceAt path t').layout d p) := by
  -- The induction goes down the path; below a node it is known how the node takes its children.
  induction path generalizing e p here asArgument with
  | nil => exact ⟨hsimilar, hrelated.mono id hargument⟩
  | cons i path ih =>
    cases hc : e.children[i]? with
    | none => simp [subtreeAt?, hc] at hpath
    | some c =>
      have hhole : (p.child i).descend path.reverse = p.descend (i :: path).reverse := by
        rw [Position.child_descend, List.reverse_cons]
      -- The constants off the path are not below the subtree.
      have houter : ∀ place, ¬ (p.child i).Below place → ∀ c,
          Q (.constant place c) (.constant place c) := by
        intro place hplace c
        refine hconstant place c fun hbelow => hplace ?_
        rw [← hhole] at hbelow
        exact ((p.child i).below_descend _).trans hbelow
      have hchildren : ∀ j a a',
          Opposite (e.replaceAt (i :: path) t) (e.replaceAt (i :: path) t') j a a' →
          Similar a a' ∧ Related (e.isSum ∨ (e.isArray ∧ asArgument)) e.isConcatCall Q
            (a.layout d (p.child j)) (a'.layout d (p.child j)) := by
        intro j a a' ha
        rcases opposite_replaceAt_cons hc ha with ⟨rfl, rfl, rfl⟩ | ⟨hij, rfl⟩
        · rw [← hhole] at hconstant hrelated
          have hbelow : (c.subtreeAt? path).isSome := by simpa [subtreeAt?, hc] using hpath
          have happart : isTakenApart here asArgument e (j :: path) = isTakenApart
              (e.isSum || e.isConcatCall || (e.isArray && asArgument)) e.isConcatCall c path := by
            simp only [isTakenApart, hc]
          rw [happart] at hrelated
          obtain ⟨hsame, hchild⟩ := ih (by simp +contextual) hbelow hconstant hrelated
          exact ⟨hsame, hchild.mono (by simp; tauto) id⟩
        · have hsibling := layout_related_self hd hcolumn a (p := p.child j) fun place c hbelow =>
            houter place (Position.not_below_of_ne hij hbelow) c
          exact ⟨similar_refl a, hsibling.mono (fun _ => trivial) (fun _ => trivial)⟩
      obtain ⟨hsum, harray, hcall⟩ := takes_replaceAt_cons hc path t
      rw [hsum, harray, hcall] at hchildren
      have hown : ∀ c c', c = c' →
          c.value.isNull = c'.value.isNull ∧ Q (.constant p c) (.constant p c') := by
        rintro c _ rfl
        exact ⟨rfl, houter p (p.not_child_below i) c⟩
      obtain ⟨hnode, hlayout⟩ := layout_node_related hd.toPreserves d.agrees_refl
        (hd.faultsRelated d _ _) (sameHead_replaceAt_cons hc path t t') hown
        (fun _ name _ _ => hcolumn name) (fun q _ => hd.propertyRelated q) hchildren
      exact ⟨hnode, hlayout.mono (fun _ => trivial) id⟩

end Expr

end WhereClause
