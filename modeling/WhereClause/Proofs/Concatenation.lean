import WhereClause.Expr.Build
import WhereClause.Proofs.Relocation
import WhereClause.Proofs.Replacement
import WhereClause.Renderer

namespace WhereClause

/-!
# Concatenations

A concatenation is written as one row of parts, however it was built up: a sum of strings goes on
with the parts of its summands, and a call that concatenates with those of its arguments and of the
items of its arrays. Trees that join the same parts can therefore stand for each other. Only a
concatenation around them can tell sums from calls, because it takes sums apart and calls not.

* `Expr.summands`, `Expr.argumentParts` — the parts of a sum of strings and of an argument;
* `Expr.Joins` — the trees that join given parts;
* `Expr.partsAt`, `Expr.layout_of_joins` — the parts with their places, and what they are laid out
  to;
* `Renderer.query_regrouped` — trees that join the same parts have the same query.
-/

namespace Expr

/-! ### Parts -/

/-- The parts of a sum of strings, from left to right; another tree is one part. -/
def summands : Expr → List Expr
  | e@(binary _ _ left right) => if e.isSum then left.summands ++ right.summands else [e]
  | e => [e]

/-- The parts of an argument of a concatenation, where an array stands for its items. -/
def argumentParts : Expr → List Expr
  | array _ items => items.flatMap summands
  | e => e.summands

/-- The trees that join given parts in their order: sums of strings in any grouping, and calls whose
    arguments have these parts. -/
inductive Joins (parts : List Expr) : Expr → Prop
  | sum {e} : e.isSum → e.summands = parts → Joins parts e
  | call {args} : args.flatMap argumentParts = parts →
      Joins parts (callStatic .string .string "Concat" args)

/-! ### Parts with their places -/

/-- The parts of a sum of strings with the places where they stand, if the root stands at `p`. -/
def summandsAt (p : Position) : Expr → List (Position × Expr)
  | e@(binary _ _ left right) =>
    if e.isSum then left.summandsAt (p.child 0) ++ right.summandsAt (p.child 1) else [(p, e)]
  | e => [(p, e)]

/-- The parts of subtrees that stand side by side, the first of which is number `i`. -/
def rowAt (f : Position → Expr → List (Position × Expr)) (p : Position) (i : Nat) :
    List Expr → List (Position × Expr)
  | [] => []
  | e :: es => f (p.child i) e ++ rowAt f p (i + 1) es

/-- The parts of an argument of a concatenation with their places. -/
def argumentPartsAt (p : Position) : Expr → List (Position × Expr)
  | array _ items => rowAt summandsAt p 0 items
  | e => e.summandsAt p

/-- The parts of a sum of strings or of a call with their places. -/
def partsAt (p : Position) : Expr → List (Position × Expr)
  | callStatic _ _ _ args => rowAt argumentPartsAt p 0 args
  | e => e.summandsAt p

variable {d : Rules} {e t : Expr} {parts : List Expr}

section Rows

variable {f : Position → Expr → List (Position × Expr)} {p : Position} {es : List Expr}

/-- The trees of a row are those of its members, in order. -/
theorem map_snd_rowAt {g : Expr → List Expr} (h : ∀ e p, (f p e).map Prod.snd = g e) (i : Nat) :
    (rowAt f p i es).map Prod.snd = es.flatMap g := by
  induction es generalizing i with
  | nil => rfl
  | cons e es ih => rw [rowAt, List.map_append, h, ih, List.flatMap_cons]

/-- A role of trees in a row is made of values at their places. -/
theorem flatMap_layoutList {role : Layout → List Sql}
    (h : ∀ e p, role (e.layout d p) = (f p e).map fun x => x.2.value d x.1) (i : Nat) :
    (layoutList d p i es).flatMap role = (rowAt f p i es).map fun x => x.2.value d x.1 := by
  induction es generalizing i with
  | nil => rfl
  | cons e es ih => rw [layoutList, rowAt, List.flatMap_cons, List.map_append, h, ih]

/-- The places of a row lie below children of the node, from the first of them on. -/
theorem below_of_mem_rowAt (h : ∀ e p, Position.Scattered p ((f p e).map Prod.fst)) {i : Nat} :
    ∀ q ∈ (rowAt f p i es).map Prod.fst, ∃ j, i ≤ j ∧ (p.child j).Below q := by
  induction es generalizing i with
  | nil => simp [rowAt]
  | cons e es ih =>
    intro q hq
    rw [rowAt, List.map_append] at hq
    rcases List.mem_append.mp hq with hq | hq
    · exact ⟨i, Nat.le_refl i, (h e _).below q hq⟩
    · obtain ⟨j, hj, hbelow⟩ := ih q hq
      exact ⟨j, by omega, hbelow⟩

/-- No place of a row lies below another. -/
theorem scattered_rowAt (h : ∀ e p, Position.Scattered p ((f p e).map Prod.fst)) (i : Nat) :
    Position.Scattered p ((rowAt f p i es).map Prod.fst) := by
  induction es generalizing i with
  | nil => exact ⟨by simp [rowAt], by simp [rowAt]⟩
  | cons e es ih =>
    rw [rowAt, List.map_append]
    exact (h e _).append (ih (i + 1)).apart (below_of_mem_rowAt h)

end Rows

/-- Without their places, these are the parts. -/
theorem map_snd_summandsAt (e : Expr) (p : Position) :
    (e.summandsAt p).map Prod.snd = e.summands := by
  fun_induction summandsAt p e with
  | case1 p k op l r hsum ihl ihr => rw [summands, if_pos hsum, List.map_append, ihl, ihr]
  | case2 p k op l r hsum =>
    rw [summands, if_neg hsum]
    rfl
  | case3 p e he =>
    cases e with
    | binary k op l r => exact absurd rfl (he k op l r)
    | _ => rfl

/-- Without their places these are the parts that a tree gives to a concatenation. -/
theorem map_snd_argumentPartsAt (e : Expr) (p : Position) :
    (e.argumentPartsAt p).map Prod.snd = e.argumentParts := by
  cases e with
  | array => exact map_snd_rowAt map_snd_summandsAt 0
  | _ => exact map_snd_summandsAt _ p

/-- The places of the parts are apart from each other. -/
theorem scattered_summandsAt (e : Expr) (p : Position) :
    Position.Scattered p ((e.summandsAt p).map Prod.fst) := by
  fun_induction summandsAt p e with
  | case1 p k op l r hsum ihl ihr =>
    rw [List.map_append]
    exact ihl.append ihr.apart fun q hq => ⟨1, by omega, ihr.below q hq⟩
  | case2 p k op l r hsum => exact p.scattered_self
  | case3 p e he => exact p.scattered_self

/-- No such part lies below another. -/
theorem scattered_argumentPartsAt (e : Expr) (p : Position) :
    Position.Scattered p ((e.argumentPartsAt p).map Prod.fst) := by
  cases e with
  | array => exact scattered_rowAt scattered_summandsAt 0
  | _ => exact scattered_summandsAt _ p

/-- As a part of a concatenation, a tree is laid out to its parts. -/
theorem summands_layout (e : Expr) (p : Position) :
    (e.layout d p).summands = (e.summandsAt p).map fun x => x.2.value d x.1 := by
  fun_induction summandsAt p e with
  | case1 p k op l r hsum ihl ihr =>
    obtain ⟨rfl, rfl⟩ : op = .add ∧ k = .string := by simpa [isSum] using hsum
    rw [List.map_append, ← ihl, ← ihr]
    rfl
  | case2 p k op l r hsum =>
    -- A binary node that is no sum of strings is its own only summand.
    have hother : ¬ (op = .add ∧ k = .string) := by simpa [isSum] using hsum
    simp only [List.map, value, layout, if_neg hother]
    split <;> rfl
  | case3 p e he =>
    cases e with
    | binary k op l r => exact absurd rfl (he k op l r)
    | conditional =>
      simp only [List.map, value, layout]
      split <;> rfl
    | _ => rfl

/-- So it is as an argument, except that an array is laid out to the parts of its items. -/
theorem spread_layout (e : Expr) (p : Position) :
    (e.layout d p).spread = (e.argumentPartsAt p).map fun x => x.2.value d x.1 := by
  have hsame : e.isArray = false → (e.layout d p).spread = (e.layout d p).summands := by
    intro harray
    cases e with
    | array => simp [isArray] at harray
    | binary | conditional =>
      simp only [layout]
      split_ifs <;> rfl
    | _ => rfl
  cases e with
  | array => exact flatMap_layoutList summands_layout 0
  | _ => rw [hsame rfl, summands_layout]; rfl

/-! ### Trees that join the same parts -/

/-- A tree that joins parts has these parts, in whatever way it groups them. -/
theorem map_snd_partsAt (h : Joins parts t) (p : Position) :
    (t.partsAt p).map Prod.snd = parts := by
  cases h with
  | call hargs =>
    rw [← hargs]
    exact map_snd_rowAt map_snd_argumentPartsAt 0
  | sum hsum hparts =>
    rw [← hparts]
    cases t with
    | callStatic => simp [isSum] at hsum
    | _ => exact map_snd_summandsAt _ p

/-- No part of a concatenation lies below another. -/
theorem scattered_partsAt (t : Expr) (p : Position) :
    Position.Scattered p ((t.partsAt p).map Prod.fst) := by
  cases t with
  | callStatic => exact scattered_rowAt scattered_argumentPartsAt 0
  | _ => exact scattered_summandsAt _ p

/-- Trees that join some parts look the same from above. -/
theorem Joins.similar {t' : Expr} (h : Joins parts t) (h' : Joins parts t') : Similar t t' := by
  -- A parent looks at the kind of its operand and at whether it is a condition or a null constant;
  -- both spellings look the same to it.
  have hlook : ∀ {t}, Joins parts t →
      t.kind = .string ∧ t.isPredicate = false ∧ t.isNullConstant = false := by
    intro t h
    cases h with
    | call => exact ⟨rfl, rfl, rfl⟩
    | sum hsum _ =>
      cases t with
      | binary k op l r =>
        obtain ⟨rfl, rfl⟩ : op = .add ∧ k = .string := by simpa [isSum] using hsum
        exact ⟨rfl, rfl, rfl⟩
      | _ => simp [isSum] at hsum
  obtain ⟨hkind, hpredicate, hnull⟩ := hlook h
  obtain ⟨hkind', hpredicate', hnull'⟩ := hlook h'
  exact ⟨hkind.trans hkind'.symm, hpredicate.trans hpredicate'.symm, hnull.trans hnull'.symm⟩

/-- A call that concatenates is laid out to what its arguments stand for. -/
theorem layout_concatCall {args : List Expr} (hargs : args ≠ []) (p : Position) :
    (callStatic .string .string "Concat" args).layout d p =
      Layout.ofNode d false (.concat d.concat ((layoutList d p 0 args).flatMap Layout.spread)) := by
  have hadmits : (Method.string .concat).signature.admits args.length := by
    have hlength : 1 ≤ args.length := List.length_pos_iff.mpr hargs
    exact Bool.and_eq_true_iff.mpr ⟨decide_eq_true hlength, rfl⟩
  have hmethod : Family.string.method? "Concat" = some (.string .concat) := by decide
  have hstandalone : (Method.string .concat).signature.hasReceiver = false := rfl
  simp only [layout, Layout.callBody, hmethod, hstandalone, ne_eq, not_true_eq_false, if_false,
    hadmits, if_true, Layout.methodBody]
  rfl

/-- **One row of parts.** A tree that joins some parts is laid out to their concatenation, and a sum
    offers these parts to a concatenation around it. -/
theorem exists_layout_of_joins (h : Joins parts t) (hparts : parts ≠ []) (p : Position) :
    let row := (t.partsAt p).map fun x => x.2.value d x.1
    ∃ summands spread, t.layout d p =
        { Layout.ofNode d false (.concat d.concat row) with summands, spread } ∧
      (t.isSum → summands = row ∧ spread = row) := by
  intro row
  cases h with
  | @call args hargs =>
    have hne : args ≠ [] := by
      rintro rfl
      exact hparts hargs.symm
    have hrow : (layoutList d p 0 args).flatMap Layout.spread = row :=
      flatMap_layoutList spread_layout 0
    have hlayout := layout_concatCall (d := d) hne p
    rw [hrow] at hlayout
    exact ⟨_, _, hlayout, by simp [isSum]⟩
  | sum hsum _ =>
    cases t with
    | binary k op l r =>
      obtain ⟨rfl, rfl⟩ : op = .add ∧ k = .string := by simpa [isSum] using hsum
      have hrow : (l.layout d (p.child 0)).summands ++ (r.layout d (p.child 1)).summands = row := by
        rw [summands_layout, summands_layout, ← List.map_append]
        rfl
      refine ⟨row, row, ?_, fun _ => ⟨rfl, rfl⟩⟩
      rw [← hrow]
      rfl
    | _ => simp [isSum] at hsum

open Layout (Related)

/-- The same parts at other places are laid out to values that differ in these places only. -/
theorem values_moved {M : Position → Position → Prop} {row row' : List (Position × Expr)}
    (hsame : row.map Prod.snd = row'.map Prod.snd)
    (hM : ∀ (i : Nat) (p p' : Position) (steps : List Nat), (row.map Prod.fst)[i]? = some p →
      (row'.map Prod.fst)[i]? = some p' → M (p.descend steps) (p'.descend steps)) :
    List.Forall₂ (fun s s' => s.draft.Moved M s'.draft) (row.map fun x => x.2.value d x.1)
      (row'.map fun x => x.2.value d x.1) := by
  have hlength : row.length = row'.length := by simpa using congrArg List.length hsame
  rw [List.forall₂_map_left_iff, List.forall₂_map_right_iff, List.forall₂_iff_get]
  refine ⟨hlength, fun i hi hi' => ?_⟩
  -- The two rows list the same trees, at places that differ from row to row.
  have hexpr : (row.get ⟨i, hi⟩).2 = (row'.get ⟨i, hi'⟩).2 := by
    simpa [hi, hi'] using congrArg (·[i]?) hsame
  have hplaces := fun steps => hM i _ _ steps
    (List.getElem?_map.trans (congrArg _ (List.getElem?_eq_getElem hi)))
    (List.getElem?_map.trans (congrArg _ (List.getElem?_eq_getElem hi')))
  have hrespects := Draft.moved_respects M d
  rw [← hexpr]
  exact (layout_related_places hrespects.toPreserves (fun _ => .fault) (fun _ => .column) _
    fun steps c => .constant ⟨hplaces steps, rfl⟩).value

/-- Trees that join the same parts are laid out alike at one place. As parts of a concatenation they
    are so if both are sums. -/
theorem joins_related {t' : Expr} (h : Joins parts t) (h' : Joins parts t') (hparts : parts ≠ [])
    (p : Position) :
    let M := Position.Carried p ((t.partsAt p).map Prod.fst) ((t'.partsAt p).map Prod.fst)
    Related (t.isSum ∧ t'.isSum) (t.isSum ∧ t'.isSum) (fun s s' => s.draft.Moved M s'.draft)
      (t.layout d p) (t'.layout d p) := by
  intro M
  have hvalues := values_moved (d := d) (M := M)
    ((map_snd_partsAt h p).trans (map_snd_partsAt h' p).symm)
    fun i q q' steps hq hq' => .inr ⟨i, q, q', steps, hq, hq', rfl, rfl⟩
  obtain ⟨summands, spread, hlayout, hsum⟩ := exists_layout_of_joins (d := d) h hparts p
  obtain ⟨summands', spread', hlayout', hsum'⟩ := exists_layout_of_joins (d := d) h' hparts p
  rw [hlayout, hlayout']
  have hrespects := Draft.moved_respects M d
  -- Only two sums agree in what a parent that flattens them would take out; everything else of the
  -- two layouts agrees in any case.
  have hown : Related False False _ _ _ :=
    Layout.ofNode_related hrespects.toPreserves d.agrees_refl false (hrespects.concat hvalues)
  exact { hown with
    summands := by
      rintro ⟨ht, ht'⟩
      rw [(hsum ht).1, (hsum' ht').1]
      exact hvalues
    spread := by
      rintro ⟨ht, ht'⟩
      rw [(hsum ht).2, (hsum' ht').2]
      exact hvalues }

end Expr

namespace Renderer

open WhereClause.Expr (Joins)

/-- **Grouping does not matter.** Two trees that join the same parts can stand for each other at any
    place of a tree: the query is the same, with its text and its parameters, or there is none in
    both cases. Only where a concatenation takes its operands apart do both have to be sums. -/
theorem query_regrouped (r : Renderer) (mode : Mode) {parts : List Expr} (hparts : parts ≠ [])
    {t t' : Expr} (ht : Joins parts t) (ht' : Joins parts t') (e : Expr) (path : List Nat)
    (hplace : Expr.isTakenApart false false e path → t.isSum ∧ t'.isSum) :
    ((r.settings mode).query (e.replaceAt path t)).toOption =
      ((r.settings mode).query (e.replaceAt path t')).toOption := by
  cases hpath : e.subtreeAt? path with
  | none =>
    rw [Expr.replaceAt_of_subtreeAt?_eq_none hpath, Expr.replaceAt_of_subtreeAt?_eq_none hpath]
  | some _ =>
    let q := (Position.root 0).descend path.reverse
    let M := Position.Carried q ((t.partsAt q).map Prod.fst) ((t'.partsAt q).map Prod.fst)
    have hM : Position.OneToOne M :=
      Position.carried_oneToOne (Expr.scattered_partsAt t q) (Expr.scattered_partsAt t' q)
    -- Constants around the trees stay where they are.
    have hstays : ∀ place c, ¬ q.Below place →
        (Sql.constant place c).draft.Moved M (Sql.constant place c).draft :=
      fun place c hplace => .constant ⟨.inl ⟨rfl, hplace⟩, rfl⟩
    have hrelated := Expr.joins_related (d := (r.settings mode).rules) ht ht' hparts q
    refine Settings.query_of_moved hM ?_
    exact (Expr.layout_replaceAt_related (Draft.moved_respects M _) (fun _ => .column) id
      (by rw [hpath]; rfl) hstays (ht.similar ht') (hrelated.mono hplace hplace)).2.predicate

/-- A sum of strings and a call with an array join the same three parts, of which the last is a sum
    of numbers and stays as it is. -/
theorem query_regrouped_array :
    let r := Renderer.of .oracle
    let name := Build.column "Name" .string
    let mark := Build.literal (.string "-")
    let number := Build.binary .add (Build.column "Number" .integer)
      (Build.literal (.int ⟨.i32, 1, by decide⟩))
    let sum := Build.binary .add name (Build.binary .add mark number)
    let call := Build.concat [Build.array [name, mark], number]
    let e := Build.binary .equal (Build.column "Label" .string) (Build.literal (.string "x-2"))
    let written (t : Expr) :=
      (r.parameterized (e.replaceAt [0] t)).toOption.map fun q =>
        (q.sql, q.parameters.map Parameter.name)
    Joins [name, mark, number] sum ∧ Joins [name, mark, number] call ∧
      Expr.isTakenApart false false e [0] = false ∧
      written sum = some ("((Name || :p0 || (Number + :p1)) = :p2)", ["p0", "p1", "p2"]) ∧
      written call = written sum := by
  intro r name mark number sum call e written
  have hsum : Joins [name, mark, number] sum := .sum rfl rfl
  have hcall : Joins [name, mark, number] call := .call rfl
  have hplace : Expr.isTakenApart false false e [0] = false := rfl
  have hsame := query_regrouped r (.parameterized r.policy) (by simp) hcall hsum e [0]
    (fun h => absurd h (by rw [hplace]; simp))
  refine ⟨hsum, hcall, hplace, by decide +kernel, ?_⟩
  exact congrArg (Option.map _) hsame

/-- The items of an array that is an argument of a concatenation are taken apart as well, although
    the parent of an item is the array: a call among them stays one part, and a sum does not. -/
theorem inline_regrouped_item :
    let r := Renderer.of .generic
    let a := Build.column "A" .string
    let b := Build.column "B" .string
    let c := Build.column "C" .string
    let e := Build.binary .equal (Build.concat [Build.array [a, b]]) (Build.column "D" .string)
    let parent := Build.array [a, b]
    Joins [b, c] (Build.concat [b, c]) ∧ Joins [b, c] (Build.binary .add b c) ∧
      e.subtreeAt? [0, 0] = some parent ∧ parent.isSum = false ∧ parent.isConcatCall = false ∧
      r.inline (e.replaceAt [0, 0, 1] (Build.concat [b, c])) = .ok "((A || (B || C)) = D)" ∧
      r.inline (e.replaceAt [0, 0, 1] (Build.binary .add b c)) = .ok "((A || B || C) = D)" :=
  ⟨.call rfl, .sum rfl rfl, rfl, rfl, rfl, by decide +kernel, by decide +kernel⟩

end Renderer

end WhereClause
