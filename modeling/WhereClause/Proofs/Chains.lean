import WhereClause.Dialect
import WhereClause.Expr.Build
import WhereClause.Proofs.Compound
import WhereClause.Proofs.Meaning
import WhereClause.Proofs.Relocation

namespace WhereClause

/-!
# Chains of choices

Conditionals and alternatives to null can be nested in each other. A dialect writes a chain of them
as one `case` or one `COALESCE`, where the last place of the chain goes on with it, or step by step.
Either way the text, read as SQL, has the value that the tree has node by node.

* `Chain`, `Expr.chain` — the choices at the top of a tree, and the subtrees they choose from;
* `Chain.value` — the value of a tree, node by node;
* `Sql.Denotes` — an expression whose text has a given value, and the places it mentions;
* `Layout.Chained` — what the roles of a node have to do with its value;
* `Expr.value_computes_chain` — the text of every tree has its value.
-/

/-! ### Chains -/

/-- A subtree at the end of a chain, which is a test or a value. -/
structure Leaf where
  place : Position
  expr : Expr
  isTest : Bool

/-- The expression of a leaf in a dialect. -/
def Leaf.sql (d : Rules) (l : Leaf) : Sql := (l.expr.layout d l.place).role l.isTest

/-- The choices at the top of a tree. -/
inductive Chain where
  | leaf (place : Position) (e : Expr)
  /-- The first of two values that is not null. -/
  | given (first second : Chain)
  /-- One of two values, by a test that stands at a place. -/
  | choice (place : Position) (test : Expr) (ifTrue ifFalse : Chain)

namespace Chain

/-- The leaves of a chain, from left to right. -/
def leaves : Chain → List Leaf
  | leaf place e => [⟨place, e, false⟩]
  | given first second => first.leaves ++ second.leaves
  | choice place test l r => ⟨place, test, true⟩ :: (l.leaves ++ r.leaves)

/-- The value of a chain for given values of its leaves. -/
def value (ρ : Position → Datum) : Chain → Datum
  | leaf place _ => ρ place
  | given first second => if first.value ρ = .null then second.value ρ else first.value ρ
  | choice place _ l r => if (ρ place).isTrue then l.value ρ else r.value ρ

end Chain

/-- The choices at the top of a tree whose root stands at `p`. A test that is not Boolean is no test
    of a chain. -/
def Expr.chain (p : Position) : Expr → Chain
  | .binary _ .coalesce left right => .given (left.chain (p.child 0)) (right.chain (p.child 1))
  | e@(.conditional _ test ifTrue ifFalse) =>
    if test.isBoolean then
      .choice (p.child 0) test (ifTrue.chain (p.child 1)) (ifFalse.chain (p.child 2))
    else .leaf p e
  | e => .leaf p e

/-- The leaves of a tree are apart from each other. -/
theorem Expr.scattered_leaves (e : Expr) (p : Position) :
    Position.Scattered p ((e.chain p).leaves.map Leaf.place) := by
  fun_induction Expr.chain p e with
  | case1 p k l r ihl ihr =>
    rw [Chain.leaves, List.map_append]
    exact ihl.append ihr.apart fun q hq => ⟨1, by omega, ihr.below q hq⟩
  | case2 p k test l r hb ihl ihr =>
    -- The test stands at the first child, below which neither of the two values reaches.
    have hvalues := ihl.append ihr.apart fun q hq => ⟨2, by omega, ihr.below q hq⟩
    rw [Chain.leaves, List.map_cons, List.map_append]
    refine (Position.scattered_self (p.child 0)).append hvalues.apart fun q hq => ?_
    rcases List.mem_append.mp hq with hq | hq
    · exact ⟨1, by omega, ihl.below q hq⟩
    · exact ⟨2, by omega, ihr.below q hq⟩
  | case3 p k test l r hb => exact p.scattered_self
  | case4 p e h h' => exact p.scattered_self

/-! ### Texts and their values -/

/-- The value of the first branch whose test holds, or what remains. -/
def Datum.firstHolding : List (Datum × Datum) → Datum → Datum
  | [], otherwise => otherwise
  | (test, value) :: rest, otherwise =>
    if test.isTrue then value else firstHolding rest otherwise

/-- What is given of the leaves around an expression: their drafts in a row, and the row of their
    values if each place has a value. -/
structure Surroundings where
  drafts : List Draft
  data : (Position → Datum) → List Datum

/-- What a text says: the leaves it mentions, by their numbers, and its value. -/
structure Sense where
  slots : List Nat
  value : (Position → Datum) → Datum

namespace Sense

/-- The first of several values that is not null. -/
def firstGiven (xs : List Sense) : Sense :=
  ⟨xs.flatMap slots, fun ρ => Datum.firstGiven (xs.map fun x => x.value ρ)⟩

/-- The value of the first branch whose test holds, or what remains. -/
def firstHolding (ys : List (Sense × Sense)) (z : Sense) : Sense :=
  ⟨ys.flatMap (fun y => y.1.slots ++ y.2.slots) ++ z.slots, fun ρ =>
    Datum.firstHolding (ys.map fun y => (y.1.value ρ, y.2.value ρ)) (z.value ρ)⟩

/-- The first of two values that is not null. -/
def given (x y : Sense) : Sense :=
  ⟨x.slots ++ y.slots, fun ρ => if x.value ρ = .null then y.value ρ else x.value ρ⟩

/-- One of two values, by a test. -/
def choice (t x y : Sense) : Sense :=
  ⟨t.slots ++ (x.slots ++ y.slots), fun ρ =>
    if (t.value ρ).isTrue then x.value ρ else y.value ρ⟩

/-- The same value, and the same leaves if chains are flattened. -/
structure Agrees (flat : Prop) (x y : Sense) : Prop where
  value : ∀ ρ, x.value ρ = y.value ρ
  slots : flat → x.slots = y.slots

variable {flat : Prop} {t x x' y z : Sense} {ys : List Sense} {bs : List (Sense × Sense)}

/-- A sense agrees with itself. -/
theorem agrees_refl (x : Sense) : x.Agrees flat x := ⟨fun _ => rfl, fun _ => rfl⟩

/-- A value before alternatives. -/
theorem firstGiven_cons (hx : x'.Agrees flat x) (hys : (firstGiven ys).Agrees flat y) :
    (firstGiven (x' :: ys)).Agrees flat (x.given y) := by
  refine ⟨fun ρ => ?_, fun hflat => ?_⟩
  · have hrest : Datum.firstGiven (ys.map fun y => y.value ρ) = y.value ρ := hys.value ρ
    simp only [firstGiven, List.map_cons, Datum.firstGiven, hx.value ρ, hrest, given]
  · have hrest : ys.flatMap slots = y.slots := hys.slots hflat
    simp only [firstGiven, List.flatMap_cons, hx.slots hflat, hrest, given]

/-- A branch before others. -/
theorem firstHolding_cons (hx : x'.Agrees flat x) (hbs : (firstHolding bs z).Agrees flat y) :
    (firstHolding ((t, x') :: bs) z).Agrees flat (t.choice x y) := by
  refine ⟨fun ρ => ?_, fun hflat => ?_⟩
  · have hrest := hbs.value ρ
    simp only [firstHolding] at hrest
    simp only [firstHolding, List.map_cons, Datum.firstHolding, hx.value ρ, hrest, choice]
  · have hrest := hbs.slots hflat
    simp only [firstHolding] at hrest
    simp only [firstHolding, List.flatMap_cons, List.append_assoc, hx.slots hflat, hrest, choice]

end Sense

namespace Chain

/-- What a chain is worth, with its leaves by their numbers. -/
def sense (number : Position → Nat) (c : Chain) : Sense :=
  ⟨c.leaves.map fun l => number l.place, fun ρ => c.value ρ⟩

/-- The sense of a chain that goes on with another. -/
theorem sense_given (number : Position → Nat) (first second : Chain) :
    (given first second).sense number = (first.sense number).given (second.sense number) := by
  simp only [sense, leaves, List.map_append, Sense.given]
  rfl

/-- The sense of a choice between two chains. -/
theorem sense_choice (number : Position → Nat) (place : Position) (test : Expr) (l r : Chain) :
    (choice place test l r).sense number =
      Sense.choice ⟨[number place], fun ρ => ρ place⟩ (l.sense number) (r.sense number) := by
  simp only [sense, leaves, value, List.map_cons, List.map_append, Sense.choice,
    List.singleton_append]

end Chain

/-- An expression whose text says something about the leaves around it. -/
def Sql.Denotes (w : Surroundings) (s : Sql) (x : Sense) : Prop :=
  ∃ t c, Template.Covers w.drafts t s.draft ∧ t.slots = x.slots ∧ t.ReadsAs c ∧
    ∀ ρ, c.eval (w.data ρ) = some (x.value ρ)

/-- So for a branch of a `case`, which is a test with a value. -/
def Sql.DenoteBoth (w : Surroundings) (b : Sql × Sql) (y : Sense × Sense) : Prop :=
  b.1.Denotes w y.1 ∧ b.2.Denotes w y.2

namespace Template

/-- An empty template has no slots. -/
@[simp] theorem slots_nil : slots [] = [] := rfl

/-- Unfolding lemma: a text is no slot. -/
@[simp] theorem slots_text_cons (s : String) (t : Template) : slots (.text s :: t) = slots t := rfl

/-- The slots of two templates are those of both. -/
@[simp] theorem slots_append (t u : Template) : slots (t ++ u) = slots t ++ slots u :=
  List.filterMap_append

end Template

namespace Sql

open Template (Covers Takes takes_closing)

variable {w : Surroundings} {s : Sql} {x : Sense}

/-- A level denotes what is inside it. -/
theorem Denotes.level (h : s.Denotes w x) : (level s).Denotes w x := by
  obtain ⟨t, c, ht, hslots, hreads, heval⟩ := h
  exact ⟨t, c, ht.level, hslots, hreads, heval⟩

/-- Arguments with commas between them are read one by one. -/
theorem denotes_join {ss : List Sql} {xs : List Sense} (hne : ss ≠ [])
    (h : List.Forall₂ (Denotes w) ss xs) :
    ∃ t init last, Covers w.drafts t (Draft.join ", " (draftList ss)) ∧
      t.slots = xs.flatMap Sense.slots ∧
      (∀ outer head parts, t.Takes ⟨outer, ⟨head, parts, []⟩, none⟩
        ⟨outer, ⟨head, parts ++ init.map fun c => (c, ","), []⟩, some last⟩) ∧
      ∀ ρ, Computation.evalList (w.data ρ) (init ++ [last]) = some (xs.map fun x => x.value ρ) := by
  induction h with
  | nil => exact absurd rfl hne
  | @cons s x ss xs hs hss ih =>
    obtain ⟨t, c, ht, hslots, hreads, heval⟩ := hs
    cases hss with
    | nil =>
      refine ⟨t, [], c, ht, by simp [hslots], fun outer head parts => ?_, fun ρ => ?_⟩
      · rw [List.map_nil, List.append_nil]
        exact hreads outer ⟨head, parts, []⟩
      · simp [Computation.evalList, heval]
    | @cons s' x' ss xs hs' hss =>
      -- All but the last argument end at a comma, so the argument read so far joins the parts of
      -- the call.
      obtain ⟨t', init, last, ht', hslots', htakes, heval'⟩ := ih (by simp)
      have hcomma : ∀ outer head parts, Takes [.text ", "] ⟨outer, ⟨head, parts, []⟩, some c⟩
          ⟨outer, ⟨head, parts ++ [(c, ",")], []⟩, none⟩ := fun _ _ _ _ => rfl
      refine ⟨t ++ [.text ", "] ++ t', c :: init, last, (ht.append (.text _)).append ht', ?_,
        fun outer head parts => ?_, fun ρ => ?_⟩
      · simp [hslots, hslots']
      · rw [List.map_cons, List.append_cons parts]
        exact ((hreads _ _).append (hcomma _ _ _)).append (htakes _ _ _)
      · rw [List.cons_append, Computation.evalList, heval, heval']
        rfl

/-- **`COALESCE`.** The text of the first part that is not null has the value of this part. -/
theorem denotes_coalesce {ss : List Sql} {xs : List Sense} (hne : ss ≠ [])
    (h : List.Forall₂ (Denotes w) ss xs) :
    (coalesce ss).Denotes w (.firstGiven xs) := by
  obtain ⟨t, init, last, ht, hslots, htakes, heval⟩ := denotes_join hne h
  refine ⟨[.text "COALESCE("] ++ t ++ [.text ")"],
    .call "COALESCE" (init.map fun _ => ",") (init ++ [last]),
    ((Covers.text _).append ht).append (.text _), by simp [hslots, Sense.firstGiven],
    fun outer bracket => ?_,
    fun ρ => ?_⟩
  · have hopen : Takes [.text "COALESCE("] ⟨outer, bracket, none⟩
        ⟨bracket :: outer, ⟨"COALESCE", [], []⟩, none⟩ := fun _ => rfl
    refine (hopen.append (htakes _ _ _)).append (takes_closing (by decide) ?_)
    simp [Computation.ofBrackets, Function.comp_def]
  · rw [Computation.eval_call (by decide), heval]
    simp [Datum.apply, Sense.firstGiven]

/-- The branches of a `case` are read one by one, after the first `when`. -/
theorem denotes_branches {bs : List (Sql × Sql)} {ys : List (Sense × Sense)} (hne : bs ≠ [])
    (h : List.Forall₂ (DenoteBoth w) bs ys) :
    ∃ (t : Template) (parts : List (Computation × String)) (last : Computation),
      Covers w.drafts ([.text " when "] ++ t) (draftBranches bs) ∧
      t.slots = ys.flatMap (fun y => y.1.slots ++ y.2.slots) ∧
      (∀ outer before, t.Takes ⟨outer, ⟨"case", before, []⟩, none⟩
        ⟨outer, ⟨"case", before ++ parts, []⟩, some last⟩) ∧
      ∀ o, ∃ c, Computation.ofCase (parts ++ [(last, "else")]) o = some c ∧
        ∀ ρ z, o.eval (w.data ρ) = some z → c.eval (w.data ρ) =
          some (Datum.firstHolding (ys.map fun y => (y.1.value ρ, y.2.value ρ)) z) := by
  induction h with
  | nil => exact absurd rfl hne
  | @cons b y bs ys hb hbs ih =>
    obtain ⟨test, value⟩ := b
    obtain ⟨⟨t, c, ht, hslots, hreads, heval⟩, ⟨u, a, hu, hslots', hreads', heval'⟩⟩ := hb
    -- The reader keeps a branch as two parts, the test ended by `then` and the value by the next
    -- `when` or by `else`.
    have hthen : ∀ outer before, Takes [.text " then "] ⟨outer, ⟨"case", before, []⟩, some c⟩
        ⟨outer, ⟨"case", before ++ [(c, "then")], []⟩, none⟩ := fun _ _ _ => rfl
    have hbranch := (((Covers.text " when ").append ht).append (.text " then ")).append hu
    have htakes := fun outer before => ((hreads outer ⟨"case", before, []⟩).append
      (hthen outer before)).append (hreads' outer ⟨"case", before ++ [(c, "then")], []⟩)
    cases hbs with
    | nil =>
      have hcovers : Covers w.drafts _ (draftBranches [(test, value)]) := hbranch.append .empty
      refine ⟨t ++ [.text " then "] ++ u, [(c, "then")], a, ?_, by simp [hslots, hslots'], htakes,
        fun o => ⟨.choice c a o, rfl, fun ρ z hz => ?_⟩⟩
      · simpa only [List.append_assoc, List.append_nil] using hcovers
      · simp only [Computation.eval, heval, heval', hz, Option.bind_some]
        exact (apply_ite some _ _ _).symm
    | @cons b' y' bs ys hb' hbs =>
      obtain ⟨v, parts, last, hv, hslots'', hlater, hcase⟩ := ih (by simp)
      have hwhen : ∀ outer before, Takes [.text " when "] ⟨outer, ⟨"case", before, []⟩, some a⟩
          ⟨outer, ⟨"case", before ++ [(a, "when")], []⟩, none⟩ := fun _ _ _ => rfl
      have hcovers : Covers w.drafts _ (draftBranches ((test, value) :: b' :: bs)) :=
        hbranch.append hv
      refine ⟨t ++ [.text " then "] ++ u ++ ([.text " when "] ++ v),
        (c, "then") :: (a, "when") :: parts, last, ?_, by simp [hslots, hslots', hslots''],
        fun outer before => ?_, fun o => ?_⟩
      · simpa only [List.append_assoc] using hcovers
      · have hread := (htakes outer before).append ((hwhen _ _).append (hlater _ _))
        simpa only [List.append_assoc, List.cons_append, List.nil_append] using hread
      · obtain ⟨b, hb, hvalue⟩ := hcase o
        refine ⟨.choice c a b, ?_, fun ρ z hz => ?_⟩
        · rw [List.cons_append, List.cons_append, Computation.ofCase, hb]
          rfl
        · simp only [Computation.eval, heval, heval', hvalue ρ z hz, Option.bind_some]
          exact (apply_ite some _ _ _).symm

/-- **`case`.** The text of a `case` has the value of the first branch whose test holds. -/
theorem denotes_caseWhen {bs : List (Sql × Sql)} {o : Sql} {ys : List (Sense × Sense)} {z : Sense}
    (hne : bs ≠ []) (h : List.Forall₂ (DenoteBoth w) bs ys) (ho : o.Denotes w z) :
    (caseWhen bs o).Denotes w (.firstHolding ys z) := by
  obtain ⟨t, parts, last, ht, hslots, htakes, hcase⟩ := denotes_branches hne h
  obtain ⟨u, a, hu, hslots', hreads, heval⟩ := ho
  obtain ⟨c, hc, hvalue⟩ := hcase a
  refine ⟨[.text "(case"] ++ ([.text " when "] ++ t) ++ [.text " else "] ++ u ++ [.text " end)"], c,
    ((((Covers.text _).append ht).append (.text _)).append hu).append (.text _),
    by simp [hslots, hslots', Sense.firstHolding], fun outer bracket => ?_,
    fun ρ => hvalue ρ _ (heval ρ)⟩
  -- The parenthesis opens a bracket of its own around the one of `case`; `end)` closes both.
  have hopen : Takes ([.text "(case"] ++ [.text " when "]) ⟨outer, bracket, none⟩
      ⟨⟨"", [], []⟩ :: bracket :: outer, ⟨"case", [], []⟩, none⟩ := fun _ => rfl
  have helse : Takes [.text " else "]
      ⟨⟨"", [], []⟩ :: bracket :: outer, ⟨"case", [] ++ parts, []⟩, some last⟩
      ⟨⟨"", [], []⟩ :: bracket :: outer, ⟨"case", parts ++ [(last, "else")], []⟩, none⟩ :=
    fun _ => rfl
  have hread := (((hopen.append (htakes _ _)).append helse).append (hreads _ _)).append
    (Template.takes_end hc)
  simpa only [List.append_assoc] using hread

/-- A choice step by step. -/
theorem denotes_choice {t l r : Sql} {x y z : Sense} (ht : t.Denotes w x) (hl : l.Denotes w y)
    (hr : r.Denotes w z) :
    (form ["IIF(", 0, ", ", 1, ", ", 2, ")"] [t, l, r]).Denotes w (.choice x y z) := by
  obtain ⟨t, c, ht, hslots, hreads, heval⟩ := ht
  obtain ⟨u, a, hu, hslots', hreads', heval'⟩ := hl
  obtain ⟨v, b, hv, hslots'', hreads'', heval''⟩ := hr
  refine ⟨[.text "IIF("] ++ (t ++ ([.text ", "] ++ (u ++ ([.text ", "] ++
    (v ++ ([.text ")"] ++ [])))))), .choice c a b,
    .append (.text _) (.append (.operand ht) (.append (.text _) (.append (.operand hu)
      (.append (.text _) (.append (.operand hv) (.append (.text _) .empty)))))),
    by simp [hslots, hslots', hslots'', Sense.choice], fun outer bracket => ?_, fun ρ => ?_⟩
  · have hopen : Takes [.text "IIF("] ⟨outer, bracket, none⟩
        ⟨bracket :: outer, ⟨"IIF", [], []⟩, none⟩ := fun _ => rfl
    have hcomma : Takes [.text ", "] ⟨bracket :: outer, ⟨"IIF", [], []⟩, some c⟩
        ⟨bracket :: outer, ⟨"IIF", [(c, ",")], []⟩, none⟩ := fun _ => rfl
    have hcomma' : Takes [.text ", "] ⟨bracket :: outer, ⟨"IIF", [(c, ",")], []⟩, some a⟩
        ⟨bracket :: outer, ⟨"IIF", [(c, ","), (a, ",")], []⟩, none⟩ := fun _ => rfl
    have hclose : Takes ([.text ")"] ++ [])
        ⟨bracket :: outer, ⟨"IIF", [(c, ","), (a, ",")], []⟩, some b⟩
        ⟨outer, bracket, some (.choice c a b)⟩ := fun _ => rfl
    exact hopen.append ((hreads _ _).append (hcomma.append ((hreads' _ _).append
      (hcomma'.append ((hreads'' _ _).append hclose)))))
  · simp only [Computation.eval, heval, heval', heval'', Option.bind_some]
    exact (apply_ite some _ _ _).symm

/-- The first value that is not null, step by step. -/
theorem denotes_given {l r : Sql} {x y : Sense} (hl : l.Denotes w x) (hr : r.Denotes w y) :
    (form ["IIF(", 0, " is not null, ", 0, ", ", 1, ")"] [l, r]).Denotes w
      ⟨x.slots ++ (x.slots ++ y.slots), (x.given y).value⟩ := by
  obtain ⟨t, c, ht, hslots, hreads, heval⟩ := hl
  obtain ⟨u, a, hu, hslots', hreads', heval'⟩ := hr
  refine ⟨[.text "IIF("] ++ (t ++ ([.text " is not null, "] ++ (t ++ ([.text ", "] ++
    (u ++ ([.text ")"] ++ [])))))), .choice (.isNotNull c) c a,
    .append (.text _) (.append (.operand ht) (.append (.text _) (.append (.operand ht)
      (.append (.text _) (.append (.operand hu) (.append (.text _) .empty)))))),
    by simp [hslots, hslots'], fun outer bracket => ?_, fun ρ => ?_⟩
  · have hopen : Takes [.text "IIF("] ⟨outer, bracket, none⟩
        ⟨bracket :: outer, ⟨"IIF", [], []⟩, none⟩ := fun _ => rfl
    -- The null test is read before the comma, so the part kept is the test and not the bare
    -- operand.
    have htest : Takes [.text " is not null, "] ⟨bracket :: outer, ⟨"IIF", [], []⟩, some c⟩
        ⟨bracket :: outer, ⟨"IIF", [(.isNotNull c, ",")], []⟩, none⟩ := fun _ => rfl
    have hcomma : Takes [.text ", "] ⟨bracket :: outer, ⟨"IIF", [(.isNotNull c, ",")], []⟩, some c⟩
        ⟨bracket :: outer, ⟨"IIF", [(.isNotNull c, ","), (c, ",")], []⟩, none⟩ := fun _ => rfl
    have hclose : Takes ([.text ")"] ++ [])
        ⟨bracket :: outer, ⟨"IIF", [(.isNotNull c, ","), (c, ",")], []⟩, some a⟩
        ⟨outer, bracket, some (.choice (.isNotNull c) c a)⟩ := fun _ => rfl
    exact hopen.append ((hreads _ _).append (htest.append ((hreads _ _).append
      (hcomma.append ((hreads' _ _).append hclose)))))
  · by_cases hnull : x.value ρ = .null
    · simp [Computation.eval, heval, heval', hnull, Datum.truth, Datum.isTrue, Sense.given]
    · simp [Computation.eval, heval, hnull, Datum.truth, Datum.isTrue, Sense.given]

end Sql

/-! ### Roles -/

/-- A node says in all of its roles what it is worth: as a value, as the last alternative to null,
    and as the last case. -/
structure Layout.Chained (w : Surroundings) (flat : Prop) (x : Sense) (l : Layout) : Prop where
  value : ∃ y, l.value.Denotes w y ∧ y.Agrees flat x
  alternatives : ∃ ys, List.Forall₂ (Sql.Denotes w) l.alternatives ys ∧
    (Sense.firstGiven ys).Agrees flat x
  branches : ∃ ys z, List.Forall₂ (Sql.DenoteBoth w) l.branches ys ∧ l.otherwise.Denotes w z ∧
    (Sense.firstHolding ys z).Agrees flat x

namespace Layout

variable {w : Surroundings} {flat : Prop} {x y : Sense} {l r : Layout} {d : Rules}

/-- A node that no chain goes on with. -/
theorem chained_of_value (h : ∃ y, l.value.Denotes w y ∧ y.Agrees flat x)
    (halternatives : l.alternatives = [l.value]) (hbranches : l.branches = [])
    (hotherwise : l.otherwise = l.value) : l.Chained w flat x := by
  obtain ⟨y, hy, hagrees⟩ := h
  refine ⟨⟨y, hy, hagrees⟩, ⟨[y], ?_, ?_, ?_⟩, ⟨[], y, ?_, ?_, ?_⟩⟩
  · rw [halternatives]
    exact .cons hy .nil
  · intro ρ
    rw [← hagrees.value ρ]
    by_cases hnull : y.value ρ = .null <;> simp [Sense.firstGiven, Datum.firstGiven, hnull]
  · intro hflat
    simpa [Sense.firstGiven] using hagrees.slots hflat
  · rw [hbranches]
    exact .nil
  · rwa [hotherwise]
  · exact ⟨hagrees.value, hagrees.slots⟩

end Layout

namespace Dialect

/-- Alternatives to null are flattened, or written step by step. -/
theorem coalesce_eq (d : Dialect) : d.rules.coalesce = .flatten ∨
    d.rules.coalesce = .nested ["IIF(", 0, " is not null, ", 0, ", ", 1, ")"] := by
  cases d with
  | access => exact .inr rfl
  | _ => exact .inl rfl

/-- So are conditionals. -/
theorem conditional_eq (d : Dialect) : d.rules.conditional = .case ∨
    d.rules.conditional = .nested ["IIF(", 0, ", ", 1, ", ", 2, ")"] := by
  cases d with
  | access => exact .inr rfl
  | _ => exact .inl rfl

/-- All chains are flattened. -/
def IsFlat (d : Dialect) : Prop := d.rules.coalesce = .flatten ∧ d.rules.conditional = .case

end Dialect

namespace Layout

variable {w : Surroundings} {d : Dialect} {x y z : Sense} {t l r : Layout}

/-- Alternatives to null, of which the last one may go on with a chain. -/
theorem coalesceBody_denotes (hl : l.Chained w d.IsFlat x) (hr : r.Chained w d.IsFlat y) :
    ∃ z, (coalesceBody d.rules l r).Denotes w z ∧ z.Agrees d.IsFlat (x.given y) := by
  obtain ⟨x', hx, hxagrees⟩ := hl.value
  rcases d.coalesce_eq with h | h
  · obtain ⟨ys, hys, hyagrees⟩ := hr.alternatives
    simp only [coalesceBody, h]
    exact ⟨_, Sql.denotes_coalesce (by simp) (.cons hx hys),
      Sense.firstGiven_cons hxagrees hyagrees⟩
  · obtain ⟨y', hy, hyagrees⟩ := hr.value
    simp only [coalesceBody, h]
    refine ⟨_, Sql.denotes_given hx hy, fun ρ => ?_, fun hflat => ?_⟩
    · simp only [Sense.given, hxagrees.value ρ, hyagrees.value ρ]
    · exact absurd (hflat.1.symm.trans h) (by simp)

/-- A conditional with a Boolean test, whose last case may go on with a chain. -/
theorem conditionalBody_denotes {test : Expr} (htest : test.isBoolean)
    (ht : t.predicate.Denotes w x) (hl : l.Chained w d.IsFlat y) (hr : r.Chained w d.IsFlat z) :
    ∃ u, (conditionalBody d.rules test t l r).Denotes w u ∧ u.Agrees d.IsFlat (x.choice y z) := by
  obtain ⟨y', hy, hyagrees⟩ := hl.value
  rcases d.conditional_eq with h | h
  · obtain ⟨ys, z', hys, hz, hzagrees⟩ := hr.branches
    have hfirst : Sql.DenoteBoth w (t.predicate, l.value) (x, y') := ⟨ht, hy⟩
    simp only [conditionalBody, h, htest, if_true]
    exact ⟨_, Sql.denotes_caseWhen (by simp) (.cons hfirst hys) hz,
      Sense.firstHolding_cons hyagrees hzagrees⟩
  · obtain ⟨z', hz, hzagrees⟩ := hr.value
    simp only [conditionalBody, h]
    refine ⟨_, Sql.denotes_choice ht hy hz, fun ρ => ?_, fun hflat => ?_⟩
    · simp only [Sense.choice, hyagrees.value ρ, hzagrees.value ρ]
    -- A dialect that nests its conditionals is not flat: it writes no chain that the slots could be
    -- compared with.
    · exact absurd (hflat.2.symm.trans h) (by simp)

/-- The roles of alternatives to null. -/
theorem chained_given (hl : l.Chained w d.IsFlat x) (hr : r.Chained w d.IsFlat y) :
    Chained w d.IsFlat (x.given y)
      { ofNode d.rules false (coalesceBody d.rules l r) with
        alternatives := l.value :: r.alternatives } := by
  obtain ⟨z, hz, hzagrees⟩ := coalesceBody_denotes hl hr
  obtain ⟨x', hx, hxagrees⟩ := hl.value
  obtain ⟨ys, hys, hyagrees⟩ := hr.alternatives
  have hown : Chained w d.IsFlat (x.given y) (ofNode d.rules false (coalesceBody d.rules l r)) :=
    chained_of_value ⟨z, hz.level, hzagrees⟩ rfl rfl rfl
  exact { hown with
    alternatives := ⟨x' :: ys, .cons hx hys, Sense.firstGiven_cons hxagrees hyagrees⟩ }

/-- The roles of a conditional with a Boolean test. -/
theorem chained_choice {test : Expr} (htest : test.isBoolean) (ht : t.predicate.Denotes w x)
    (hl : l.Chained w d.IsFlat y) (hr : r.Chained w d.IsFlat z) :
    Chained w d.IsFlat (x.choice y z)
      { ofNode d.rules false (conditionalBody d.rules test t l r) with
        branches := (t.predicate, l.value) :: r.branches
        otherwise := r.otherwise } := by
  obtain ⟨u, hu, huagrees⟩ := conditionalBody_denotes htest ht hl hr
  obtain ⟨y', hy, hyagrees⟩ := hl.value
  obtain ⟨ys, z', hys, hz, hzagrees⟩ := hr.branches
  have hown : Chained w d.IsFlat (x.choice y z)
      (ofNode d.rules false (conditionalBody d.rules test t l r)) :=
    chained_of_value ⟨u, hu.level, huagrees⟩ rfl rfl rfl
  exact { hown with
    branches := ⟨(x, y') :: ys, z', .cons ⟨ht, hy⟩ hys, hz,
      Sense.firstHolding_cons hyagrees hzagrees⟩ }

end Layout

namespace Expr

/-! ### Trees -/

/-- A tree that is no choice itself is not part of a chain around it. -/
theorem layout_leaf {e : Expr} {p : Position} (d : Rules) (h : e.chain p = .leaf p e) :
    (e.layout d p).alternatives = [(e.layout d p).value] ∧ (e.layout d p).branches = [] ∧
      (e.layout d p).otherwise = (e.layout d p).value := by
  cases e with
  | binary k op l r =>
    have hop : op ≠ .coalesce := by
      rintro rfl
      simp [chain] at h
    simp only [layout, if_neg hop]
    split <;> exact ⟨rfl, rfl, rfl⟩
  | conditional k test l r =>
    have htest : ¬ test.isBoolean := by
      intro htest
      simp [chain, htest] at h
    simp only [layout, if_neg htest]
    exact ⟨rfl, rfl, rfl⟩
  | _ => exact ⟨rfl, rfl, rfl⟩

/-- The row of leaves around a tree holds each of its own leaves at its number. -/
def Numbers (d : Rules) (w : Surroundings) (number : Position → Nat) (leaves : List Leaf) : Prop :=
  ∀ l ∈ leaves, w.drafts[number l.place]? = some (l.sql d).draft ∧
    ∀ ρ, (w.data ρ)[number l.place]? = some (ρ l.place)

/-- A leaf says its own value. -/
theorem denotes_leaf {d : Rules} {w : Surroundings} {number : Position → Nat} {l : Leaf}
    (h : w.drafts[number l.place]? = some (l.sql d).draft ∧
      ∀ ρ, (w.data ρ)[number l.place]? = some (ρ l.place)) :
    (l.sql d).Denotes w ⟨[number l.place], fun ρ => ρ l.place⟩ :=
  ⟨[.slot (number l.place)], .slot (number l.place), .slot h.1, rfl, Template.readsAs_slot _, h.2⟩

/-- A tree that is no chain is a leaf of one. -/
theorem chained_leaf {d : Rules} {w : Surroundings} {number : Position → Nat} {e : Expr}
    {p : Position} {flat : Prop} (hleaf : e.chain p = .leaf p e)
    (h : Numbers d w number (e.chain p).leaves) :
    (e.layout d p).Chained w flat ((e.chain p).sense number) := by
  rw [hleaf] at h ⊢
  have hvalue := denotes_leaf (h ⟨p, e, false⟩ (by simp [Chain.leaves]))
  obtain ⟨halternatives, hbranches, hotherwise⟩ := layout_leaf d hleaf
  exact Layout.chained_of_value ⟨_, hvalue, Sense.agrees_refl _⟩ halternatives hbranches hotherwise

/-- **Every role says the value.** In all of its roles a tree says what it is worth node by node,
    and if chains are flattened it mentions each leaf once, from left to right. -/
theorem layout_chained (d : Dialect) {w : Surroundings} {number : Position → Nat} (e : Expr)
    (p : Position) (h : Numbers d.rules w number (e.chain p).leaves) :
    (e.layout d.rules p).Chained w d.IsFlat ((e.chain p).sense number) := by
  induction e using Expr.induction_children generalizing p with
  | node e ih =>
    -- A tree that is no leaf of its own chain is a coalescing operator or a conditional on a
    -- boolean test; only these two pass the chain on to their children.
    by_cases hleaf : e.chain p = .leaf p e
    · exact chained_leaf hleaf h
    · cases e with
      | binary k op l r =>
        obtain rfl : op = .coalesce := by
          by_contra hop
          exact hleaf (by simp [chain, hop])
        have hl := ih l (by simp [children]) (p.child 0)
          fun x hx => h x (List.mem_append_left _ hx)
        have hr := ih r (by simp [children]) (p.child 1)
          fun x hx => h x (List.mem_append_right _ hx)
        rw [chain, Chain.sense_given]
        exact Layout.chained_given hl hr
      | conditional k test l r =>
        have htest : test.isBoolean := by
          by_contra htest
          exact hleaf (by simp [chain, htest])
        have hchain : (conditional k test l r).chain p =
            .choice (p.child 0) test (l.chain (p.child 1)) (r.chain (p.child 2)) := by
          rw [chain, if_pos htest]
        rw [hchain] at h ⊢
        have ht := denotes_leaf (h ⟨p.child 0, test, true⟩ List.mem_cons_self)
        have hl := ih l (by simp [children]) (p.child 1)
          fun x hx => h x (List.mem_cons_of_mem _ (List.mem_append_left _ hx))
        have hr := ih r (by simp [children]) (p.child 2)
          fun x hx => h x (List.mem_cons_of_mem _ (List.mem_append_right _ hx))
        rw [Chain.sense_choice]
        simp only [layout, htest, if_true]
        exact Layout.chained_choice htest ht hl hr
      | _ => exact absurd rfl hleaf

/-- **Chains keep their meaning.** The text of every tree, in every dialect, is a text with places
    for the leaves of its chain that can be read as SQL, and for all values of the leaves it has the
    value of the tree node by node. The leaves stand at different places. If the dialect flattens
    chains, each leaf occurs once, and they occur from left to right. -/
theorem value_computes_chain (d : Dialect) (e : Expr) (p : Position) :
    let leaves := (e.chain p).leaves
    ∃ t c, Template.Covers (leaves.map fun l => (l.sql d.rules).draft) t
        (e.value d.rules p).draft ∧
      t.read? = some c ∧
      (∀ ρ : Position → Datum,
        c.eval (leaves.map fun l => ρ l.place) = some ((e.chain p).value ρ)) ∧
      (leaves.map Leaf.place).Nodup ∧ (d.IsFlat → t.slots = List.range leaves.length) := by
  intro leaves
  have hnodup : (leaves.map Leaf.place).Nodup := (e.scattered_leaves p).nodup
  -- A leaf has the number under which its place stands in the row.
  let number (q : Position) : Nat := (leaves.map Leaf.place).idxOf q
  have hnumber : ∀ (j : Nat) (hj : j < leaves.length), number (leaves.get ⟨j, hj⟩).place = j := by
    intro j hj
    have hplace := hnodup.idxOf_getElem j (by simpa using hj)
    rwa [List.getElem_map] at hplace
  let w : Surroundings :=
    ⟨leaves.map fun l => (l.sql d.rules).draft, fun ρ => leaves.map fun l => ρ l.place⟩
  have hnumbers : Numbers d.rules w number leaves := by
    intro l hl
    obtain ⟨j, hj, rfl⟩ := List.getElem_of_mem hl
    have hj' := hnumber j hj
    simp only [List.get_eq_getElem] at hj'
    simp [w, hj', hj]
  obtain ⟨y, ⟨t, c, hcovers, hslots, hreads, heval⟩, hagrees⟩ :=
    (layout_chained d e p hnumbers).value
  refine ⟨t, c, hcovers, hreads.read?, fun ρ => ?_, hnodup, fun hflat => ?_⟩
  · rw [heval, hagrees.value ρ]
    rfl
  · rw [hslots, hagrees.slots hflat]
    refine List.ext_getElem (by simp [Chain.sense, leaves]) fun j hj _ => ?_
    have hj' : j < leaves.length := by simpa [Chain.sense] using hj
    simpa [Chain.sense] using hnumber j hj'

/-- A conditional over alternatives to null, whose last case goes on with a conditional. The first
    test is unknown and the second one holds. -/
theorem value_computes_chain_mixed :
    let number name := Build.column name .integer
    let flag name := Build.column name .boolean
    let e := Build.conditional (flag "P") (Build.binary .coalesce (number "A") (number "B"))
      (Build.conditional (flag "Q") (number "C") (Build.binary .coalesce (number "D") (number "E")))
    let p := Position.root 0
    let leaves := (e.chain p).leaves
    let ρ (q : Position) : Datum :=
      if q = (p.child 2).child 0 then .number 1
      else if q = (p.child 2).child 1 then .number 7
      else .null
    Dialect.generic.IsFlat ∧
    ∃ t c, Template.Covers (leaves.map fun l => (l.sql Generic.rules).draft) t
        (e.value Generic.rules p).draft ∧
      t.read? = some c ∧ t.slots = [0, 1, 2, 3, 4, 5, 6] ∧
      c.eval (leaves.map fun l => ρ l.place) = some (.number 7) := by
  intro number flag e p leaves ρ
  have hflat : Dialect.generic.IsFlat := ⟨rfl, rfl⟩
  obtain ⟨t, c, hcovers, hread, hvalue, -, hslots⟩ := value_computes_chain .generic e p
  exact ⟨hflat, t, c, hcovers, hread, hslots hflat, hvalue ρ⟩

end Expr

end WhereClause
