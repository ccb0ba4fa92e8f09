import WhereClause.Proofs.Compound
import WhereClause.Proofs.Enumerations
import WhereClause.Proofs.Written

namespace WhereClause

/-!
# Every leaf is written

A tree is laid out without adding leaves and without losing any. What a draft mentions are constants
and columns of the tree, at their places; and unless the draft holds a fault, it mentions every
constant that is not null. A null may be lost, since a comparison with it is written as a test.

* `Draft.Gathers` — a draft mentions what others do;
* `Accounts` — some expressions mention given leaves, all of them and no others;
* `Expr.layout_mentions` — every role of a tree accounts for its leaves;
* `Transcript.exists_constant`, `Transcript.exists_parameter` — parameters and constants of a query.
-/

/-! ### Drafts that mention what others do -/

/-- A draft mentions what others do: nothing else, and unless it holds a fault all of it. -/
structure Draft.Gathers (ds : List Draft) (d : Draft) : Prop where
  constants : ∀ x ∈ d.constants, ∃ t ∈ ds, x ∈ t.constants
  columns : ∀ name ∈ d.columns, ∃ t ∈ ds, name ∈ t.columns
  all : d.isFaultless → ∀ t ∈ ds, t.isFaultless ∧ ∀ x ∈ t.constants, x ∈ d.constants

namespace Draft

variable {ds es : List Draft} {d : Draft}

/-- Nothing gathers nothing. -/
theorem gathers_empty : Gathers [] .empty := ⟨by simp [constants], by simp [columns], by simp⟩

/-- A fixed text has no leaves. -/
theorem gathers_text (t : String) : Gathers [] (.text t) :=
  ⟨by simp [constants], by simp [columns], by simp⟩

/-- A draft mentions what it mentions. -/
theorem gathers_self (d : Draft) : Gathers [d] d :=
  ⟨by simp, by simp, by simp⟩

/-- Levels bound the writing and mention nothing themselves. -/
theorem gathers_level (d : Draft) : Gathers [d] (.level d) :=
  ⟨by simp [constants], by simp [columns], by simp [isFaultless, constants]⟩

/-- Two drafts in a row mention what their parts do, and are without faults only if both are. -/
theorem Gathers.append {a b : Draft} (ha : Gathers ds a) (hb : Gathers es b) :
    Gathers (ds ++ es) (a ++ b) where
  constants := by
    intro x hx
    rcases List.mem_append.mp hx with hx | hx
    · obtain ⟨t, ht, hx⟩ := ha.constants x hx
      exact ⟨t, List.mem_append_left _ ht, hx⟩
    · obtain ⟨t, ht, hx⟩ := hb.constants x hx
      exact ⟨t, List.mem_append_right _ ht, hx⟩
  columns := by
    intro name hn
    rcases List.mem_append.mp hn with hn | hn
    · obtain ⟨t, ht, hn⟩ := ha.columns name hn
      exact ⟨t, List.mem_append_left _ ht, hn⟩
    · obtain ⟨t, ht, hn⟩ := hb.columns name hn
      exact ⟨t, List.mem_append_right _ ht, hn⟩
  all := by
    intro hfault t ht
    obtain ⟨hfa, hfb⟩ : a.isFaultless = true ∧ b.isFaultless = true :=
      Bool.and_eq_true_iff.mp hfault
    -- No fault in the row means none in either part.
    rcases List.mem_append.mp ht with ht | ht
    · have h := ha.all hfa t ht
      exact ⟨h.1, fun x hx => List.mem_append_left _ (h.2 x hx)⟩
    · have h := hb.all hfb t ht
      exact ⟨h.1, fun x hx => List.mem_append_right _ (h.2 x hx)⟩

/-- How often and in which order the parts are used does not matter. -/
theorem Gathers.of_mem_iff (h : Gathers ds d) (hmem : ∀ t, t ∈ ds ↔ t ∈ es) : Gathers es d where
  constants x hx := by
    obtain ⟨t, ht, hx⟩ := h.constants x hx
    exact ⟨t, (hmem t).mp ht, hx⟩
  columns name hn := by
    obtain ⟨t, ht, hn⟩ := h.columns name hn
    exact ⟨t, (hmem t).mp ht, hn⟩
  all hfault t ht := h.all hfault t ((hmem t).mpr ht)

/-- What is put together from others gathers what they mention. -/
theorem Compound.gathers (h : Compound ds d) : Gathers ds d := by
  induction h with
  | empty => exact gathers_empty
  | text => exact gathers_text _
  | part => exact gathers_self _
  | operand _ ih => exact ⟨ih.constants, ih.columns, ih.all⟩
  | append _ _ iha ihb => exact iha.append ihb
  | of_mem_iff _ hmem ih => exact ih.of_mem_iff hmem

end Draft

/-! ### Expressions that account for leaves -/

/-- Expressions mention given constants and columns: no others, and if none of them holds a fault,
    every one of the constants that is not null. -/
structure Accounts (K : List (Position × Constant)) (N : List String) (ss : List Sql) : Prop where
  constants : ∀ s ∈ ss, ∀ x ∈ s.draft.constants, x ∈ K
  columns : ∀ s ∈ ss, ∀ name ∈ s.draft.columns, name ∈ N
  all : (∀ s ∈ ss, s.draft.isFaultless) → ∀ x ∈ K, x.2.value.isNull = false →
    ∃ s ∈ ss, x ∈ s.draft.constants

namespace Accounts

variable {K K' : List (Position × Constant)} {N N' : List String} {ss ss' : List Sql} {s : Sql}

theorem nil : Accounts [] [] [] := ⟨by simp, by simp, by simp⟩

/-- What cannot be written accounts for any leaves, since nothing is asked of it. -/
theorem fault (K : List (Position × Constant)) (N : List String) (e : Error) :
    Accounts K N [.fault e] :=
  ⟨by simp [Sql.draft, Draft.constants], by simp [Sql.draft, Draft.columns],
    by simp [Sql.draft, Draft.isFaultless]⟩

/-- Expressions side by side account for the leaves of both sides. -/
theorem append (h : Accounts K N ss) (h' : Accounts K' N' ss') :
    Accounts (K ++ K') (N ++ N') (ss ++ ss') where
  constants s hs x hx := by
    rcases List.mem_append.mp hs with hs | hs
    · exact List.mem_append_left _ (h.constants s hs x hx)
    · exact List.mem_append_right _ (h'.constants s hs x hx)
  columns s hs name hn := by
    rcases List.mem_append.mp hs with hs | hs
    · exact List.mem_append_left _ (h.columns s hs name hn)
    · exact List.mem_append_right _ (h'.columns s hs name hn)
  all hfault x hx hnull := by
    rcases List.mem_append.mp hx with hx | hx
    · obtain ⟨s, hs, hx⟩ := h.all (fun s hs => hfault s (List.mem_append_left _ hs)) x hx hnull
      exact ⟨s, List.mem_append_left _ hs, hx⟩
    · obtain ⟨s, hs, hx⟩ := h'.all (fun s hs => hfault s (List.mem_append_right _ hs)) x hx hnull
      exact ⟨s, List.mem_append_right _ hs, hx⟩

/-- One expression that is put together from others accounts for what they do. -/
theorem gather (h : Accounts K N ss) (hs : Draft.Gathers (ss.map Sql.draft) s.draft) :
    Accounts K N [s] where
  constants s' hs' x hx := by
    obtain rfl := List.mem_singleton.mp hs'
    obtain ⟨d, hd, hx⟩ := hs.constants x hx
    obtain ⟨s', hs', rfl⟩ := List.mem_map.mp hd
    exact h.constants s' hs' x hx
  columns s' hs' name hn := by
    obtain rfl := List.mem_singleton.mp hs'
    obtain ⟨d, hd, hn⟩ := hs.columns name hn
    obtain ⟨s', hs', rfl⟩ := List.mem_map.mp hd
    exact h.columns s' hs' name hn
  all hfault x hx hnull := by
    -- Without a fault in the whole there is none in the parts, so they mention all that they
    -- account for.
    have hall := hs.all (hfault s (by simp))
    obtain ⟨s', hs', hx⟩ := h.all (fun s' hs' => (hall _ (List.mem_map_of_mem hs')).1) x hx hnull
    exact ⟨s, by simp, (hall _ (List.mem_map_of_mem hs')).2 x hx⟩

/-- Leaves may be added as long as none of the constants among them asks to be mentioned. -/
theorem of_null (h : Accounts K N ss) (hK : ∀ x ∈ K, x ∈ K') (hN : ∀ n ∈ N, n ∈ N')
    (hnew : ∀ x ∈ K', x.2.value.isNull = false → x ∈ K) : Accounts K' N' ss where
  constants s hs x hx := hK x (h.constants s hs x hx)
  columns s hs n hn := hN n (h.columns s hs n hn)
  all hfault x hx hnull := h.all hfault x (hnew x hx hnull) hnull

/-- A level accounts for what is inside it. -/
theorem level (h : Accounts K N [s]) : Accounts K N [.level s] :=
  h.gather (Draft.gathers_level _)

/-- A form of sound rules accounts for what its operands do. -/
theorem form {d : Rules} (hd : d.Sound) {t : Template} (hu : d.Uses t ss.length)
    (h : Accounts K N ss) : Accounts K N [.form t ss] :=
  h.gather (Sql.compound_form hd hu).gathers

/-- A token before an operand mentions nothing more. -/
theorem prefixed (token : String) (h : Accounts K N [s]) : Accounts K N [.prefixed token s] :=
  h.gather (Sql.compound_prefixed token s).gathers

/-- A token between two operands mentions nothing more. -/
theorem infixed (token : String) {r : Sql} (h : Accounts K N [s, r]) :
    Accounts K N [.infixed token s r] :=
  h.gather (Sql.compound_infixed token s r).gathers

/-- A concatenation mentions its parts, in either style. -/
theorem concat (style : ConcatStyle) (h : Accounts K N ss) : Accounts K N [.concat style ss] :=
  h.gather (Sql.compound_concat style ss).gathers

/-- A choice of the first value that is not null mentions all values. -/
theorem coalesce (h : Accounts K N ss) : Accounts K N [.coalesce ss] :=
  h.gather (Sql.compound_coalesce ss).gathers

/-- A search in a list that is not empty mentions the items and what is sought. -/
theorem inList (h : Accounts K N (ss ++ [s])) (hss : ss ≠ []) : Accounts K N [.inList s ss] :=
  h.gather (Sql.compound_inList s hss).gathers

/-- Branches mention their tests, their values and the last value. -/
theorem caseWhen {branches : List (Sql × Sql)}
    (h : Accounts K N (Sql.branchParts branches ++ [s])) : Accounts K N [.caseWhen branches s] :=
  h.gather (Sql.compound_caseWhen branches s).gathers

end Accounts

/-! ### Bodies of nodes -/

namespace Layout

/-- A node accounts for given leaves in every role. -/
structure Mentions (K : List (Position × Constant)) (N : List String) (l : Layout) : Prop where
  natural : Accounts K N [l.natural]
  predicate : Accounts K N [l.predicate]
  value : Accounts K N [l.value]
  summands : Accounts K N l.summands
  spread : Accounts K N l.spread
  alternatives : Accounts K N l.alternatives
  cases : Accounts K N (Sql.branchParts l.branches ++ [l.otherwise])
  items : ∀ ss, l.items = some ss → Accounts K N ss

/-- Nodes account for given leaves one after another. -/
inductive MentionInTurn : List (Position × Constant) → List String → List Layout → Prop
  | nil : MentionInTurn [] [] []
  | cons {K K' N N' l ls} : l.Mentions K N → MentionInTurn K' N' ls →
      MentionInTurn (K ++ K') (N ++ N') (l :: ls)

variable {d : Rules} {K K' K'' : List (Position × Constant)} {N N' N'' : List String}
  {t l r : Layout} {ls : List Layout}

/-- A node accounts for its leaves as a condition and as a value. -/
theorem Mentions.role (h : l.Mentions K N) (asPredicate : Bool) :
    Accounts K N [l.role asPredicate] := by
  unfold Layout.role
  split
  · exact h.predicate
  · exact h.value

/-- In a role that every node accounts for, all of them do so together. -/
theorem MentionInTurn.flatMap (h : MentionInTurn K N ls) {f : Layout → List Sql}
    (hf : ∀ {K N l}, Mentions K N l → Accounts K N (f l)) : Accounts K N (ls.flatMap f) := by
  induction h with
  | nil => exact .nil
  | cons hl _ ih => exact (hf hl).append ih

/-- As values, nodes account for their leaves together. -/
theorem MentionInTurn.values (h : MentionInTurn K N ls) : Accounts K N (ls.map Layout.value) := by
  rw [List.map_eq_flatMap]
  exact h.flatMap Mentions.value

/-- A form that the dialect lacks is a fault. -/
theorem formOr_accounts (hd : d.Sound) (e : Expr) {template : Option Template} {ss : List Sql}
    (hu : ∀ t, template = some t → d.Uses t ss.length) (h : Accounts K N ss) :
    Accounts K N [formOr d e template ss] := by
  cases template with
  | none => exact .fault K N _
  | some t => exact .form hd (hu t rfl) h

/-- A property of a value mentions that value. -/
theorem memberBody_accounts (hd : d.Sound) (e : Expr) (family : Family) (name : String)
    (h : l.Mentions K N) : Accounts K N [memberBody d e family name l] := by
  unfold memberBody
  split
  · exact formOr_accounts hd e (fun t ht => .property ht) h.value
  · exact .fault K N _

/-- A unary operator mentions its operand, and a conversion is its operand. -/
theorem unaryBody_accounts (e : Expr) (op : UnaryOp) (operand : Expr) (h : l.Mentions K N) :
    Accounts K N [unaryBody d e op operand l] := by
  unfold unaryBody
  split
  · exact h.natural
  · split
    · exact .prefixed _ (h.role _)
    · exact .fault K N _

/-- A binary operator mentions both operands, as a form or as a token between them. -/
theorem operatorBody_accounts (hd : d.Sound) (e : Expr) (op : BinaryOp) (left right : Expr)
    (hl : l.Mentions K N) (hr : r.Mentions K' N') :
    Accounts (K ++ K') (N ++ N') [operatorBody d e op left right l r] := by
  simp only [operatorBody]
  split
  · next t ht => exact .form hd (.binary ht) ((hl.role _).append (hr.role _))
  · split
    · exact .infixed _ ((hl.role _).append (hr.role _))
    · exact .fault _ _ _

/-- Alternatives on the right are taken into the same call. -/
theorem coalesceBody_accounts (hd : d.Sound) (hl : l.Mentions K N) (hr : r.Mentions K' N') :
    Accounts (K ++ K') (N ++ N') [coalesceBody d l r] := by
  unfold coalesceBody
  split
  · next t ht => exact .form hd (.coalesce ht) (hl.value.append hr.value)
  · exact .coalesce (hl.value.append hr.alternatives)

/-- A comparison with null mentions the other operand only, and no constant is lost but the null. -/
theorem comparedWithNull_accounts {op : BinaryOp} {left right : Expr} {other : Layout}
    (h : comparedWithNull op left right l r = some other) (hl : l.Mentions K N)
    (hr : r.Mentions K' N') (hnl : left.isNullConstant → ∀ x ∈ K, x.2.value.isNull)
    (hnr : right.isNullConstant → ∀ x ∈ K', x.2.value.isNull) :
    Accounts (K ++ K') (N ++ N') [other.value] := by
  -- Only the operand that is not null is written; what the other one holds is null.
  have hleft : ∀ x ∈ K, x ∈ K ++ K' := fun _ => List.mem_append_left _
  have hright : ∀ x ∈ K', x ∈ K ++ K' := fun _ => List.mem_append_right _
  unfold comparedWithNull at h
  split at h
  · split at h
    · next hnull =>
      obtain rfl := Option.some.inj h
      refine hl.value.of_null hleft (fun _ => List.mem_append_left _) fun x hx hx' => ?_
      exact (List.mem_append.mp hx).resolve_right (fun hx => by simp [hnr hnull x hx] at hx')
    · split at h
      · next hnull =>
        obtain rfl := Option.some.inj h
        refine hr.value.of_null hright (fun _ => List.mem_append_right _) fun x hx hx' => ?_
        exact (List.mem_append.mp hx).resolve_left (fun hx => by simp [hnl hnull x hx] at hx')
      · exact absurd h (by simp)
  · exact absurd h (by simp)

/-- A binary node in any of its readings: a test for null, a concatenation, a difference of dates, a
    choice or an operator. -/
theorem binaryBody_accounts (hd : d.Sound) (e : Expr) (op : BinaryOp) (left right : Expr)
    (hl : l.Mentions K N) (hr : r.Mentions K' N')
    (hnl : left.isNullConstant → ∀ x ∈ K, x.2.value.isNull)
    (hnr : right.isNullConstant → ∀ x ∈ K', x.2.value.isNull) :
    Accounts (K ++ K') (N ++ N') [binaryBody d e op left right l r] := by
  unfold binaryBody
  split
  · next other hother =>
    exact .form hd (.nullTest op) (comparedWithNull_accounts hother hl hr hnl hnr)
  · split
    · exact .concat _ (hl.summands.append hr.summands)
    · split
      · exact .form hd .dateDiff (hl.value.append hr.value)
      · split
        · exact coalesceBody_accounts hd hl hr
        · exact operatorBody_accounts hd e op left right hl hr

/-- A search in an array that is not empty mentions its items and what is sought. -/
theorem membershipBody_accounts (e : Expr) (ha : l.Mentions K N) (hn : r.Mentions K' N')
    (hitems : l.items ≠ some []) : Accounts (K ++ K') (N ++ N') [membershipBody d e l r] := by
  unfold membershipBody
  split
  · next items h =>
    exact .inList ((ha.items items h).append hn.value) (fun hnil => hitems (by rw [h, hnil]))
  · exact .fault _ _ _

/-- A method with as many operands as it takes mentions all of them. -/
theorem methodBody_accounts (hd : d.Sound) (e : Expr) (m : Method) (firstIsString : Bool)
    {args : Nat} (hargs : m.signature.admits args)
    (hlen : ls.length = args + m.signature.hasReceiver.toNat) (h : MentionInTurn K N ls)
    (hitems : m = .membership → ∀ l ∈ ls.head?, l.items ≠ some []) :
    Accounts K N [methodBody d e m firstIsString args ls] := by
  have hlength : (ls.map Layout.value).length = args + m.signature.hasReceiver.toNat := by
    rw [List.length_map, hlen]
  have htwo : m = .compare ∨ m = .compareTo ∨ m = .daysBetween ∨ m = .membership →
      (ls.map Layout.value).length = 2 := length_eq_two hargs hlength
  -- Sound templates mention all their operands, so the number of these has to fit.
  have hform : m ≠ .string .concat →
      Accounts K N [formOr d e (d.method m args) (ls.map Layout.value)] := by
    intro hm
    refine formOr_accounts hd e (fun t ht => ?_) h.values
    rw [hlength]
    exact .method hm hargs ht
  cases m with
  | compare => exact .form hd (htwo (by simp) ▸ .compare) h.values
  | compareTo => exact .form hd (htwo (by simp) ▸ .compare) h.values
  | daysBetween => exact .form hd (htwo (by simp) ▸ .dateDiff) h.values
  | string m =>
    by_cases hm : m = .concat
    · subst hm
      exact .concat _ (h.flatMap Mentions.spread)
    · cases m <;> first | exact absurd rfl hm | exact hform (by simp)
  | membership =>
    rw [List.length_map] at htwo
    obtain ⟨array, needle, rfl⟩ := List.length_eq_two.mp (htwo (by simp))
    rcases h with _ | ⟨ha, _ | ⟨hn, _ | _⟩⟩
    rw [List.append_nil, List.append_nil]
    exact membershipBody_accounts e ha hn (hitems rfl array (by simp))
  | toText =>
    obtain ⟨receiver, rfl⟩ := List.length_eq_one_iff.mp (length_eq_one hargs hlen)
    simp only [methodBody]
    split
    · exact h.values
    · exact hform (by simp)
  | shift | decimal | math | rounding => exact hform (by simp)

/-- A call mentions its operands unless its method is unknown or the operands do not fit, which is a
    fault. -/
theorem callBody_accounts (hd : d.Sound) (e : Expr) (family : Family) (name : String)
    (hasReceiver firstIsString : Bool) (args : Nat) (hlen : ls.length = args + hasReceiver.toNat)
    (h : MentionInTurn K N ls)
    (hitems : hasReceiver → family.method? name = some .membership →
      ∀ l ∈ ls.head?, l.items ≠ some []) :
    Accounts K N [callBody d e family name hasReceiver firstIsString args ls] := by
  unfold callBody
  split
  · exact .fault K N _
  · next m hm =>
    dsimp only
    split
    · exact .fault K N _
    · next hshape =>
      split
      · next hargs =>
        -- The call has a receiver exactly if the method asks for one.
        have hsame : m.signature.hasReceiver = hasReceiver := not_ne_iff.mp hshape
        exact methodBody_accounts hd e m firstIsString hargs (hsame ▸ hlen) h
          (fun hmem => hitems (by rw [← hsame, hmem]; rfl) (hmem ▸ hm))
      · exact .fault K N _

/-- A conditional mentions its test and both values. One inside another adds its branches to it. -/
theorem conditionalBody_accounts (hd : d.Sound) (test : Expr) (ht : t.Mentions K N)
    (hl : l.Mentions K' N') (hr : r.Mentions K'' N'') :
    Accounts (K ++ (K' ++ K'')) (N ++ (N' ++ N'')) [conditionalBody d test t l r] := by
  unfold conditionalBody
  split
  · next tpl htpl =>
    exact .form hd (.conditional htpl) (ht.predicate.append (hl.value.append hr.value))
  · split
    · exact .caseWhen (ht.predicate.append (hl.value.append hr.cases))
    · exact .form hd .numericCase (ht.value.append (hl.value.append hr.value))

/-- From a body that accounts for the leaves of a node, each role of the node does, with or without
    a coercion. -/
theorem ofNode_mentions (hd : d.Sound) (isPredicate : Bool) {body : Sql}
    (h : Accounts K N [body]) : (ofNode d isPredicate body).Mentions K N := by
  have hnatural : Accounts K N [.level body] := h.level
  cases isPredicate with
  | false =>
    exact
      { natural := hnatural
        predicate := .form hd .predicateCoercion hnatural
        value := hnatural
        summands := hnatural
        spread := hnatural
        alternatives := hnatural
        cases := hnatural
        items := fun _ hss => by cases hss }
  | true =>
    have hvalue : Accounts K N [.form d.valueCoercion [.level body]] :=
      .form hd .valueCoercion hnatural
    exact
      { natural := hnatural
        predicate := hnatural
        value := hvalue
        summands := hvalue
        spread := hvalue
        alternatives := hvalue
        cases := hvalue
        items := fun _ hss => by cases hss }

end Layout

/-! ### Trees -/

namespace Family

/-- Only one name means membership in an array, and only in one family. -/
theorem eq_contains_of_membership {family : Family} {name : String}
    (h : family.method? name = some .membership) : family = .other ∧ name = "Contains" := by
  obtain ⟨hname, hfamily⟩ := name_of_method? h
  exact ⟨of_decide_eq_true hfamily, hname⟩

end Family

namespace Expr

open Layout

variable {d : Rules}

/-- A null constant holds no other constant. -/
theorem isNull_of_isNullConstant {e : Expr} (h : e.isNullConstant) (p : Position) :
    ∀ x ∈ e.constants p, x.2.value.isNull := by
  cases e with
  | constant k c =>
    have hnull : c.value.isNull = true := h
    simpa [constants] using hnull
  | _ => simp [isNullConstant] at h

/-- Only an empty array is laid out as an array without items. -/
theorem isEmptyArray_of_items {e : Expr} {p : Position} (h : (e.layout d p).items = some []) :
    e.isEmptyArray := by
  -- A node that is not an array has no items at all, in whatever form it is laid out.
  have hnone : ∀ {l : Layout}, l.items = none → l.items = some [] → e.isEmptyArray = true :=
    fun hn hs => absurd (hn.symm.trans hs) (by simp)
  cases e with
  | array k items =>
    cases items with
    | nil => rfl
    | cons e es => exact absurd (Option.some.inj h) (List.cons_ne_nil _ _)
  | binary k op left right =>
    simp only [layout] at h
    split at h
    · exact hnone rfl h
    · split at h <;> exact hnone rfl h
  | conditional k test l r =>
    simp only [layout] at h
    split at h <;> exact hnone rfl h
  | _ => exact hnone rfl h

/-- Nothing is sought in an empty array, so that no leaf is mentioned. -/
theorem idleSearch_accounts (e : Expr) (firstIsString : Bool) (args : Nat) {array : Layout}
    {rest : List Layout} (hlen : rest.length = args) (hitems : array.items = some []) :
    Accounts [] [] [callBody d e .other "Contains" true firstIsString args (array :: rest)] := by
  have hmethod : Family.other.method? "Contains" = some .membership := rfl
  simp only [callBody, hmethod]
  split
  · exact .fault _ _ _
  · split
    · next hargs =>
      have hone : 1 ≤ args ∧ args ≤ 1 := Signature.admits_fixed.mp hargs
      obtain ⟨needle, rfl⟩ := List.length_eq_one_iff.mp (show rest.length = 1 by omega)
      simp only [methodBody, membershipBody, hitems]
      exact Accounts.nil.gather (Sql.compound_inList_nil _).gathers
    · exact .fault _ _ _

/-- The subtrees of a node account for their leaves one after another. -/
theorem layoutList_mentions {es : List Expr}
    (ih : ∀ e ∈ es, ∀ p, (e.layout d p).Mentions (e.constants p) e.columns) (p : Position)
    (i : Nat) : MentionInTurn (listConstants p i es) (listColumns es) (layoutList d p i es) := by
  induction es generalizing i with
  | nil => exact .nil
  | cons e es ihs =>
    exact .cons (ih e (by simp) _) (ihs (fun e he => ih e (List.mem_cons_of_mem _ he)) (i + 1))

/-- **Every leaf is written.** In every role a tree mentions its own leaves, and all of them but
    nulls unless something cannot be written. -/
theorem layout_mentions (hd : d.Sound) (e : Expr) (p : Position) :
    (e.layout d p).Mentions (e.constants p) e.columns := by
  induction e using Expr.induction generalizing p with
  | constant k c =>
    refine ofNode_mentions hd false ⟨?_, ?_, ?_⟩
    · simp [Sql.draft, Draft.constants, constants]
    · simp [Sql.draft, Draft.columns]
    · simp [Sql.draft, Draft.constants, constants]
  | column k name family =>
    refine ofNode_mentions hd false ⟨?_, ?_, ?_⟩
    · simp [Sql.draft, Draft.constants]
    · simp [Sql.draft, Draft.columns, columns]
    · simp [constants]
  | member k object name family ih =>
    exact ofNode_mentions hd _ (memberBody_accounts hd _ family name (ih _))
  | unary k op operand ih =>
    exact ofNode_mentions hd _ (unaryBody_accounts _ op operand (ih _))
  | binary k op left right ihl ihr =>
    have hl := ihl (p.child 0)
    have hr := ihr (p.child 1)
    have hown := ofNode_mentions hd (Expr.binary k op left right).isPredicate
      (binaryBody_accounts hd (.binary k op left right) op left right hl hr
        (fun h => isNull_of_isNullConstant h _) (fun h => isNull_of_isNullConstant h _))
    -- Parts of a concatenation and alternatives are taken up by the node around, so these roles are
    -- its operands side by side.
    have hsummands := hl.summands.append hr.summands
    simp only [layout]
    split
    · exact { hown with summands := hsummands, spread := hsummands }
    · split
      · exact { hown with alternatives := hl.value.append hr.alternatives }
      · exact hown
  | call k family method receiver args ihr iha =>
    refine ofNode_mentions hd _ ?_
    have hturn := MentionInTurn.cons (ihr (p.child 0)) (layoutList_mentions iha p 1)
    rw [constants, columns]
    -- What is sought in an empty array is lost; any other call mentions its operands in turn.
    by_cases hidle : isIdleSearch family method receiver
    · obtain ⟨⟨rfl, rfl⟩, hempty⟩ :
          (family = .other ∧ method = "Contains") ∧ receiver.isEmptyArray := by
        simpa [isIdleSearch] using hidle
      obtain ⟨k', rfl⟩ : ∃ k', receiver = .array k' [] := by
        unfold isEmptyArray at hempty
        split at hempty
        · exact ⟨_, rfl⟩
        · exact absurd hempty (by simp)
      rw [if_pos hidle, if_pos hidle]
      exact idleSearch_accounts _ _ _ (length_layoutList d p 1 args) rfl
    · rw [if_neg hidle, if_neg hidle]
      refine callBody_accounts hd _ family method true _ args.length (by simp) hturn ?_
      intro _ hmembership l hl hitems
      obtain rfl : receiver.layout d (p.child 0) = l := by simpa using hl
      obtain ⟨rfl, rfl⟩ := Family.eq_contains_of_membership hmembership
      exact hidle (by simpa [isIdleSearch] using isEmptyArray_of_items hitems)
  | callStatic k family method args ih =>
    exact ofNode_mentions hd _ (callBody_accounts hd _ family method false _ args.length (by simp)
      (layoutList_mentions ih p 0) (fun h => absurd h (by simp)))
  | conditional k test ifTrue ifFalse iht ihl ihr =>
    have ht := iht (p.child 0)
    have hl := ihl (p.child 1)
    have hr := ihr (p.child 2)
    have hown := ofNode_mentions hd false (conditionalBody_accounts hd test ht hl hr)
    have hcases := ht.predicate.append (hl.value.append hr.cases)
    rw [constants, columns, List.append_assoc, List.append_assoc]
    simp only [layout]
    split
    · exact { hown with cases := hcases }
    · exact hown
  | construct k type args ih =>
    refine ofNode_mentions hd _ (formOr_accounts hd _ (fun t ht => ?_)
      (layoutList_mentions ih p 0).values)
    rw [List.length_map, length_layoutList]
    exact .construct ht
  | array k items ih =>
    have hitems := layoutList_mentions ih p 0
    have hown : (ofNode d false (.fault (.unsupported d.name (Expr.array k items).text))).Mentions
        (listConstants p 0 items) (listColumns items) := ofNode_mentions hd false (.fault _ _ _)
    exact { hown with
      items := fun ss hss => by
        obtain rfl := Option.some.inj hss
        exact hitems.values
      spread := hitems.flatMap Mentions.summands }

/-- The draft of a condition mentions constants of the tree only. -/
theorem mem_constants_of_mem_draft (hd : d.Sound) {e : Expr} {p : Position}
    {x : Position × Constant} (hx : x ∈ (e.predicate d p).draft.constants) : x ∈ e.constants p :=
  (e.layout_mentions hd p).predicate.constants _ (by simp [predicate]) x hx

/-- The draft of a condition mentions columns of the tree only. -/
theorem mem_columns_of_mem_draft (hd : d.Sound) {e : Expr} {p : Position} {name : String}
    (hn : name ∈ (e.predicate d p).draft.columns) : name ∈ e.columns :=
  (e.layout_mentions hd p).predicate.columns _ (by simp [predicate]) name hn

/-- A draft without faults mentions all constants of the tree that are not null. -/
theorem mem_draft_of_mem_constants (hd : d.Sound) {e : Expr} {p : Position}
    (hfault : (e.predicate d p).draft.isFaultless) {x : Position × Constant}
    (hx : x ∈ e.constants p) (hnull : x.2.value.isNull = false) :
    x ∈ (e.predicate d p).draft.constants := by
  obtain ⟨s, hs, hx⟩ := (e.layout_mentions hd p).predicate.all
    (fun s hs => List.mem_singleton.mp hs ▸ hfault) x hx hnull
  obtain rfl := List.mem_singleton.mp hs
  exact hx

end Expr

/-! ### Parameters of a tree -/

/-- A null is never bound. -/
theorem Policy.isNull_of_binds {policy : Policy} {v : Value} (h : policy.binds v) :
    v.isNull = false := by
  cases v with
  | null => simp [binds] at h
  | _ => rfl

namespace Transcript

variable {w : Settings} {e : Expr} {b : Bindings} {q : Query}

/-- Every parameter carries a constant of the tree. -/
theorem exists_constant (h : Transcript w (e.predicate w.rules (.root 0)).draft b q)
    (hd : w.rules.Sound) {y : Position × Parameter} (hy : y ∈ b.entries) :
    ∃ c, (y.1, c) ∈ e.constants (.root 0) ∧
      (y.1, c) ∈ (e.predicate w.rules (.root 0)).draft.constants ∧ w.mode.binds c.value ∧
      y.2.Carries w.rules.types c := by
  obtain ⟨c, hc, hcarries⟩ := h.lists.carries y hy
  obtain ⟨hdraft, hbinds⟩ := List.mem_filter.mp hc
  exact ⟨c, Expr.mem_constants_of_mem_draft hd hdraft, hdraft, hbinds, hcarries⟩

/-- Every constant that is bound and written has a parameter, which carries it. -/
theorem exists_parameter (h : Transcript w (e.predicate w.rules (.root 0)).draft b q)
    (hd : w.rules.Sound) {x : Position × Constant}
    (hx : x ∈ (e.predicate w.rules (.root 0)).draft.constants) (hbinds : w.mode.binds x.2.value) :
    ∃ p, (x.1, p) ∈ b.entries ∧ p.Carries w.rules.types x.2 := by
  have hplace : x.1 ∈ b.entries.map Prod.fst := by
    rw [h.lists.places, List.mem_eraseDups]
    exact List.mem_map_of_mem (List.mem_filter.mpr ⟨hx, hbinds⟩)
  obtain ⟨⟨place, p⟩, hy, rfl⟩ := List.mem_map.mp hplace
  -- The tree has but one constant at this place.
  obtain ⟨c, hc, -, -, hcarries⟩ := h.exists_constant hd hy
  have hsame := List.inj_on_of_nodup_map (e.constants_nodup (.root 0)) hc
    (Expr.mem_constants_of_mem_draft hd hx) rfl
  exact ⟨p, hy, (Prod.mk.inj hsame).2 ▸ hcarries⟩

end Transcript

end WhereClause
