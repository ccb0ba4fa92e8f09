import WhereClause.Expr.Build
import WhereClause.Proofs.Supported

namespace WhereClause

/-!
# What makes a tree malformed

A tree is refused as malformed for two reasons only: it is higher than the limit, or it calls a
method that is known in a shape that does not fit. The walk itself never asks for an operand that is
not there: the templates that it fills have places for the operands given to them and for no others,
and a method that reads its operands one by one has as many of them.

* `Expr.misshape?` — how a call differs from the shape of its method;
* `Sql.fillings`, `Expr.uses_of_mem_fillings` — the templates that are filled for a tree;
* `Template.shownSlots?` — the places of a template read off its text;
* `Renderer.query_malformed` — the causes of a refusal.
-/

/-! ### Shapes of calls -/

namespace Expr

/-- The method that a call names, if its family knows it. -/
def method? : Expr → Option Method
  | call _ family name _ _ => family.method? name
  | callStatic _ family name _ => family.method? name
  | _ => none

/-- How a call differs from the shape of the method that its family knows by the name. -/
def callMisshape? (family : Family) (name : String) (hasReceiver : Bool) (args : Nat) :
    Option Malformed :=
  match family.method? name with
  | none => none
  | some m =>
    if m.signature.hasReceiver ≠ hasReceiver then
      some (.receiver name family m.signature.hasReceiver)
    else if m.signature.admits args then none
    else some (.arguments name m.signature args)

/-- How a node differs from the shape of the method it calls; absent if it does not, or calls none
    that is known. -/
def misshape? : Expr → Option Malformed
  | call _ family name _ args => callMisshape? family name true args.length
  | callStatic _ family name args => callMisshape? family name false args.length
  | _ => none

/-- Of the faults a call can have, those of its shape make it malformed. -/
theorem callMisshape?_of_callFault? {d : Rules} {e : Expr} {family : Family} {name : String}
    {hasReceiver onArray : Bool} {args : Nat} {cause : Malformed}
    (h : callFault? d e family name hasReceiver onArray args = some (.malformed cause)) :
    callMisshape? family name hasReceiver args = some cause := by
  unfold callFault? at h
  unfold callMisshape?
  cases hm : family.method? name with
  | none => simp [hm] at h
  | some m =>
    simp only [hm] at h ⊢
    split at h
    · next hshape =>
      rw [if_pos hshape]
      simpa using h
    · next hshape =>
      rw [if_neg hshape]
      split at h
      · split at h <;> simp at h
      · next hargs =>
        rw [if_neg hargs]
        simpa using h

/-- A fault of the shape of a node does not depend on the dialect. -/
theorem misshape?_of_fault? {d : Rules} {n : Expr} {cause : Malformed}
    (h : n.fault? d = some (.malformed cause)) : n.misshape? = some cause := by
  cases n with
  | call k family method receiver args => exact callMisshape?_of_callFault? h
  | callStatic k family method args => exact callMisshape?_of_callFault? h
  | constant | column | binary | conditional => simp [fault?] at h
  | member | unary | construct => simp only [fault?] at h; split at h <;> simp at h
  | array => simp [fault?] at h

/-- A call whose shape fits has as many operands as its method takes. -/
theorem length_operands_of_misshape? {n : Expr} {m : Method} {operands : List Expr}
    (hm : n.method? = some m) (hoperands : n.operands? = some operands)
    (hshape : n.misshape? = none) :
    ∃ args, m.signature.admits args ∧
      operands.length = args + m.signature.hasReceiver.toNat := by
  -- With a receiver or without, the check of the shape passes only if both parts of it do.
  have hcall : ∀ {family name hasReceiver args}, family.method? name = some m →
      callMisshape? family name hasReceiver args = none →
      m.signature.hasReceiver = hasReceiver ∧ m.signature.admits args := by
    intro family name hasReceiver args hmethod hnone
    simp only [callMisshape?, hmethod] at hnone
    split at hnone
    · simp at hnone
    · next hsame =>
      split at hnone
      · next hargs => exact ⟨not_ne_iff.mp hsame, hargs⟩
      · simp at hnone
  cases n with
  | call k family name receiver args =>
    obtain ⟨hsame, hargs⟩ := hcall hm hshape
    obtain rfl := Option.some.inj hoperands
    exact ⟨args.length, hargs, by rw [hsame]; rfl⟩
  | callStatic k family name args =>
    obtain ⟨hsame, hargs⟩ := hcall hm hshape
    obtain rfl := Option.some.inj hoperands
    exact ⟨args.length, hargs, by rw [hsame]; rfl⟩
  | _ => simp [method?] at hm

end Expr

/-! ### Templates that are filled -/

namespace Sql

mutual

/-- The templates that are filled in an expression, each with the number of operands it is given. -/
def fillings : Sql → List (Template × Nat)
  | column _ => []
  | constant _ _ => []
  | form t operands => (t, operands.length) :: listFillings operands
  | prefixed _ operand => fillings operand
  | infixed _ left right => fillings left ++ fillings right
  | concat _ parts => listFillings parts
  | coalesce parts => listFillings parts
  | inList needle items => fillings needle ++ listFillings items
  | caseWhen branches otherwise => branchFillings branches ++ fillings otherwise
  | level s => fillings s
  | fault _ => []

/-- The templates that are filled in some expressions. -/
def listFillings : List Sql → List (Template × Nat)
  | [] => []
  | s :: ss => fillings s ++ listFillings ss

/-- The templates that are filled in some branches. -/
def branchFillings : List (Sql × Sql) → List (Template × Nat)
  | [] => []
  | (test, value) :: rest => fillings test ++ fillings value ++ branchFillings rest

end

/-- The templates that an expression fills are among those of the rules. -/
def Conforms (d : Rules) (s : Sql) : Prop := ∀ x ∈ s.fillings, d.Uses x.1 x.2

/-- In a row that conforms every template is one of the dialect. -/
theorem listFillings_of_conforms {d : Rules} {ss ss' : List Sql}
    (h : List.Forall₂ (fun s _ => Conforms d s) ss ss') :
    ∀ x ∈ listFillings ss, d.Uses x.1 x.2 := by
  induction h with
  | nil => simp [listFillings]
  | cons hs _ ih => exact List.forall_mem_append.mpr ⟨hs, ih⟩

/-- So it is in branches that conform. -/
theorem branchFillings_of_conforms {d : Rules} {bs bs' : List (Sql × Sql)}
    (h : List.Forall₂ (fun b _ => Conforms d b.1 ∧ Conforms d b.2) bs bs') :
    ∀ x ∈ branchFillings bs, d.Uses x.1 x.2 := by
  induction h with
  | nil => simp [branchFillings]
  | cons hb _ ih =>
    exact List.forall_mem_append.mpr ⟨List.forall_mem_append.mpr hb, ih⟩

end Sql

/-- Every form of the rules fills templates of the rules. -/
theorem Rules.respects_conforms (d : Rules) : d.Respects fun s _ => s.Conforms d where
  form hu hs := List.forall_mem_cons.mpr ⟨hu, Sql.listFillings_of_conforms hs⟩
  prefixed _ hs := hs
  infixed _ hl hr := List.forall_mem_append.mpr ⟨hl, hr⟩
  concat hs := Sql.listFillings_of_conforms hs
  coalesce hs := Sql.listFillings_of_conforms hs
  inList hn hs := List.forall_mem_append.mpr ⟨hn, Sql.listFillings_of_conforms hs⟩
  caseWhen hbs ho := List.forall_mem_append.mpr ⟨Sql.branchFillings_of_conforms hbs, ho⟩
  level hs := hs
  fault _ _ := by simp [Sql.Conforms, Sql.fillings]

/-- The templates that are filled for a tree are among those of the rules. -/
theorem Expr.uses_of_mem_fillings {d : Rules} {e : Expr} {p : Position} {t : Template} {n : Nat}
    (h : (t, n) ∈ (e.predicate d p).fillings) : d.Uses t n := by
  have hrelated := layout_related (R := Eq) d.respects_conforms (fun c c' hc => hc ▸ rfl)
    (fun p c c' _ => by simp [Sql.Conforms, Sql.fillings])
    (fun name => by simp [Sql.Conforms, Sql.fillings]) (e.alike_refl fun _ => rfl) p
  exact hrelated.predicate _ h

namespace Template

/-- The number that some digits denote. -/
def number? (digits : List Char) : Option Nat :=
  if digits ≠ [] ∧ digits.all Char.isDigit then some (Nat.ofDigitChars 10 digits 0) else none

/-- Places read off a text, each a number in braces. Inside of braces the characters so far are
    given. There is no answer if anything but a number is in braces, or one stays open. -/
def readSlots : Option (List Char) → List Char → Option (List Nat)
  | none, [] => some []
  | some _, [] => none
  | none, c :: cs => if c = '\x7b' then readSlots (some []) cs else readSlots none cs
  | some digits, c :: cs =>
    if c = '\x7d' then (number? digits).bind fun i => (readSlots none cs).map (i :: ·)
    else readSlots (some (digits ++ [c])) cs

/-- The places of a template read off the text that shows it. -/
def shownSlots? (t : Template) : Option (List Nat) := readSlots none t.display.toList

/-- The number of a slot is read back from its digits. -/
theorem number?_toDigits (i : Nat) : number? (Nat.toDigits 10 i) = some i := by
  have hdigits : (Nat.toDigits 10 i).all Char.isDigit := by
    rw [List.all_eq_true]
    exact fun c hc => Nat.isDigit_of_mem_toDigits (by decide) (by decide) hc
  rw [number?, if_pos ⟨Nat.toDigits_ne_nil, hdigits⟩, Nat.ofDigitChars_ten_toDigits]

/-- A text without braces has no places. -/
theorem readSlots_text {cs : List Char} (h : '\x7b' ∉ cs) (rest : List Char) :
    readSlots none (cs ++ rest) = readSlots none rest := by
  induction cs with
  | nil => rfl
  | cons c cs ih =>
    have hc : c ≠ '\x7b' := fun hc => h (by simp [hc])
    rw [List.cons_append, readSlots, if_neg hc]
    exact ih fun hmem => h (List.mem_cons_of_mem c hmem)

/-- Inside of braces, characters are gathered up to the brace that closes. -/
theorem readSlots_gather {cs : List Char} (h : '\x7d' ∉ cs) (before rest : List Char) :
    readSlots (some before) (cs ++ rest) = readSlots (some (before ++ cs)) rest := by
  induction cs generalizing before with
  | nil => rw [List.append_nil, List.nil_append]
  | cons c cs ih =>
    have hc : c ≠ '\x7d' := fun hc => h (by simp [hc])
    rw [List.cons_append, readSlots, if_neg hc, ih (fun hmem => h (List.mem_cons_of_mem c hmem)),
      List.append_assoc, List.singleton_append]

/-- The text that shows a template says which places it has, if its own texts have no braces. -/
theorem shownSlots?_eq {t : Template} (h : ∀ s, .text s ∈ t → '\x7b' ∉ s.toList) :
    t.shownSlots? = some t.slots := by
  unfold shownSlots? display
  induction t with
  | nil => rfl
  | cons piece t ih =>
    have hrest := ih fun s hs => h s (List.mem_cons_of_mem _ hs)
    rw [List.map_cons, String.join_cons, String.toList_append]
    cases piece with
    | text s =>
      rw [Piece.display, readSlots_text (h s (by simp)), hrest]
      rfl
    | slot i =>
      -- The digits end at the brace, since none of them is one.
      have hdigits : '\x7d' ∉ Nat.toDigits 10 i := fun hmem =>
        absurd (Nat.isDigit_of_mem_toDigits (by decide) (by decide) hmem) (by decide)
      have hshown : (Piece.slot i).display.toList = '\x7b' :: (Nat.toDigits 10 i ++ ['\x7d']) := by
        simp [Piece.display, Nat.repr]
      rw [hshown, List.cons_append, readSlots, if_pos rfl, List.append_assoc,
        readSlots_gather hdigits, List.nil_append, List.singleton_append, readSlots, if_pos rfl,
        number?_toDigits, hrest]
      rfl

/-- The slots of a template are its pieces that are slots. -/
theorem mem_slots {t : Template} {i : Nat} : i ∈ t.slots ↔ .slot i ∈ t := by
  unfold slots
  rw [List.mem_filterMap]
  constructor
  · rintro ⟨piece, hpiece, hi⟩
    cases piece with
    | text s => simp at hi
    | slot j => exact Option.some.inj hi ▸ hpiece
  · intro hi
    exact ⟨.slot i, hi, rfl⟩

end Template

/-- The text that shows a template of a dialect says which places it has. -/
theorem Dialect.shownSlots?_of_uses (d : Dialect) {t : Template} {n : Nat} (h : d.rules.Uses t n) :
    t.shownSlots? = some t.slots := by
  have hmem := Rules.mem_table_of_uses d.constructsDates h
  refine Template.shownSlots?_eq fun s hs => ?_
  simpa [Piece.isBraceless] using (table_checked d d.mem_all _ hmem).2.1 _ hs

/-! ### Refusals -/

/-- A tree that is refused as malformed is too high, or a node of it is at fault. -/
theorem Renderer.exists_fault_of_malformed {r : Renderer} {mode : Mode} {e : Expr}
    {cause : Malformed} (h : (r.settings mode).query e = .error (.malformed cause)) :
    (cause = .nesting r.maxDepth ∧ r.maxDepth < e.height) ∨
      ∃ n ∈ e.written, n.fault? r.dialect.rules = some (.malformed cause) := by
  have hexplained :=
    (e.layout_explained r.dialect.sound r.dialect.complete (.root 0)).predicate
  cases Settings.failure_of_query h with
  | fault herr => exact .inr (hexplained.cause _ (List.mem_singleton.mpr rfl) _ herr)
  | nesting hlevels =>
    have hle : (e.predicate r.dialect.rules (.root 0)).draft.levels ≤ e.height :=
      hexplained.levels _ (List.mem_singleton.mpr rfl)
    have hlimit : (r.settings mode).maxDepth = r.maxDepth := rfl
    rw [Nat.zero_add] at hlevels
    exact .inl ⟨rfl, Nat.lt_of_lt_of_le hlevels hle⟩

/-- **What makes a tree malformed.** A tree is refused as malformed because it is higher than the
    limit, or because it has a call of a known method in a shape that does not fit. The templates
    filled on the way show their places, each of which is among the operands; and a call that reads
    its operands one by one has as many of them as it reads. -/
theorem Renderer.query_malformed (r : Renderer) (mode : Mode) (e : Expr) :
    (∀ cause, (r.settings mode).query e = .error (.malformed cause) →
      (cause = .nesting r.maxDepth ∧ r.maxDepth < e.height) ∨
        ∃ n ∈ e.nodes, n.misshape? = some cause) ∧
    (∀ t n, (t, n) ∈ (e.predicate r.dialect.rules (.root 0)).fillings →
      t.shownSlots? = some t.slots ∧ ∀ i ∈ t.slots, i < n) ∧
    ∀ n ∈ e.nodes, ∀ operands, n.operands? = some operands → n.misshape? = none →
      (n.method? = some .toText → operands.length = 1) ∧
        (n.method? = some .membership → operands.length = 2) := by
  refine ⟨?_, ?_, ?_⟩
  · intro cause h
    refine (exists_fault_of_malformed h).imp_right ?_
    rintro ⟨n, hn, hfault⟩
    exact ⟨n, Expr.mem_nodes_of_mem_written hn, Expr.misshape?_of_fault? hfault⟩
  · intro t n h
    have huses := Expr.uses_of_mem_fillings h
    refine ⟨r.dialect.shownSlots?_of_uses huses, fun i hi => ?_⟩
    exact (r.dialect.sound.template huses).2.1 i (Template.mem_slots.mp hi)
  · intro n _ operands hoperands hshape
    constructor
    · intro hm
      obtain ⟨args, hargs, hlen⟩ := Expr.length_operands_of_misshape? hm hoperands hshape
      exact Layout.length_eq_one hargs hlen
    · intro hm
      obtain ⟨args, hargs, hlen⟩ := Expr.length_operands_of_misshape? hm hoperands hshape
      exact Layout.length_eq_two hargs hlen (by simp)

/-- A search for a prefix that is not given is refused, and the call is to blame. -/
theorem Renderer.query_malformed_startsWith :
    let r := Renderer.of .oracle
    let e := Build.unary .not (Build.call .string "StartsWith" (Build.column "Name" .string) [])
    let cause := Malformed.arguments "StartsWith" ⟨true, 1, some 1⟩ 0
    (r.settings .inline).query e = .error (.malformed cause) ∧
      ((cause = .nesting r.maxDepth ∧ r.maxDepth < e.height) ∨
        ∃ n ∈ e.nodes, n.misshape? = some cause) := by
  intro r e cause
  have h : (r.settings .inline).query e = .error (.malformed cause) := by decide +kernel
  exact ⟨h, (query_malformed r .inline e).1 cause h⟩

end WhereClause
