import WhereClause.Expr.Basic
import WhereClause.Proofs.Enumerations
import WhereClause.Proofs.Literals

namespace WhereClause

/-!
# Formulas and their texts

Comparisons of whole numbers, joined by connectives, and the texts they have in a dialect. A text
can be read in one way only. Operators stand in parentheses or in those of a function, a sign is set
apart from a sign after it, and the names of columns hold none of the characters that end a word, so
that a column may bear the name of a function or a keyword.

* `Term`, `Formula` — the formulas;
* `Expr.untagged`, `Expr.IsFormula` — the trees of formulas, whatever tags their leaves carry;
* `Term.text`, `Formula.text` — their texts in a dialect;
* `Term.text_unique` — terms with equal texts are equal, and so is what follows them;
* `Formula.text_unique` — the same for formulas.
-/

/-! ### Words -/

namespace Text

/-- Characters that end a word. -/
def isDelimiter (c : Char) : Bool := c ∈ [' ', '(', ')', ',', '-']

/-- A text without such characters. -/
def isWord (cs : List Char) : Bool := cs.all fun c => !isDelimiter c

/-- A word holds no delimiter. -/
theorem not_isDelimiter_of_isWord {cs : List Char} (h : isWord cs) {c : Char} (hc : c ∈ cs) :
    isDelimiter c = false := by
  simpa using List.all_eq_true.mp h c hc

/-- Two ways to take a word from the front of a text are the same. -/
theorem word_unique {u v r s : List Char} (hu : isWord u) (hv : isWord v)
    (hr : ∀ c ∈ r.head?, isDelimiter c) (hs : ∀ c ∈ s.head?, isDelimiter c)
    (h : u ++ r = v ++ s) : u = v ∧ r = s := by
  induction u generalizing v with
  | nil =>
    cases v with
    | nil => exact ⟨rfl, h⟩
    | cons c v =>
      have hc : isDelimiter c := hr c (by simp [show r = c :: v ++ s from h])
      exact absurd hc (by simp [not_isDelimiter_of_isWord hv (List.mem_cons_self)])
  | cons c u ih =>
    cases v with
    | nil =>
      have hc : isDelimiter c := hs c (by simp [show s = c :: u ++ r from h.symm])
      exact absurd hc (by simp [not_isDelimiter_of_isWord hu (List.mem_cons_self)])
    | cons c' v =>
      rw [List.cons_append, List.cons_append, List.cons.injEq] at h
      obtain ⟨rfl, h⟩ := h
      obtain ⟨rfl, hrs⟩ := ih (Bool.and_eq_true_iff.mp hu).2 (Bool.and_eq_true_iff.mp hv).2 h
      exact ⟨rfl, hrs⟩

/-- What may follow a term: nothing, or a blank, a comma or a closing parenthesis. -/
def Ends (r : List Char) : Prop := ∀ c ∈ r.head?, c = ' ' ∨ c = ')' ∨ c = ','

/-- What ends a phrase begins with a delimiter, if with anything. -/
theorem Ends.isDelimiter {r : List Char} (h : Ends r) : ∀ c ∈ r.head?, isDelimiter c := by
  intro c hc
  rcases h c hc with rfl | rfl | rfl <;> rfl

/-- The end of the text ends a phrase. -/
theorem ends_nil : Ends [] := by simp [Ends]

/-- A blank ends a phrase. -/
theorem ends_blank (r : List Char) : Ends (' ' :: r) := by simp [Ends]

/-- A closing parenthesis ends a phrase. -/
theorem ends_closing (r : List Char) : Ends (')' :: r) := by simp [Ends]

end Text

open Text

/-! ### Terms and formulas -/

/-- Operators between whole numbers that give a whole number. -/
def BinaryOp.isArithmetic : BinaryOp → Bool
  | add | subtract | multiply | divide | modulo => true
  | _ => false

/-- A word that does not start with a digit. It may be the name of a function or a keyword. -/
def Text.isName : List Char → Bool
  | [] => false
  | c :: cs => !c.isDigit && isWord (c :: cs)

/-- A name of a column. -/
structure Identifier where
  name : String
  isName : Text.isName name.toList

/-- A term of whole numbers. -/
inductive Term where
  | column (name : Identifier)
  | number (n : Nat) (h : IntKind.i64.Holds n)
  | binary (op : BinaryOp) (h : op.isArithmetic) (left right : Term)
  | negate (t : Term)

/-- A formula over terms. -/
inductive Formula where
  | comparison (op : BinaryOp) (h : op.isComparison) (left right : Term)
  | connective (op : BinaryOp) (h : op.isLogical false) (left right : Formula)
  | not (f : Formula)

/-- A term as a tree. -/
def Term.expr : Term → Expr
  | column name => .column .integer name.name .other
  | number n h => .constant .integer ⟨.int ⟨.i64, n, h⟩, .of (.int .i64)⟩
  | binary op _ left right => .binary .integer op left.expr right.expr
  | negate t => .unary .integer .negate t.expr

/-- A formula as a tree. -/
def Formula.expr : Formula → Expr
  | comparison op _ left right => .binary .boolean op left.expr right.expr
  | connective op _ left right => .binary .boolean op left.expr right.expr
  | not f => .unary .boolean .not f.expr

/-! ### Tags

The leaves of a tree carry tags that do not appear in a text of literals: the family of the values
of a column, and the type that a constant was captured with.
-/

namespace Expr

mutual

/-- The same tree with the same tags at all columns and at all constants. -/
def untagged : Expr → Expr
  | constant k c => constant k { c with host := .of (.int .i64) }
  | column k name _ => column k name .other
  | member k object name family => member k (untagged object) name family
  | unary k op operand => unary k op (untagged operand)
  | binary k op left right => binary k op (untagged left) (untagged right)
  | call k family method receiver args =>
    call k family method (untagged receiver) (listUntagged args)
  | callStatic k family method args => callStatic k family method (listUntagged args)
  | conditional k test ifTrue ifFalse =>
    conditional k (untagged test) (untagged ifTrue) (untagged ifFalse)
  | construct k type args => construct k type (listUntagged args)
  | array k items => array k (listUntagged items)

/-- The same trees with the same tags at all columns and at all constants. -/
def listUntagged : List Expr → List Expr
  | [] => []
  | e :: es => untagged e :: listUntagged es

end

variable {e : Expr} {k : ValueKind}

/-- Tags are no part of the kind. -/
theorem kind_untagged (e : Expr) : e.untagged.kind = e.kind := by cases e <;> rfl

/-- Only columns look like a column without its tag. -/
theorem eq_column_of_untagged {name : String} {family : Family}
    (h : e.untagged = column k name family) : ∃ family', e = column k name family' := by
  cases e with
  | column k' name' family' =>
    obtain ⟨rfl, rfl, -⟩ := column.inj h
    exact ⟨family', rfl⟩
  | _ => simp [untagged] at h

/-- Only constants look like a constant without its tag. -/
theorem eq_constant_of_untagged {c : Constant} (h : e.untagged = constant k c) :
    ∃ host, e = constant k ⟨c.value, host⟩ := by
  cases e with
  | constant k' c' =>
    obtain ⟨rfl, rfl⟩ := constant.inj h
    exact ⟨c'.host, rfl⟩
  | _ => simp [untagged] at h

/-- Only unary nodes look like a unary node without tags. -/
theorem eq_unary_of_untagged {op : UnaryOp} {x : Expr} (h : e.untagged = unary k op x) :
    ∃ operand, e = unary k op operand ∧ operand.untagged = x := by
  cases e with
  | unary k' op' operand =>
    obtain ⟨rfl, rfl, hx⟩ := unary.inj h
    exact ⟨operand, rfl, hx⟩
  | _ => simp [untagged] at h

/-- Only binary nodes look like a binary node without tags. -/
theorem eq_binary_of_untagged {op : BinaryOp} {x y : Expr} (h : e.untagged = binary k op x y) :
    ∃ left right, e = binary k op left right ∧ left.untagged = x ∧ right.untagged = y := by
  cases e with
  | binary k' op' left right =>
    obtain ⟨rfl, rfl, hx, hy⟩ := binary.inj h
    exact ⟨left, right, rfl, hx, hy⟩
  | _ => simp [untagged] at h

end Expr

/-! ### Texts of operators -/

namespace Dialect

/-- How arithmetic on whole numbers is written. -/
def arithmetic (d : Dialect) (op : BinaryOp) : Template :=
  match d.rules.binary op .integer .integer with
  | some t => t
  | none => ["(", 0, .text (" " ++ (d.rules.operator op false).getD "" ++ " "), 1, ")"]

/-- The function that arithmetic is written with; empty if it stands in parentheses only. -/
def callee (d : Dialect) (op : BinaryOp) : List Char :=
  match d.arithmetic op with
  | .text opening :: _ => opening.toList.dropLast
  | _ => []

/-- The text between the operands of arithmetic. -/
def between (d : Dialect) (op : BinaryOp) : List Char :=
  match d.arithmetic op with
  | [_, _, .text between, _, _] => between.toList
  | _ => []

/-- The token of a comparison or a connective. -/
def token (d : Dialect) (op : BinaryOp) : List Char :=
  ((d.rules.operator op false).getD "").toList

/-- All that is needed of the forms of arithmetic, which are finitely many. The operands come in
    order. The name of a function holds no delimiter. Between operands comes a blank or a comma
    first and a blank last; in plain parentheses it is a blank, and then neither the token of a
    comparison nor the start of a formula. The function and two characters tell the operator. -/
theorem arithmetic_table : ∀ d ∈ all, ∀ op ∈ BinaryOp.all, op.isArithmetic →
    d.arithmetic op = [.text (String.ofList (d.callee op ++ ['('])), .slot 0,
      .text (String.ofList (d.between op)), .slot 1, .text ")"] ∧
    isWord (d.callee op) ∧ (d.between op).head? ∈ [some ' ', some ','] ∧
    (d.between op).getLast? = some ' ' ∧
    2 ≤ (d.between op).length ∧
    (d.callee op = [] → (d.between op).head? = some ' ' ∧
      (d.between op).tail.head?.all fun c => c ∉ ['(', 'n', '=', '<', '>']) ∧
    ∀ op' ∈ BinaryOp.all, op'.isArithmetic → d.callee op = d.callee op' →
      (d.between op).take 2 = (d.between op').take 2 → op = op' := by
  decide +kernel

/-- The name of a function is a word. -/
theorem isWord_callee (d : Dialect) {op : BinaryOp} (h : op.isArithmetic) : isWord (d.callee op) :=
  (arithmetic_table d d.mem_all op op.mem_all h).2.1

/-- Between operands comes a blank or a comma first. -/
theorem exists_between (d : Dialect) {op : BinaryOp} (h : op.isArithmetic) (r : List Char) :
    ∃ c s, d.between op ++ r = c :: s ∧ (c = ' ' ∨ c = ',') := by
  obtain ⟨-, -, hhead, -⟩ := arithmetic_table d d.mem_all op op.mem_all h
  cases hbetween : d.between op with
  | nil => simp [hbetween] at hhead
  | cons c s => exact ⟨c, s ++ r, rfl, by simpa [hbetween] using hhead⟩

/-- What stands between two operands ends the left one. -/
theorem ends_between (d : Dialect) {op : BinaryOp} (h : op.isArithmetic) (r : List Char) :
    Ends (d.between op ++ r) := by
  obtain ⟨c, s, hbetween, hc⟩ := d.exists_between h r
  rw [hbetween]
  intro c' hc'
  obtain rfl : c = c' := by simpa using hc'
  exact hc.imp id .inr

/-- Within plain parentheses the operands have a blank between them, and what stands after it is
    neither the token of a comparison nor the start of a formula. -/
theorem between_eq (d : Dialect) {op : BinaryOp} (h : op.isArithmetic)
    (hcallee : d.callee op = []) : ∃ c s, d.between op = ' ' :: c :: s ∧
      c ∉ ['(', 'n', '=', '<', '>'] := by
  obtain ⟨-, -, -, -, hlength, hplain, -⟩ := arithmetic_table d d.mem_all op op.mem_all h
  obtain ⟨hblank, hnext⟩ := hplain hcallee
  rcases hbetween : d.between op with _ | ⟨c, _ | ⟨c', s⟩⟩
  · simp [hbetween] at hlength
  · simp [hbetween] at hlength
  · rw [hbetween] at hblank hnext
    obtain rfl := Option.some.inj hblank
    exact ⟨c', s, rfl, by simpa using hnext⟩

/-- The function and the text between the operands tell which operator is written. -/
theorem arithmetic_unique (d : Dialect) {op op' : BinaryOp} (h : op.isArithmetic)
    (h' : op'.isArithmetic) (hcallee : d.callee op = d.callee op') {r r' : List Char}
    (hbetween : d.between op ++ r = d.between op' ++ r') : op = op' := by
  obtain ⟨-, -, -, -, hlength, -, hunique⟩ := arithmetic_table d d.mem_all op op.mem_all h
  obtain ⟨-, -, -, -, hlength', -⟩ := arithmetic_table d d.mem_all op' op'.mem_all h'
  refine hunique op' op'.mem_all h' hcallee ?_
  rw [← List.take_append_of_le_length hlength, hbetween, List.take_append_of_le_length hlength']

/-- All that is needed of the tokens of comparisons and connectives. They do not depend on what they
    stand between, hold no delimiter and differ from one another, and the token of a comparison is
    not the start of a formula. -/
theorem token_table : ∀ d ∈ all, ∀ op ∈ BinaryOp.all, (op.isComparison ∨ op.isLogical false) →
    (∀ b, d.rules.operator op b = some (String.ofList (d.token op))) ∧
    isWord (d.token op) ∧
    (op.isComparison → (d.token op).head? ∈ [some '=', some '<', some '>']) ∧
    ∀ op' ∈ BinaryOp.all, (op'.isComparison ∨ op'.isLogical false) →
      d.token op = d.token op' → op = op' := by
  decide +kernel

/-- A comparison is told from a parenthesis and from a negation by its first character. -/
theorem token_start (d : Dialect) {op : BinaryOp} (h : op.isComparison) :
    ∃ c s, d.token op = c :: s ∧ c ∈ ['=', '<', '>'] ∧ c ∉ ['(', 'n'] := by
  obtain ⟨-, -, hstart, -⟩ := token_table d d.mem_all op op.mem_all (.inl h)
  have hhead := hstart h
  cases htoken : d.token op with
  | nil => simp [htoken] at hhead
  | cons c s =>
    have hc : c = '=' ∨ c = '<' ∨ c = '>' := by simpa [htoken] using hhead
    exact ⟨c, s, rfl, by rcases hc with rfl | rfl | rfl <;> simp⟩

/-- The word between two operands tells which comparison or connective is written. -/
theorem token_unique (d : Dialect) {op op' : BinaryOp} (h : op.isComparison ∨ op.isLogical false)
    (h' : op'.isComparison ∨ op'.isLogical false) {r r' : List Char}
    (heq : ' ' :: (d.token op ++ ' ' :: r) = ' ' :: (d.token op' ++ ' ' :: r')) :
    op = op' ∧ r = r' := by
  obtain ⟨-, hplain, -, hunique⟩ := token_table d d.mem_all op op.mem_all h
  obtain ⟨-, hplain', -⟩ := token_table d d.mem_all op' op'.mem_all h'
  obtain ⟨htoken, hrest⟩ := word_unique hplain hplain' (ends_blank r).isDelimiter
    (ends_blank r').isDelimiter (List.cons.inj heq).2
  exact ⟨hunique op' op'.mem_all h' htoken, (List.cons.inj hrest).2⟩

end Dialect

/-! ### Reading terms -/

namespace Text

/-- A number is written with digits. -/
theorem isDigit_of_mem_number {n : Nat} {c : Char} (hc : c ∈ n.repr.toList) : c.isDigit := by
  rw [Nat.toList_repr] at hc
  exact Nat.isDigit_of_mem_toDigits (by decide) (by decide) hc

/-- A number is a word. -/
theorem isWord_number (n : Nat) : isWord n.repr.toList := by
  rw [isWord, List.all_eq_true]
  intro c hc
  have hdigit := isDigit_of_mem_number hc
  cases hdelimiter : isDelimiter c with
  | false => rfl
  | true =>
    simp only [isDelimiter, List.mem_cons, decide_eq_true_eq] at hdelimiter
    rcases hdelimiter with rfl | rfl | rfl | rfl | rfl | h <;> simp_all [Char.isDigit]

/-- A number has a digit. -/
theorem number_ne_nil (n : Nat) : n.repr.toList ≠ [] := by
  rw [Nat.toList_repr]
  exact Nat.toDigits_ne_nil

/-- Different numbers are written differently. -/
theorem number_injective {m n : Nat} (h : m.repr.toList = n.repr.toList) : m = n := by
  rw [Nat.toList_repr, Nat.toList_repr] at h
  exact toDigits_injective h

end Text

namespace Identifier

/-- An identifier is a word that does not begin with a digit. -/
theorem exists_cons (name : Identifier) : ∃ c cs, name.name.toList = c :: cs ∧
    c.isDigit = false ∧ isWord (c :: cs) := by
  have hname := name.isName
  cases hchars : name.name.toList with
  | nil => simp [hchars, Text.isName] at hname
  | cons c cs =>
    simp only [hchars, Text.isName, Bool.and_eq_true, Bool.not_eq_true'] at hname
    exact ⟨c, cs, rfl, hname⟩

/-- No number is a name. -/
theorem ne_number (name : Identifier) (n : Nat) : name.name.toList ≠ n.repr.toList := by
  intro h
  obtain ⟨c, cs, hname, hstart, -⟩ := name.exists_cons
  have hdigit : c.isDigit := isDigit_of_mem_number (n := n) (by simp [← h, hname])
  exact absurd hdigit (by simp [hstart])

end Identifier

namespace Term

variable (d : Dialect)

/-- A term in a dialect. A sign is set apart from a sign after it. -/
def text : Term → List Char
  | column name => name.name.toList
  | number n _ => n.repr.toList
  | binary op _ left right =>
    d.callee op ++ '(' :: (left.text ++ (d.between op ++ (right.text ++ [')'])))
  | negate t => '-' :: if t.text.head? = some '-' then '(' :: (t.text ++ [')']) else t.text

/-- The word that a term starts with, and the character that ends it before the term does. -/
def stem : Term → List Char × Option Char
  | column name => (name.name.toList, none)
  | number n _ => (n.repr.toList, none)
  | binary op _ _ _ => (d.callee op, some '(')
  | negate _ => ([], some '-')

variable {d}

/-- The stem of a term is a word. -/
theorem isWord_stem (t : Term) : isWord (t.stem d).1 := by
  cases t with
  | column name =>
    obtain ⟨c, cs, hname, -, hword⟩ := name.exists_cons
    show isWord name.name.toList
    exact hname ▸ hword
  | number n => exact isWord_number n
  | binary op h => exact d.isWord_callee h
  | negate => rfl

/-- A stem is followed by a parenthesis or a sign, if by anything in the term. -/
theorem stem_end (t : Term) : ∀ c ∈ (t.stem d).2, c = '(' ∨ c = '-' := by
  cases t <;> simp [stem]

/-- The text of a term goes on after its stem as the stem says. -/
theorem exists_stem (t : Term) :
    ∃ tail, t.text d = (t.stem d).1 ++ tail ∧ tail.head? = (t.stem d).2 := by
  cases t with
  | column name => exact ⟨[], by simp [text, stem], rfl⟩
  | number n => exact ⟨[], by simp [text, stem], rfl⟩
  | binary op h left right => exact ⟨_, rfl, rfl⟩
  | negate t => exact ⟨_, rfl, rfl⟩

/-- After the word comes a mark of the term or the end of it. -/
theorem isDelimiter_of_stem {t : Term} {tail r : List Char} (htail : tail.head? = (t.stem d).2)
    (hr : Ends r) : ∀ c ∈ (tail ++ r).head?, isDelimiter c := by
  intro c hc
  cases tail with
  | nil => exact hr.isDelimiter c hc
  | cons c' tail =>
    obtain rfl : c' = c := by simpa using hc
    rcases t.stem_end c' (d := d) htail.symm with rfl | rfl <;> rfl

/-- Terms at the front of one text start with the same word, and it ends in the same way. -/
theorem stem_unique {t t' : Term} {r r' : List Char} (hr : Ends r) (hr' : Ends r')
    (h : t.text d ++ r = t'.text d ++ r') : t.stem d = t'.stem d := by
  obtain ⟨tail, htext, htail⟩ := t.exists_stem (d := d)
  obtain ⟨tail', htext', htail'⟩ := t'.exists_stem (d := d)
  rw [htext, htext', List.append_assoc, List.append_assoc] at h
  obtain ⟨hword, hrest⟩ := word_unique t.isWord_stem t'.isWord_stem
    (isDelimiter_of_stem htail hr) (isDelimiter_of_stem htail' hr') h
  refine Prod.ext hword ?_
  rw [← htail, ← htail']
  -- What comes after a term is none of the marks that end a word inside one.
  cases tail with
  | nil =>
    cases tail' with
    | nil => rfl
    | cons c tail' =>
      have hc := hr c (by simp [show r = c :: tail' ++ r' from hrest])
      rcases t'.stem_end c (d := d) htail'.symm with rfl | rfl <;> simp at hc
  | cons c tail =>
    cases tail' with
    | nil =>
      have hc := hr' c (by simp [show r' = c :: tail ++ r from hrest.symm])
      rcases t.stem_end c (d := d) htail.symm with rfl | rfl <;> simp at hc
    | cons c' tail' =>
      rw [List.cons_append, List.cons_append, List.cons.injEq] at hrest
      simp [hrest.1]

/-- Only an operator in parentheses starts with one. -/
theorem eq_binary_of_opening {t : Term} {r s : List Char} (h : t.text d ++ r = '(' :: s) :
    ∃ op hop left right, t = binary op hop left right ∧ d.callee op = [] ∧
      s = left.text d ++ (d.between op ++ (right.text d ++ ')' :: r)) := by
  -- A word cannot start with a parenthesis.
  have hword : ∀ {cs rest : List Char}, cs ≠ [] → isWord cs → cs ++ rest ≠ '(' :: s := by
    intro cs rest hne hword heq
    obtain ⟨c, cs, rfl⟩ := List.exists_cons_of_ne_nil hne
    rw [List.cons_append, List.cons.injEq] at heq
    obtain ⟨rfl, -⟩ := heq
    exact absurd (not_isDelimiter_of_isWord hword List.mem_cons_self) (by decide)
  cases t with
  | column name =>
    obtain ⟨c, cs, hname, -, hplain⟩ := name.exists_cons
    rw [text, hname] at h
    exact absurd h (hword (List.cons_ne_nil c cs) hplain)
  | number n => exact absurd h (hword (number_ne_nil n) (isWord_number n))
  | binary op hop left right =>
    simp only [text, List.append_assoc, List.cons_append, List.nil_append] at h
    by_cases hcallee : d.callee op = []
    · rw [hcallee, List.nil_append, List.cons.injEq] at h
      exact ⟨op, hop, left, right, rfl, hcallee, h.2.symm⟩
    · exact absurd h (hword hcallee (d.isWord_callee hop))
  | negate t => simp [text] at h

variable (d) in
/-- At the front of a text, and before what cannot belong to it, a term is taken for no other. -/
def Unique (t : Term) : Prop :=
  ∀ ⦃t' : Term⦄ ⦃r r' : List Char⦄, Ends r → Ends r' → t.text d ++ r = t'.text d ++ r' →
    t = t' ∧ r = r'

/-- A column is told from all other terms by its stem. -/
theorem unique_column (name : Identifier) : (column name).Unique d := by
  intro t' r r' hr hr' h
  have hstem := stem_unique hr hr' h
  cases t' with
  | column name' =>
    have hname : name.name.toList = name'.name.toList := congrArg Prod.fst hstem
    have hsame : name = name' := by
      cases name
      cases name'
      simpa using String.toList_injective hname
    subst hsame
    exact ⟨rfl, List.append_cancel_left h⟩
  | number n => exact absurd (congrArg Prod.fst hstem) (name.ne_number n)
  | binary | negate => simp [stem] at hstem

/-- A number is told from all other terms by its stem. -/
theorem unique_number (n : Nat) (hn : IntKind.i64.Holds n) : (number n hn).Unique d := by
  intro t' r r' hr hr' h
  have hstem := stem_unique hr hr' h
  cases t' with
  | column name => exact absurd (congrArg Prod.fst hstem).symm (name.ne_number n)
  | number n' =>
    have hnumber : n.repr.toList = n'.repr.toList := congrArg Prod.fst hstem
    obtain rfl := number_injective hnumber
    exact ⟨rfl, List.append_cancel_left h⟩
  | binary | negate => simp [stem] at hstem

/-- The operands are found one after the other, with what stands between them. -/
theorem unique_binary {op : BinaryOp} (hop : op.isArithmetic) {left right : Term}
    (hleft : left.Unique d) (hright : right.Unique d) : (binary op hop left right).Unique d := by
  intro t' r r' hr hr' h
  have hstem := stem_unique hr hr' h
  cases t' with
  | binary op' hop' left' right' =>
    have hcallee : d.callee op = d.callee op' := congrArg Prod.fst hstem
    simp only [text, List.append_assoc, List.cons_append, List.nil_append] at h
    rw [hcallee] at h
    have hoperands := (List.cons.inj (List.append_cancel_left h)).2
    obtain ⟨rfl, hbetween⟩ := hleft (d.ends_between hop _) (d.ends_between hop' _) hoperands
    obtain rfl := d.arithmetic_unique hop hop' hcallee hbetween
    obtain ⟨rfl, hclosing⟩ := hright (ends_closing r) (ends_closing r')
      (List.append_cancel_left hbetween)
    exact ⟨rfl, (List.cons.inj hclosing).2⟩
  | column | number | negate => simp [stem] at hstem

/-- The parentheses around a sign are not those of an operator: after the operand that would be the
    first there is one that closes. -/
theorem ne_of_guarded {t u : Term} {r r' : List Char}
    (hunique : ∀ op hop left right, u = binary op hop left right → ∀ {s s' : List Char}, Ends s →
      Ends s' → t.text d ++ s = left.text d ++ s' → s = s') :
    '(' :: (t.text d ++ [')']) ++ r ≠ u.text d ++ r' := by
  intro h
  simp only [List.cons_append, List.append_assoc, List.nil_append] at h
  obtain ⟨op, hop, left, right, rfl, -, hrest⟩ := eq_binary_of_opening h.symm
  have hclosing := hunique op hop left right rfl (ends_closing r) (d.ends_between hop _) hrest
  obtain ⟨c, s, hbetween, hc⟩ := d.exists_between hop (right.text d ++ ')' :: r')
  rw [hbetween, List.cons.injEq] at hclosing
  rcases hc with rfl | rfl <;> simp at hclosing

/-- A sign is followed by a term, with parentheses around it if it starts with a sign itself. -/
theorem unique_negate {t : Term} (ht : t.Unique d)
    (hleft : ∀ op hop left right, t = binary op hop left right → left.Unique d) :
    (negate t).Unique d := by
  intro u r r' hr hr' h
  have hstem := stem_unique hr hr' h
  cases u with
  | negate t' =>
    simp only [text, List.cons_append, List.cons.injEq, true_and] at h
    -- If only one of the operands is in parentheses for its sign, the other one is an operator that
    -- starts with the operand inside of them.
    by_cases hsign : (t.text d).head? = some '-'
    · by_cases hsign' : (t'.text d).head? = some '-'
      · simp only [if_pos hsign, if_pos hsign', List.cons_append, List.cons.injEq, true_and,
          List.append_assoc, List.nil_append] at h
        obtain ⟨rfl, hclosing⟩ := ht (ends_closing r) (ends_closing r') h
        exact ⟨rfl, (List.cons.inj hclosing).2⟩
      · rw [if_pos hsign, if_neg hsign'] at h
        exact absurd h (ne_of_guarded fun _ _ _ _ _ _ _ hs hs' h => (ht hs hs' h).2)
    · by_cases hsign' : (t'.text d).head? = some '-'
      · rw [if_neg hsign, if_pos hsign'] at h
        refine absurd h.symm (ne_of_guarded fun op hop left right hbinary _ _ hs hs' h => ?_)
        exact (hleft op hop left right hbinary hs' hs h.symm).2.symm
      · rw [if_neg hsign, if_neg hsign'] at h
        obtain ⟨rfl, hrest⟩ := ht hr hr' h
        exact ⟨rfl, hrest⟩
  | column | number | binary => simp [stem] at hstem

/-- **Terms can be read in one way only.** If two terms stand at the front of one text and what
    follows them cannot belong to them, then they are the same, and so is what follows. -/
theorem text_unique (t : Term) : t.Unique d := by
  -- A sign looks two levels down, so that the first operand of a term is carried along.
  have hboth : t.Unique d ∧ ∀ op hop left right, t = binary op hop left right → left.Unique d := by
    induction t with
    | column name => exact ⟨unique_column name, by simp⟩
    | number n hn => exact ⟨unique_number n hn, by simp⟩
    | binary op hop left right ihl ihr =>
      refine ⟨unique_binary hop ihl.1 ihr.1, ?_⟩
      rintro _ _ _ _ ⟨⟩
      exact ihl.1
    | negate t ih => exact ⟨unique_negate ih.1 ih.2, by simp⟩
  exact hboth.1

end Term

/-! ### Reading formulas -/

namespace Formula

variable (d : Dialect)

/-- A formula in a dialect. -/
def text : Formula → List Char
  | comparison op _ left right =>
    '(' :: (left.text d ++ ' ' :: (d.token op ++ ' ' :: (right.text d ++ [')'])))
  | connective op _ left right =>
    '(' :: (left.text ++ ' ' :: (d.token op ++ ' ' :: (right.text ++ [')'])))
  | not f => "not ".toList ++ f.text

variable {d}

/-- A formula begins with a parenthesis or with `not`. -/
theorem exists_start (f : Formula) : ∃ c s, f.text d = c :: s ∧ (c = '(' ∨ c = 'n') := by
  cases f with
  | comparison | connective => exact ⟨_, _, rfl, .inl rfl⟩
  | not => exact ⟨_, _, rfl, .inr rfl⟩

/-- No term before a token is the start of a formula, not even a column with the name of the
    negation. -/
theorem term_ne_text {t : Term} {f : Formula} {c : Char} (hc : c ∉ ['(', 'n']) {r s : List Char} :
    t.text d ++ ' ' :: c :: r ≠ f.text d ++ s := by
  induction f generalizing t c r s with
  | comparison op hop left right =>
    intro h
    simp only [text, List.cons_append, List.append_assoc] at h
    obtain ⟨op', hop', left', right', rfl, hcallee, hrest⟩ := Term.eq_binary_of_opening h
    -- After the same first operand there is arithmetic on one side and a comparison on the other.
    obtain ⟨-, htoken⟩ := left.text_unique (ends_blank _) (d.ends_between hop' _) hrest
    obtain ⟨c', s', hbetween, hc'⟩ := d.between_eq hop' hcallee
    obtain ⟨c'', s'', hstart, hc'', -⟩ := d.token_start hop
    simp only [hbetween, hstart, List.cons_append, List.cons.injEq, true_and] at htoken
    obtain ⟨rfl, -⟩ := htoken
    simp_all
  | connective op hop left right ih _ =>
    intro h
    simp only [text, List.cons_append, List.append_assoc] at h
    obtain ⟨op', hop', left', right', rfl, hcallee, hrest⟩ := Term.eq_binary_of_opening h
    -- The first operand of the term would be the start of the first operand of the formula.
    obtain ⟨c', s', hbetween, hc'⟩ := d.between_eq hop' hcallee
    rw [hbetween] at hrest
    refine ih ?_ hrest.symm
    simp_all
  | not f _ =>
    -- The term is a word, and after it comes a token where the formula goes on.
    intro h
    obtain ⟨tail, htext, htail⟩ := t.exists_stem (d := d)
    have hnot : isWord "not".toList := by decide
    have hparts : (t.stem d).1 ++ (tail ++ ' ' :: c :: r) =
        "not".toList ++ ' ' :: (f.text d ++ s) := by
      rw [← List.append_assoc, ← htext, h]
      rfl
    obtain ⟨-, hrest⟩ := word_unique t.isWord_stem hnot
      (Term.isDelimiter_of_stem htail (ends_blank _)) (ends_blank _).isDelimiter hparts
    cases tail with
    | nil =>
      obtain ⟨c', s', hstart, hc'⟩ := f.exists_start (d := d)
      simp only [hstart, List.nil_append, List.cons_append, List.cons.injEq, true_and] at hrest
      rcases hc' with rfl | rfl <;> simp [hrest.1] at hc
    | cons c' tail =>
      rw [List.cons_append, List.cons.injEq] at hrest
      rcases t.stem_end c' (d := d) htail.symm with rfl | rfl <;> simp at hrest

/-- **Formulas can be read in one way only.** -/
theorem text_unique {f f' : Formula} {r r' : List Char} (hr : Ends r) (hr' : Ends r')
    (h : f.text d ++ r = f'.text d ++ r') : f = f' ∧ r = r' := by
  induction f generalizing f' r r' with
  | comparison op hop left right =>
    cases f' with
    | comparison op' hop' left' right' =>
      simp only [text, List.cons_append, List.append_assoc, List.cons.injEq, true_and,
        List.nil_append] at h
      obtain ⟨rfl, htoken⟩ := left.text_unique (ends_blank _) (ends_blank _) h
      obtain ⟨rfl, hright⟩ := d.token_unique (.inl hop) (.inl hop') htoken
      obtain ⟨rfl, hclosing⟩ := right.text_unique (ends_closing r) (ends_closing r') hright
      exact ⟨rfl, (List.cons.inj hclosing).2⟩
    | connective op' hop' left' right' =>
      obtain ⟨c, s, hstart, -, hc⟩ := d.token_start hop
      simp only [text, List.cons_append, List.append_assoc, List.cons.injEq, true_and, hstart] at h
      exact absurd h (term_ne_text hc)
    | not f' => simp [text] at h
  | connective op hop left right ihl ihr =>
    cases f' with
    | comparison op' hop' left' right' =>
      obtain ⟨c, s, hstart, -, hc⟩ := d.token_start hop'
      simp only [text, List.cons_append, List.append_assoc, List.cons.injEq, true_and, hstart] at h
      exact absurd h.symm (term_ne_text hc)
    | connective op' hop' left' right' =>
      simp only [text, List.cons_append, List.append_assoc, List.cons.injEq, true_and,
        List.nil_append] at h
      obtain ⟨rfl, htoken⟩ := ihl (ends_blank _) (ends_blank _) h
      obtain ⟨rfl, hright⟩ := d.token_unique (.inr hop) (.inr hop') htoken
      obtain ⟨rfl, hclosing⟩ := ihr (ends_closing r) (ends_closing r') hright
      exact ⟨rfl, (List.cons.inj hclosing).2⟩
    | not f' => simp [text] at h
  | not f ih =>
    cases f' with
    | comparison | connective => simp [text] at h
    | not f' =>
      rw [text, text, List.append_assoc, List.append_assoc] at h
      obtain ⟨rfl, hrest⟩ := ih hr hr' (List.append_cancel_left h)
      exact ⟨rfl, hrest⟩

end Formula

end WhereClause
