import Mathlib.Data.Int.Bitwise
import Mathlib.Data.Rat.Floor
import WhereClause.Proofs.Outline
import WhereClause.Text.Digits

namespace WhereClause

/-!
# What the text of a template computes

A template is read as SQL: its text is cut into words, numbers and signs, these are put together by
the usual precedence of operators, and the result is evaluated for given values of the operands. The
reading knows nothing of where a template comes from, so that it can be held against what the
template is meant to compute.

* `Datum` — values, with `Datum.operate` and `Datum.apply` for operators and functions;
* `Computation`, `Computation.eval` — what has been read, and its value;
* `Template.tokens`, `Reader`, `Template.read?` — reading from left to right;
* `Template.Covers` — a draft that is the text of a template with drafts in its places;
* `Draft.Computes`, `Expr.Computes` — the value that a draft, or a node in a dialect, has for given
  values of its parts.
-/

/-! ### Values -/

/-- A value: a number, a text, or a value of another type, or none of them. -/
inductive Datum where
  | null
  | number (q : ℚ)
  | text (s : List Char)
  | other (v : Value)
  deriving DecidableEq

namespace Datum

/-- A truth value, which is a number. -/
def truth (p : Prop) [Decidable p] : Datum := number (if p then 1 else 0)

/-- Holds as a condition; null does not. -/
def isTrue : Datum → Bool
  | number q => q ≠ 0
  | _ => false

/-- The first value that is not null, or null. -/
def firstGiven : List Datum → Datum
  | [] => null
  | x :: xs => if x = null then firstGiven xs else x

/-- Toward zero. -/
def truncate (q : ℚ) : Int := if 0 ≤ q then ⌊q⌋ else ⌈q⌉

/-- An operation on the bits of whole numbers in two's complement. -/
def bitwise (f : Int → Int → Int) (a b : ℚ) : Option Datum :=
  if a.den = 1 ∧ b.den = 1 then some (number (f a.num b.num)) else none

/-- A power with a whole exponent. -/
def power (a n : ℚ) : Option Datum :=
  if n.den = 1 then some (number (a ^ n.num)) else none

/-- The characters of a text from a position on, which counts from one, and no more of them than
    given. -/
def slice (s : List Char) (start : ℚ) (length : Option ℚ) : Option Datum :=
  if start.den = 1 ∧ 1 ≤ start then
    let rest := s.drop (start.num - 1).toNat
    match length with
    | none => some (text rest)
    | some n => if n.den = 1 ∧ 0 ≤ n then some (text (rest.take n.num.toNat)) else none
  else none

/-- The position of the first occurrence in a text, which counts from one, or zero. -/
def position (x s : List Char) : Nat :=
  match (List.range (s.length + 1)).find? fun i => x.isPrefixOf (s.drop i) with
  | some i => i + 1
  | none => 0

/-- An operator between two values. -/
def operate (op : String) (a b : Datum) : Option Datum :=
  match a, b with
  | null, _ | _, null => some null
  | number a, number b =>
    match op with
    | "+" => some (number (a + b))
    | "-" => some (number (a - b))
    | "*" => some (number (a * b))
    | "/" => if b = 0 then none else some (number (a / b))
    | "&" => bitwise Int.land a b
    | "|" => bitwise Int.lor a b
    | "=" => some (truth (a = b))
    | "<" => some (truth (a < b))
    | ">" => some (truth (a > b))
    | _ => none
  | text s, text t => if op = "||" then some (text (s ++ t)) else none
  | _, _ => none

/-- A number with the opposite sign. -/
def negate : Datum → Option Datum
  | null => some null
  | number a => some (number (-a))
  | _ => none

/-- A number without its fraction. -/
def toInteger : Datum → Option Datum
  | null => some null
  | number a => some (number (truncate a))
  | _ => none

/-- A function of values that are not null, by its name and what separates its arguments. -/
def applyGiven (function : String) (separators : List String) (args : List Datum) : Option Datum :=
  match function, separators, args with
  | "SUBSTRING", ["FROM"], [text s, number i] => slice s i none
  | "SUBSTRING", ["FROM", "FOR"], [text s, number i, number n] => slice s i (some n)
  | "SUBSTR", [","], [text s, number i] => slice s i none
  | "SUBSTR", [",", ","], [text s, number i, number n] => slice s i (some n)
  | "POSITION", ["IN"], [text x, text s] => some (number (position x s))
  | "BITAND", [","], [number a, number b] => bitwise Int.land a b
  | "POWER", [","], [number a, number n] => power a n
  | "TRUNC", [], [number a] => some (number (truncate a))
  | "Int", [], [number a] => some (number ⌊a⌋)
  | _, _, _ => none

/-- A function. All but `COALESCE` are null if an argument is. -/
def apply (function : String) (separators : List String) (args : List Datum) : Option Datum :=
  if function = "COALESCE" then
    if separators.all (· = ",") then some (firstGiven args) else none
  else if null ∈ args then some null
  else applyGiven function separators args

end Datum

/-! ### Computations -/

/-- What a text says: operands by their numbers, whole numbers, and what is done with them. -/
inductive Computation where
  | slot (i : Nat)
  | number (n : Nat)
  /-- A word that stands for no value, such as the name of a type. -/
  | word (w : String)
  | negate (c : Computation)
  | binary (op : String) (left right : Computation)
  | isNotNull (c : Computation)
  | choice (test ifTrue ifFalse : Computation)
  | call (function : String) (separators : List String) (args : List Computation)

namespace Computation

mutual

/-- The value of a computation for given operands, if it has one. -/
def eval (operands : List Datum) : Computation → Option Datum
  | slot i => operands[i]?
  | number n => some (.number n)
  | word _ => none
  | negate c => (c.eval operands).bind Datum.negate
  | binary op l r =>
    (l.eval operands).bind fun a => (r.eval operands).bind fun b => Datum.operate op a b
  | isNotNull c => (c.eval operands).map fun a => Datum.truth (a ≠ .null)
  | choice t l r =>
    (t.eval operands).bind fun a => if a.isTrue then l.eval operands else r.eval operands
  | call "CAST" ["AS"] [c, word "INTEGER"] => (c.eval operands).bind Datum.toInteger
  | call function separators args =>
    (evalList operands args).bind fun as => Datum.apply function separators as

/-- The values of computations, if all of them have one. -/
def evalList (operands : List Datum) : List Computation → Option (List Datum)
  | [] => some []
  | c :: cs => (c.eval operands).bind fun a => (evalList operands cs).map (a :: ·)

end

theorem eval_call {function : String} (h : function ≠ "CAST") (separators : List String)
    (args : List Computation) (operands : List Datum) :
    (call function separators args).eval operands =
      (evalList operands args).bind fun as => Datum.apply function separators as := by
  rw [eval]
  rintro c rfl
  exact absurd rfl h

section

variable {operands : List Datum} {l r : Computation} {a b : Datum}

theorem eval_binary (op : String) (hl : l.eval operands = some a) (hr : r.eval operands = some b) :
    (binary op l r).eval operands = Datum.operate op a b := by
  rw [eval, hl, hr, Option.bind_some, Option.bind_some]

theorem evalList_cons {cs : List Computation} {as : List Datum} (hl : l.eval operands = some a)
    (hcs : evalList operands cs = some as) : evalList operands (l :: cs) = some (a :: as) := by
  rw [evalList, hl, hcs, Option.bind_some, Option.map_some]

end

/-- The branches of a `case`, each part with the word after it, and what remains. -/
def ofCase : List (Computation × String) → Computation → Option Computation
  | [(t, "then"), (a, "else")], b => some (choice t a b)
  | (t, "then") :: (a, "when") :: rest, b => (ofCase rest b).map (choice t a)
  | _, _ => none

/-- What stands between brackets: the word before them, the parts with what follows each of them,
    and the last part. -/
def ofBrackets (head : String) (parts : List (Computation × String)) (last : Computation) :
    Option Computation :=
  if head = "" then if parts.isEmpty then some last else none
  else if head = "case" then ofCase parts last
  else
    match head, parts with
    | "IIF", [(t, ","), (a, ",")] => some (choice t a last)
    | head, parts => some (call head (parts.map Prod.snd) (parts.map Prod.fst ++ [last]))

end Computation

/-! ### Tokens -/

/-- A word, number or sign, or the place of an operand. An opening parenthesis comes with the word
    right before it. -/
inductive Token where
  | slot (i : Nat)
  | number (n : Nat)
  | word (w : String)
  | opening (callee : String)
  | closing
  | sign (s : String)
  deriving DecidableEq

namespace Token

/-- Characters of words and numbers. -/
def isWordChar (c : Char) : Bool := c.isAlphanum || c = '_'

/-- Characters of signs that can have more than one. -/
def isSignChar (c : Char) : Bool := c ∈ ['|', '<', '>', '=']

/-- Characters that belong together, if there are any. -/
def ofChars (cs : List Char) : List Token :=
  if cs.isEmpty then []
  else if cs.all Char.isDigit then [number (Text.ofDigits 10 (cs.filterMap Text.digit?))]
  else if cs.all isWordChar then [word (String.ofList cs)]
  else [sign (String.ofList cs)]

/-- The tokens of a text with places for operands, after characters that may go on. -/
def scan (pending : List Char) : List (Char ⊕ Nat) → List Token
  | [] => ofChars pending
  | .inr i :: rest => ofChars pending ++ slot i :: scan [] rest
  | .inl c :: rest =>
    if (isWordChar c && pending.all isWordChar) || (isSignChar c && pending.all isSignChar) then
      scan (pending ++ [c]) rest
    else if c = '(' ∧ pending.all isWordChar then opening (String.ofList pending) :: scan [] rest
    else
      ofChars pending ++
        if isWordChar c || isSignChar c then scan [c] rest
        else if c = ' ' then scan [] rest
        else if c = '(' then opening "" :: scan [] rest
        else if c = ')' then closing :: scan [] rest
        else sign (String.singleton c) :: scan [] rest

end Token

namespace Template

/-- The characters and operands of a template, from left to right. -/
def symbols (t : Template) : List (Char ⊕ Nat) :=
  t.flatMap fun
    | .text s => s.toList.map .inl
    | .slot i => [.inr i]

/-- The tokens of a template. -/
def tokens (t : Template) : List Token := Token.scan [] t.symbols

end Template

/-! ### Reading -/

/-- How tightly an operator binds; absent if it is none. -/
def precedence? : String → Option Nat
  | "*" | "/" => some 4
  | "+" | "-" | "||" => some 3
  | "&" | "|" => some 2
  | "=" | "<" | ">" => some 1
  | _ => none

/-- An operator that waits for its right operand. -/
inductive Pending where
  | negate
  | binary (left : Computation) (op : String)

/-- Operators in wait get their operand as long as they bind at least as tightly as given. -/
def Pending.settle (least : Nat) : List Pending → Computation → List Pending × Computation
  | [], c => ([], c)
  | negate :: rest, c => settle least rest (.negate c)
  | binary left op :: rest, c =>
    if (precedence? op).any (least ≤ ·) then settle least rest (.binary op left c)
    else (binary left op :: rest, c)

/-- A bracket that is open: the word before it, the parts that are complete, and the operators that
    wait in the part that is not, the last one first. -/
structure Bracket where
  head : String
  parts : List (Computation × String)
  pending : List Pending

/-- Where a reading stands: the brackets around, the innermost first, and the operand that was read
    last unless one is due. -/
structure Reader where
  outer : List Bracket
  bracket : Bracket
  last : Option Computation

namespace Reader

/-- Nothing has been read. -/
def initial : Reader := ⟨[], ⟨"", [], []⟩, none⟩

/-- An operand where one is due. -/
def operand (r : Reader) (c : Computation) : Option Reader :=
  match r.last with
  | none => some { r with last := some c }
  | some _ => none

/-- An opening bracket where an operand is due. -/
def enter (r : Reader) (head : String) : Option Reader :=
  match r.last with
  | none => some ⟨r.bracket :: r.outer, ⟨head, [], []⟩, none⟩
  | some _ => none

/-- An operator after an operand, or a minus sign before one. -/
def operator (r : Reader) (op : String) : Option Reader :=
  match r.last, precedence? op with
  | some c, some least =>
    let (pending, left) := Pending.settle least r.bracket.pending c
    some { r with
      bracket := { r.bracket with pending := .binary left op :: pending }
      last := none }
  | none, _ =>
    if op = "-" then
      some { r with bracket := { r.bracket with pending := .negate :: r.bracket.pending } }
    else none
  | some _, none => none

/-- The part that was read last, complete. -/
def part (r : Reader) : Option Computation :=
  r.last.map fun c => (Pending.settle 0 r.bracket.pending c).2

/-- A word or sign between two parts. -/
def separate (r : Reader) (separator : String) : Option Reader :=
  r.part.map fun c =>
    { r with
      bracket := ⟨r.bracket.head, r.bracket.parts ++ [(c, separator)], []⟩
      last := none }

/-- A closing bracket, which is an operand of the bracket around it. -/
def leave (r : Reader) : Option Reader :=
  match r.outer, r.part with
  | b :: outer, some c =>
    (Computation.ofBrackets r.bracket.head r.bracket.parts c).map fun c => ⟨outer, b, some c⟩
  | _, _ => none

/-- A test for null after an operand, which binds like a comparison. -/
def test (r : Reader) : Option Reader :=
  r.last.map fun c =>
    let (pending, c) := Pending.settle 1 r.bracket.pending c
    { r with bracket := { r.bracket with pending }, last := some (.isNotNull c) }

/-- A word. The first `when` after `case` has nothing before it. -/
def word (r : Reader) (w : String) : Option Reader :=
  match w with
  | "case" => r.enter "case"
  | "when" =>
    match r.last with
    | none => if r.bracket.head = "case" ∧ r.bracket.parts.isEmpty then some r else none
    | some _ => r.separate "when"
  | "then" | "else" | "FROM" | "FOR" | "IN" | "AS" => r.separate w
  | "end" => if r.bracket.head = "case" then r.leave else none
  | w => r.operand (.word w)

/-- One token. -/
def step (r : Reader) : Token → Option Reader
  | .slot i => r.operand (.slot i)
  | .number n => r.operand (.number n)
  | .word w => r.word w
  | .opening callee => r.enter callee
  | .closing => if r.bracket.head = "case" then none else r.leave
  | .sign s => if s = "," then r.separate s else r.operator s

/-- All tokens. Three words test whether something is not null. -/
def run (r : Reader) : List Token → Option Reader
  | [] => some r
  | .word "is" :: .word "not" :: .word "null" :: rest => r.test.bind fun r => r.run rest
  | token :: rest => (r.step token).bind fun r => r.run rest

end Reader

/-- What a template says, if it can be read. -/
def Template.read? (t : Template) : Option Computation :=
  (Reader.initial.run t.tokens).bind fun r =>
    if r.outer.isEmpty ∧ r.bracket.parts.isEmpty then r.part else none

/-! ### Drafts -/

/-- A draft that is the text of a template with given drafts in its places. Levels, and the care
    that is taken of operands, do not show in it. -/
inductive Template.Covers (ds : List Draft) : Template → Draft → Prop
  | empty : Covers ds [] .empty
  | text (s : String) : Covers ds [.text s] (.text s)
  | slot {i d} : ds[i]? = some d → Covers ds [.slot i] d
  | append {t u a b} : Covers ds t a → Covers ds u b → Covers ds (t ++ u) (.append a b)
  | operand {t d} : Covers ds t d → Covers ds t (.operand d)
  | level {t d} : Covers ds t d → Covers ds t (.level d)

/-- A draft has a value for given values of some of its parts: with places for these parts it can be
    read, and what it says has this value. -/
def Draft.Computes (ds : List Draft) (operands : List Datum) (d : Draft) (x : Datum) : Prop :=
  ∃ t c, Template.Covers ds t d ∧ t.read? = some c ∧ c.eval operands = some x

/-- A form is covered by its template. -/
theorem Template.covers_formDraft {t : Template} {ds : List Draft} (h : t.Fits ds.length) :
    t.Covers ds (Sql.formDraft t ds) := by
  -- `pieceDraft` reads the whole template, so the induction runs over a list of pieces beside it.
  have hpieces : ∀ pieces : Template, pieces.Fits ds.length →
      pieces.Covers ds
        (pieces.foldr (fun piece rest => Sql.pieceDraft t ds piece ++ rest) .empty) := by
    intro pieces hfits
    induction pieces with
    | nil => exact .empty
    | cons piece pieces ih =>
      have hrest := ih fun i hi => hfits i (List.mem_cons_of_mem _ hi)
      cases piece with
      | text s => exact .append (.text s) hrest
      | slot i =>
        have hi : ds[i]? = some (ds.get ⟨i, hfits i (by simp)⟩) := List.getElem?_eq_getElem _
        simp only [List.foldr_cons, Sql.pieceDraft, hi]
        exact .append (.operand (.slot hi)) hrest
  exact hpieces t h

namespace Expr

variable {d : Rules} {e : Expr} {operands : List Datum} {x : Datum}

/-- The text of a node in a dialect, as it stands and not converted to a condition or a value, has a
    value for given values of its operands. -/
def Computes (d : Rules) (e : Expr) (operands : List Datum) (x : Datum) : Prop :=
  ∀ p, Draft.Computes (Sql.draftList ((layoutList d p 0 e.children).map Layout.value)) operands
    (e.layout d p).natural.draft x

/-- A node that is written by a template computes what the template says. -/
theorem computes_of_form {t : Template} {c : Computation} {n : Nat}
    (hlength : e.children.length = n) (hfits : t.Fits n)
    (hform : ∀ p, (e.layout d p).natural =
      .level (.form t ((layoutList d p 0 e.children).map Layout.value)))
    (hread : t.read? = some c) (heval : c.eval operands = some x) : e.Computes d operands x := by
  intro p
  rw [hform p, Sql.draft, Sql.draft]
  refine ⟨t, c, .level (Template.covers_formDraft ?_), hread, heval⟩
  rwa [Sql.draftList_eq_map, List.length_map, List.length_map, length_layoutList, hlength]

end Expr

/-! ### Reading piece by piece -/

namespace Template

/-- Reading a piece of text leads from one point to another, whatever comes after it. -/
def Takes (t : Template) (r r' : Reader) : Prop :=
  ∀ rest, r.run (Token.scan [] (t.symbols ++ rest)) = r'.run (Token.scan [] rest)

/-- A piece of text is read as an operand wherever one is due. -/
def ReadsAs (t : Template) (c : Computation) : Prop :=
  ∀ outer bracket, t.Takes ⟨outer, bracket, none⟩ ⟨outer, bracket, some c⟩

variable {t u : Template} {r r' r'' : Reader} {c : Computation}

theorem Takes.append (ht : t.Takes r r') (hu : u.Takes r' r'') : (t ++ u).Takes r r'' := by
  intro rest
  rw [symbols, List.flatMap_append, List.append_assoc, ← symbols, ← symbols, ht, hu]

theorem readsAs_slot (i : Nat) : ReadsAs [.slot i] (.slot i) := fun _ _ _ => rfl

/-- A closing parenthesis ends the bracket that is open, unless this is a `case`. -/
theorem takes_closing {outer : List Bracket} {bracket : Bracket} {head : String}
    {parts : List (Computation × String)} {last : Computation} (hhead : head ≠ "case")
    (h : Computation.ofBrackets head parts last = some c) :
    Takes [.text ")"] ⟨bracket :: outer, ⟨head, parts, []⟩, some last⟩
      ⟨outer, bracket, some c⟩ := by
  intro rest
  have hstep : Reader.step ⟨bracket :: outer, ⟨head, parts, []⟩, some last⟩ .closing =
      some ⟨outer, bracket, some c⟩ := by
    simp [Reader.step, hhead, Reader.leave, Reader.part, Pending.settle, h]
  exact congrArg (Option.bind · _) hstep

/-- The end of a `case` in parentheses. -/
theorem takes_end {outer : List Bracket} {bracket : Bracket} {parts : List (Computation × String)}
    {last : Computation} (h : Computation.ofCase parts last = some c) :
    Takes [.text " end)"] ⟨⟨"", [], []⟩ :: bracket :: outer, ⟨"case", parts, []⟩, some last⟩
      ⟨outer, bracket, some c⟩ := by
  intro rest
  have hstep : Reader.step ⟨⟨"", [], []⟩ :: bracket :: outer, ⟨"case", parts, []⟩, some last⟩
      (.word "end") = some ⟨bracket :: outer, ⟨"", [], []⟩, some c⟩ := by
    simp [Reader.step, Reader.word, Reader.leave, Reader.part, Pending.settle,
      Computation.ofBrackets, h]
  exact congrArg (Option.bind · _) hstep

/-- A text that is an operand as a whole can be read. -/
theorem ReadsAs.read? (h : t.ReadsAs c) : t.read? = some c := by
  have hrun := h [] ⟨"", [], []⟩ []
  rw [List.append_nil] at hrun
  rw [Template.read?, tokens, Reader.initial, hrun]
  rfl

end Template

end WhereClause
