import WhereClause.Text.Quoted

namespace WhereClause

/-!
# Reading SQL text

How a database reads the text of a condition, as far as string literals, parentheses and parameters
go. A single quote opens a literal; inside it two quotes stand for one, and a quote alone closes it.

* `Reading`, `scan` — the text as a row of lexemes, read from left to right;
* `scan_append` — texts that end outside of a literal are read one by one;
* `scan_quote` — a quoted text is read as one literal with exactly that content;
* `depthAfter` — the depth of parentheses, counted outside of literals;
* `placeholders` — the parameters that a text mentions.
-/

/-- What a reader finds in a text: a character outside of literals, a complete literal with its
    content, or the content of a literal that is never closed. -/
inductive Lexeme where
  | plain (c : Char)
  | literal (content : List Char)
  | unclosed (content : List Char)
  deriving DecidableEq

/-- Where a reader is: outside of literals, inside a literal, or just after a quote in a literal,
    which closes it unless a second one follows. -/
inductive Reading where
  | outside
  | inside (content : List Char)
  | closing (content : List Char)
  deriving DecidableEq

namespace Reading

/-- Where the reader is after one more character. -/
def next : Reading → Char → Reading
  | outside, c => if c = '\'' then inside [] else outside
  | inside content, c => if c = '\'' then closing content else inside (content ++ [c])
  | closing content, c => if c = '\'' then inside (content ++ ['\'']) else outside

/-- What the reader knows after one more character that it did not know before. -/
def found : Reading → Char → List Lexeme
  | outside, c => if c = '\'' then [] else [.plain c]
  | inside _, _ => []
  | closing content, c => if c = '\'' then [] else [.literal content, .plain c]

/-- What the reader knows when the text ends. -/
def atEnd : Reading → List Lexeme
  | outside => []
  | inside content => [.unclosed content]
  | closing content => [.literal content]

/-- Where the reader is after a text. -/
def after (r : Reading) (cs : List Char) : Reading := cs.foldl next r

/-- The reader is in no literal, or has just come to the end of one. -/
def isSettled : Reading → Bool
  | inside _ => false
  | _ => true

end Reading

/-- A text read from left to right. -/
def scan : Reading → List Char → List Lexeme
  | r, [] => r.atEnd
  | r, c :: cs => r.found c ++ scan (r.next c) cs

/-! ### Texts one after another -/

namespace Reading

/-- A text is read on from where the first part ends. -/
theorem after_append (r : Reading) (s t : List Char) : r.after (s ++ t) = (r.after s).after t :=
  List.foldl_append

/-- Only a quote brings a reader to the end of a literal. -/
theorem eq_quote_of_next_eq_closing {r : Reading} {c : Char} {content : List Char}
    (h : r.next c = closing content) : c = '\'' := by
  by_cases hc : c = '\''
  · exact hc
  · cases r <;> simp [next, hc] at h

/-- A literal that may be over ends in a quote. -/
theorem getLast?_of_after_eq_closing {r : Reading} {t content : List Char}
    (h : r.after t = closing content) (ht : t ≠ []) : t.getLast? = some '\'' := by
  obtain ⟨s, c, rfl⟩ := (List.eq_nil_or_concat t).resolve_left ht
  rw [List.concat_eq_append, after_append] at h
  have hc : c = '\'' := eq_quote_of_next_eq_closing h
  simp [hc]

end Reading

/-- If a text leaves the reader outside of literals, what follows is read from there. -/
theorem scan_append_of_outside {r : Reading} {t : List Char} (h : r.after t = .outside)
    (rest : List Char) : scan r (t ++ rest) = scan r t ++ scan .outside rest := by
  induction t generalizing r with
  | nil =>
    obtain rfl : r = .outside := h
    rfl
  | cons c t ih => simp only [List.cons_append, scan, ih h, List.append_assoc]

/-- If a text ends with the quote that closes a literal, what follows is read from outside as long
    as it does not begin with one more quote. -/
theorem scan_append_of_closing {r : Reading} {t content : List Char}
    (h : r.after t = .closing content) {rest : List Char} (hrest : rest.head? ≠ some '\'') :
    scan r (t ++ rest) = scan r t ++ scan .outside rest := by
  induction t generalizing r with
  | nil =>
    obtain rfl : r = .closing content := h
    cases rest with
    | nil => rfl
    | cons c rest =>
      have hc : c ≠ '\'' := by simpa using hrest
      simp [scan, Reading.found, Reading.next, Reading.atEnd, hc]
  | cons c t ih => simp only [List.cons_append, scan, ih h, List.append_assoc]

/-- **Settled texts are read apart.** A text that ends outside of literals is read for itself,
    unless its last quote and the first of the next text run together. -/
theorem scan_append {t rest : List Char} (h : (Reading.outside.after t).isSettled)
    (hrest : t.getLast? = some '\'' → rest.head? ≠ some '\'') :
    scan .outside (t ++ rest) = scan .outside t ++ scan .outside rest := by
  cases ha : Reading.outside.after t with
  | outside => exact scan_append_of_outside ha rest
  | inside content => simp [ha, Reading.isSettled] at h
  | closing content =>
    have hne : t ≠ [] := by rintro rfl; simp [Reading.after] at ha
    exact scan_append_of_closing ha (hrest (Reading.getLast?_of_after_eq_closing ha hne))

/-- A text without quotes is read character by character. -/
theorem scan_plain {t : List Char} (h : '\'' ∉ t) : scan .outside t = t.map .plain := by
  induction t with
  | nil => rfl
  | cons c t ih =>
    obtain ⟨hc, ht⟩ : ¬ '\'' = c ∧ '\'' ∉ t := by simpa using h
    simp [scan, Reading.found, Reading.next, Ne.symm hc, ih ht]

/-! ### Quoted texts -/

/-- Doubled quotes inside a literal are read as single ones. -/
theorem scan_inside_double (content cs t : List Char) :
    scan (.inside content) (Text.double '\'' cs ++ t) = scan (.inside (content ++ cs)) t := by
  induction cs generalizing content with
  | nil => simp [Text.double]
  | cons c cs ih =>
    rw [Text.double]
    split
    · next hc => simpa [hc, scan, Reading.found, Reading.next] using ih (content ++ ['\''])
    · next hc => simpa [hc, scan, Reading.found, Reading.next] using ih (content ++ [c])

/-- **One literal.** A quoted text is read as one literal whose content is the text itself. -/
theorem scan_quote (cs : List Char) : scan .outside (Text.quote cs) = [.literal cs] := by
  show scan (.inside []) (Text.double '\'' cs ++ ['\'']) = _
  rw [scan_inside_double]
  rfl

/-! ### Depth of parentheses -/

/-- The depth of parentheses after some lexemes, counted from a given depth; absent if there are
    more closing than opening ones on the way, or if a literal is left open. -/
def depthAfter : Nat → List Lexeme → Option Nat
  | n, [] => some n
  | n, .plain c :: ls =>
    if c = '(' then depthAfter (n + 1) ls
    else if c = ')' then
      match n with
      | 0 => none
      | n + 1 => depthAfter n ls
    else depthAfter n ls
  | n, .literal _ :: ls => depthAfter n ls
  | _, .unclosed _ :: _ => none

/-- Depths are counted on from the first part. -/
theorem depthAfter_append (n : Nat) (ls ms : List Lexeme) :
    depthAfter n (ls ++ ms) = (depthAfter n ls).bind (depthAfter · ms) := by
  induction ls generalizing n with
  | nil => rfl
  | cons l ls ih =>
    cases l with
    | plain c =>
      simp only [List.cons_append, depthAfter]
      split
      · exact ih _
      · split
        · cases n with
          | zero => rfl
          | succ n => exact ih n
        · exact ih n
    | literal content => exact ih n
    | unclosed content => rfl

/-- More open parentheses in front do no harm. -/
theorem depthAfter_add {n m : Nat} {ls : List Lexeme} (h : depthAfter n ls = some m) (k : Nat) :
    depthAfter (n + k) ls = some (m + k) := by
  induction ls generalizing n with
  | nil =>
    obtain rfl : n = m := by simpa [depthAfter] using h
    rfl
  | cons l ls ih =>
    cases l with
    | plain c =>
      simp only [depthAfter] at h ⊢
      split
      · next hc =>
        rw [if_pos hc] at h
        rw [show n + k + 1 = n + 1 + k by omega]
        exact ih h
      · next hc =>
        rw [if_neg hc] at h
        split
        · next hc' =>
          rw [if_pos hc'] at h
          cases n with
          -- A closing parenthesis at depth zero has failed already.
          | zero => exact absurd h (by simp)
          | succ n =>
            rw [show n + 1 + k = n + k + 1 by omega]
            exact ih h
        · next hc' =>
          rw [if_neg hc'] at h
          exact ih h
    | literal content => exact ih h
    | unclosed content => exact absurd h (by simp [depthAfter])

/-- A text with a depth leaves no literal open. -/
theorem isSettled_of_depthAfter {r : Reading} {t : List Char} {n m : Nat}
    (h : depthAfter n (scan r t) = some m) : (r.after t).isSettled := by
  induction t generalizing r n with
  | nil =>
    cases r with
    | outside | closing content => rfl
    | inside content => exact absurd h (by simp [scan, Reading.atEnd, depthAfter])
  | cons c t ih =>
    rw [scan, depthAfter_append] at h
    obtain ⟨k, -, hk⟩ := Option.bind_eq_some_iff.mp h
    exact ih hk

/-- Characters that are no parentheses leave the depth as it is. -/
theorem depthAfter_plain {t : List Char} (h : '(' ∉ t ∧ ')' ∉ t) (n : Nat) :
    depthAfter n (t.map .plain) = some n := by
  induction t with
  | nil => rfl
  | cons c t ih =>
    simp only [List.mem_cons, not_or] at h
    obtain ⟨⟨ho, hot⟩, hc, hct⟩ := h
    simp [depthAfter, Ne.symm ho, Ne.symm hc, ih ⟨hot, hct⟩]

/-! ### Parameters -/

/-- The name of a parameter at the start of a text: `p` and as many digits as follow. -/
def placeholderName? : List Char → Option String
  | 'p' :: cs =>
    let digits := cs.takeWhile Char.isDigit
    if digits.isEmpty then none else some (String.ofList ('p' :: digits))
  | _ => none

/-- The names of the parameters in a text, each after the mark of a parameter, in order. -/
def placeholders (mark : Char) : List Char → List String
  | [] => []
  | c :: cs => (if c = mark then (placeholderName? cs).toList else []) ++ placeholders mark cs

/-- No mark of a text could begin a parameter, whatever follows the text. -/
def isUnmarked (mark : Char) : List Char → Bool
  | [] => true
  | c :: cs => (c ≠ mark || (cs.head?.any (· ≠ 'p'))) && isUnmarked mark cs

/-- A text without marks before another adds no placeholders. -/
theorem placeholders_append_of_isUnmarked {mark : Char} {t : List Char}
    (h : isUnmarked mark t) (rest : List Char) :
    placeholders mark (t ++ rest) = placeholders mark rest := by
  induction t with
  | nil => rfl
  | cons c t ih =>
    obtain ⟨hc, ht⟩ : (c ≠ mark || (t.head?.any (· ≠ 'p'))) = true ∧ isUnmarked mark t = true := by
      simpa [isUnmarked] using h
    simp only [List.cons_append, placeholders, ih ht]
    split
    · next hm =>
      -- The mark is followed by a character of the text that does not begin a name.
      cases t with
      | nil => simp [hm] at hc
      | cons c' t =>
        have hp : c' ≠ 'p' := by simpa [hm] using hc
        simp [placeholderName?, hp]
    · rfl

/-- A text without the character has no marks. -/
theorem isUnmarked_of_not_mem {mark : Char} {t : List Char} (h : mark ∉ t) :
    isUnmarked mark t := by
  induction t with
  | nil => rfl
  | cons c t ih =>
    obtain ⟨hc, ht⟩ : ¬ mark = c ∧ mark ∉ t := by simpa using h
    simp [isUnmarked, Ne.symm hc, ih ht]

/-- A parameter is read to its last digit if no digit follows it. -/
theorem placeholders_cons_name {mark : Char} {digits rest : List Char} (hmark : mark ≠ 'p')
    (hmarkd : mark.isDigit = false) (hne : digits ≠ []) (hd : ∀ c ∈ digits, c.isDigit)
    (hrest : ∀ c ∈ rest.head?, c.isDigit = false) :
    placeholders mark (mark :: 'p' :: digits ++ rest) =
      String.ofList ('p' :: digits) :: placeholders mark rest := by
  -- The name ends with its digits, since what follows begins with none.
  have htake : (digits ++ rest).takeWhile Char.isDigit = digits := by
    rw [List.takeWhile_append_of_pos hd]
    cases rest with
    | nil => simp
    | cons c rest =>
      have hc := hrest c (by simp)
      simp [hc]
  have hunmarked : isUnmarked mark ('p' :: digits) := by
    refine isUnmarked_of_not_mem ?_
    intro hmem
    rcases List.mem_cons.mp hmem with hp | hmem
    · exact hmark hp
    · simp [hd mark hmem] at hmarkd
  have hname : placeholderName? ('p' :: digits ++ rest) = some (String.ofList ('p' :: digits)) := by
    simp [placeholderName?, htake, hne]
  show (if mark = mark then (placeholderName? ('p' :: digits ++ rest)).toList else []) ++
    placeholders mark ('p' :: digits ++ rest) = _
  rw [if_pos rfl, hname, placeholders_append_of_isUnmarked hunmarked rest]
  rfl

end WhereClause
