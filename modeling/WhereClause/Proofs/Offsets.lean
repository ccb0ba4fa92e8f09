import WhereClause.Dialect
import WhereClause.Expr.Build
import WhereClause.Proofs.Meaning

namespace WhereClause

/-!
# Offsets into strings

The host counts the characters of a string from zero, and SQL counts them from one. The forms of the
methods that take or give an offset make up for this.

* `OccursAt`, `FirstIndex` — occurrences in a string, with offsets from zero;
* `Datum.firstIndex_position` — a position from one, less one, is the offset;
* `Expr.computes_offsets` — the methods, with their forms read as SQL.
-/

/-! ### Occurrences -/

/-- A string occurs in another one after so many characters. -/
def OccursAt (x s : List Char) (i : Nat) : Prop :=
  ∃ before after, s = before ++ x ++ after ∧ before.length = i

/-- The offset of the first occurrence among those at a given offset or after it, or minus one if
    there is none. -/
inductive FirstIndex (x s : List Char) (start : Nat) : Int → Prop
  | found {i : Nat} : start ≤ i → OccursAt x s i → (∀ j, start ≤ j → OccursAt x s j → i ≤ j) →
      FirstIndex x s start i
  | absent : (∀ j, start ≤ j → ¬ OccursAt x s j) → FirstIndex x s start (-1)

variable {x s : List Char} {i k : Nat}

/-- A text occurs where the rest of the other begins with it. -/
theorem occursAt_iff : OccursAt x s i ↔ i ≤ s.length ∧ x <+: s.drop i := by
  constructor
  · rintro ⟨before, after, rfl, rfl⟩
    refine ⟨by simp, after, ?_⟩
    rw [List.append_assoc, List.drop_left]
  · rintro ⟨hi, after, hafter⟩
    refine ⟨s.take i, after, ?_, List.length_take_of_le hi⟩
    rw [List.append_assoc, hafter, List.take_append_drop]

/-- What occurs in the rest of a string occurs in the string, so much further on. -/
theorem occursAt_drop (hk : k ≤ s.length) : OccursAt x (s.drop k) i ↔ OccursAt x s (k + i) := by
  rw [occursAt_iff, occursAt_iff, List.drop_drop, List.length_drop]
  constructor <;> rintro ⟨hi, hx⟩ <;> exact ⟨by omega, hx⟩

/-- There is only one such offset. -/
theorem FirstIndex.unique {r r' : Int} (h : FirstIndex x s k r) (h' : FirstIndex x s k r') :
    r = r' := by
  cases h with
  | @found i hi hoccurs hfirst =>
    cases h' with
    | @found j hj hoccurs' hfirst' =>
      exact congrArg Nat.cast (Nat.le_antisymm (hfirst j hj hoccurs') (hfirst' i hi hoccurs))
    | absent hnone => exact absurd hoccurs (hnone i hi)
  | absent hnone =>
    cases h' with
    | @found j hj hoccurs' _ => exact absurd hoccurs' (hnone j hj)
    | absent => rfl

/-- An offset into the rest of a string, or minus one, in terms of the whole string. -/
theorem FirstIndex.of_drop {r : Int} (hk : k ≤ s.length) (h : FirstIndex x (s.drop k) 0 r) :
    FirstIndex x s k (if r = -1 then -1 else r + k) := by
  -- Offsets from `k` on are those into the rest.
  have hrest : ∀ j, k ≤ j → (OccursAt x s j ↔ OccursAt x (s.drop k) (j - k)) := by
    intro j hj
    rw [occursAt_drop hk, Nat.add_sub_cancel' hj]
  cases h with
  | @found i _ hoccurs hfirst =>
    rw [if_neg (by omega), ← Nat.cast_add]
    refine .found (Nat.le_add_left k i) ?_ ?_
    · rwa [hrest _ (Nat.le_add_left k i), Nat.add_sub_cancel]
    · intro j hj hoccurs'
      have := hfirst (j - k) (Nat.zero_le _) ((hrest j hj).mp hoccurs')
      omega
  | absent hnone =>
    rw [if_pos rfl]
    exact .absent fun j hj hoccurs => hnone (j - k) (Nat.zero_le _) ((hrest j hj).mp hoccurs)

namespace Datum

/-- A position that counts from one, less one, is the offset of the first occurrence. -/
theorem firstIndex_position (x s : List Char) : FirstIndex x s 0 (position x s - 1) := by
  have hoccurs : ∀ j, OccursAt x s j ↔ j < s.length + 1 ∧ x.isPrefixOf (s.drop j) = true := by
    intro j
    rw [occursAt_iff, List.isPrefixOf_iff_prefix, Nat.lt_succ_iff]
  rw [position]
  -- The offsets are tried one by one, up to the one behind the last character.
  rcases hfind : (List.range (s.length + 1)).find? fun i => x.isPrefixOf (s.drop i) with _ | i
  · rw [List.find?_range_eq_none] at hfind
    refine .absent fun j _ hj => ?_
    obtain ⟨hlt, hx⟩ := (hoccurs j).mp hj
    simpa [hx] using hfind j hlt
  · obtain ⟨hx, hi, hbefore⟩ := List.find?_range_eq_some.mp hfind
    have hcast : ((i + 1 : Nat) : Int) - 1 = i := by omega
    simp only [hcast]
    refine .found (Nat.zero_le i) ((hoccurs i).mpr ⟨List.mem_range.mp hi, hx⟩) ?_
    intro j _ hj
    by_contra hlt
    simpa [((hoccurs j).mp hj).2] using hbefore j (by omega)

/-! ### Stretches of a text -/

/-- A position right after an offset is one that texts are cut at. -/
theorem isPosition_succ (i : Nat) :
    ((i + 1 : Nat) : ℚ).den = 1 ∧ (1 : ℚ) ≤ ((i + 1 : Nat) : ℚ) :=
  ⟨Rat.den_natCast _, by exact_mod_cast Nat.le_add_left 1 i⟩

/-- A slice to the end drops what is before it. Positions count from one. -/
theorem slice_from (s : List Char) (i : Nat) :
    slice s ((i + 1 : Nat) : ℚ) none = some (text (s.drop i)) := by
  rw [slice, if_pos (isPosition_succ i), Rat.num_natCast]
  simp

/-- A slice of a given length takes that much of the rest. -/
theorem slice_for (s : List Char) (i n : Nat) :
    slice s ((i + 1 : Nat) : ℚ) (some (n : ℚ)) = some (text ((s.drop i).take n)) := by
  rw [slice, if_pos (isPosition_succ i), Rat.num_natCast]
  simp

/-- A function that takes a stretch of a text, with what it has before the position and before the
    number of characters. -/
structure Slices (function start count : String) : Prop where
  ne_cast : function ≠ "CAST"
  apply_from : ∀ s i, apply function [start] [text s, number i] = slice s i none
  apply_for : ∀ s i n,
    apply function [start, count] [text s, number i, number n] = slice s i (some n)

/-- The function with words between its arguments. -/
theorem slices_substring : Slices "SUBSTRING" "FROM" "FOR" :=
  ⟨by decide, fun _ _ => rfl, fun _ _ _ => rfl⟩

/-- The function with commas between its arguments. -/
theorem slices_substr : Slices "SUBSTR" "," "," :=
  ⟨by decide, fun _ _ => rfl, fun _ _ _ => rfl⟩

end Datum

namespace Computation

open WhereClause.Datum

variable {operands : List Datum} {function start count : String} {cs ci cn : Computation} {n : Nat}

/-- The sum of two positions. -/
theorem eval_add (hi : ci.eval operands = some (.number i))
    (hn : cn.eval operands = some (.number n)) :
    (binary "+" ci cn).eval operands = some (.number (i + n : Nat)) := by
  rw [eval_binary "+" hi hn, Nat.cast_add]
  rfl

/-- The position, counting from one, of what comes after so many characters. -/
theorem eval_next (hi : ci.eval operands = some (.number i)) :
    (binary "+" ci (number 1)).eval operands = some (.number (i + 1 : Nat)) :=
  eval_add hi rfl

/-- A slice to the end, in either spelling. -/
theorem eval_from (hf : Slices function start count) (hs : cs.eval operands = some (text s))
    (hi : ci.eval operands = some (.number (i + 1 : Nat))) :
    (call function [start] [cs, ci]).eval operands = some (text (s.drop i)) := by
  rw [eval_call hf.ne_cast, evalList_cons hs (evalList_cons hi rfl), Option.bind_some,
    hf.apply_from, slice_from]

/-- A slice of a given length, in either spelling. -/
theorem eval_for (hf : Slices function start count) (hs : cs.eval operands = some (text s))
    (hi : ci.eval operands = some (.number (i + 1 : Nat)))
    (hn : cn.eval operands = some (.number n)) :
    (call function [start, count] [cs, ci, cn]).eval operands =
      some (text ((s.drop i).take n)) := by
  rw [eval_call hf.ne_cast, evalList_cons hs (evalList_cons hi (evalList_cons hn rfl)),
    Option.bind_some, hf.apply_for, slice_for]

/-- The function for the first position, zero if there is none. -/
theorem eval_position {cx : Computation} (hx : cx.eval operands = some (text x))
    (hs : cs.eval operands = some (text s)) :
    (call "POSITION" ["IN"] [cx, cs]).eval operands = some (.number (position x s)) := by
  rw [eval_call (by decide), evalList_cons hx (evalList_cons hs rfl)]
  rfl

/-- The first characters of a text. -/
theorem eval_first (hf : Slices function start count) (hs : cs.eval operands = some (text s))
    (hn : cn.eval operands = some (.number n)) :
    (call function [start, count] [cs, number 1, cn]).eval operands = some (text (s.take n)) :=
  eval_for (i := 0) hf hs rfl hn

/-- A text without some characters in its middle. -/
theorem eval_without (hf : Slices function start count) (hs : cs.eval operands = some (text s))
    (hi : ci.eval operands = some (.number i)) (hn : cn.eval operands = some (.number n)) :
    (binary "||" (call function [start, count] [cs, number 1, ci])
      (call function [start] [cs, binary "+" (binary "+" ci cn) (number 1)])).eval operands =
      some (text (s.take i ++ s.drop (i + n))) :=
  eval_binary "||" (eval_first hf hs hi) (eval_from hf hs (eval_next (eval_add hi hn)))

/-- The offset of an occurrence, from its position. -/
theorem eval_offset {cx : Computation} (hx : cx.eval operands = some (text x))
    (hs : cs.eval operands = some (text s)) :
    (binary "-" (call "POSITION" ["IN"] [cx, cs]) (number 1)).eval operands =
      some (.number (position x s - 1 : Int)) := by
  rw [eval_binary "-" (eval_position hx hs) rfl]
  push_cast
  rfl

/-- The offset of an occurrence from a given offset on, where minus one is kept. -/
theorem eval_offset_from {cx : Computation} (hf : Slices function start count)
    (hx : cx.eval operands = some (text x)) (hs : cs.eval operands = some (text s))
    (hi : ci.eval operands = some (.number i)) :
    let found := call "POSITION" ["IN"] [cx, call function [start] [cs, binary "+" ci (number 1)]]
    let r : Int := position x (s.drop i) - 1
    (choice (binary "=" found (number 0)) (negate (number 1))
      (binary "-" (binary "+" found ci) (number 1))).eval operands =
      some (.number (if r = -1 then -1 else r + i : Int)) := by
  intro found r
  have hfound : found.eval operands = some (.number (position x (s.drop i))) :=
    eval_position hx (eval_from hf hs (eval_next hi))
  have hrest : (binary "-" (binary "+" found ci) (number 1)).eval operands =
      some (.number (r + i : Int)) := by
    rw [eval_binary "-" (eval_add (i := position x (s.drop i)) hfound hi) rfl]
    simp only [r]
    push_cast
    exact congrArg (fun q => some (Datum.number q)) (by ring)
  rw [eval, eval_binary "=" hfound rfl, hrest]
  -- Position zero stands for no occurrence, and must not be moved by the offset.
  by_cases hzero : position x (s.drop i) = 0
  · have hr : r = -1 := by omega
    rw [if_pos hr]
    simp [operate, truth, Datum.isTrue, eval, Datum.negate, hzero]
  · have hr : r ≠ -1 := by omega
    rw [if_neg hr]
    simp [operate, truth, Datum.isTrue, hzero]

end Computation

namespace Expr

open WhereClause.Computation WhereClause.Datum

/-- Characters are removed alike in all dialects that take the stretches before and after them. -/
theorem computes_remove {d : Rules} {function from_ for_ : String} {t₁ t₂ : Template}
    (hf : Slices function from_ for_) (hfits₁ : t₁.Fits 2) (hfits₂ : t₂.Fits 3)
    (ht₁ : d.method (.string .remove) 1 = some t₁) (ht₂ : d.method (.string .remove) 2 = some t₂)
    (hread₁ : t₁.read? = some (.call function [from_, for_] [.slot 0, .number 1, .slot 1]))
    (hread₂ : t₂.read? = some (.binary "||"
      (.call function [from_, for_] [.slot 0, .number 1, .slot 1])
      (.call function [from_]
        [.slot 0, .binary "+" (.binary "+" (.slot 1) (.slot 2)) (.number 1)])))
    (kind : ValueKind) (receiver start count : Expr) (s : List Char) (k n : Nat) :
    (call kind .string "Remove" receiver [start]).Computes d [.text s, .number k]
        (.text (s.take k)) ∧
      (call kind .string "Remove" receiver [start, count]).Computes d
        [.text s, .number k, .number n] (.text (s.take k ++ s.drop (k + n))) := by
  constructor
  · refine computes_of_form rfl hfits₁ (fun p => ?_) hread₁ (eval_first hf rfl rfl)
    exact congrArg Sql.level (congrArg (Layout.formOr d _ · _) ht₁)
  · refine computes_of_form rfl hfits₂ (fun p => ?_) hread₂ (eval_without hf rfl rfl rfl)
    exact congrArg Sql.level (congrArg (Layout.formOr d _ · _) ht₂)

/-- **Offsets.** For every string and every offset into it, the forms of the methods with offsets
    compute what the methods do: stretches of a string and the offset of the first occurrence of a
    part in the generic dialect, and the string without a stretch also in two others. -/
theorem computes_offsets (kind : ValueKind) (receiver part start count : Expr) (s x : List Char)
    {k : Nat} (hk : k ≤ s.length) (n : Nat) :
    (call kind .string "Substring" receiver [start]).Computes Generic.rules
      [.text s, .number k] (.text (s.drop k)) ∧
    (call kind .string "Substring" receiver [start, count]).Computes Generic.rules
      [.text s, .number k, .number n] (.text ((s.drop k).take n)) ∧
    (∃ r, FirstIndex x s 0 r ∧
      (call kind .string "IndexOf" receiver [part]).Computes Generic.rules
        [.text s, .text x] (.number r)) ∧
    (∃ r, FirstIndex x s k r ∧
      (call kind .string "IndexOf" receiver [part, start]).Computes Generic.rules
        [.text s, .text x, .number k] (.number r)) ∧
    ∀ d ∈ [Dialect.generic, .sqlite, .oracle],
      (call kind .string "Remove" receiver [start]).Computes d.rules
        [.text s, .number k] (.text (s.take k)) ∧
      (call kind .string "Remove" receiver [start, count]).Computes d.rules
        [.text s, .number k, .number n] (.text (s.take k ++ s.drop (k + n))) := by
  -- What a search finds is the same if the text before the start is cut off.
  have hanywhere := firstIndex_position x s
  have hlater := (firstIndex_position x (s.drop k)).of_drop hk
  refine ⟨?_, ?_, ⟨_, hanywhere, ?_⟩, ⟨_, hlater, ?_⟩, ?_⟩
  · exact computes_of_form (n := 2) rfl (by decide) (fun _ => rfl) rfl
      (eval_from slices_substring rfl (eval_next rfl))
  · exact computes_of_form (n := 3) rfl (by decide) (fun _ => rfl) rfl
      (eval_for slices_substring rfl (eval_next rfl) rfl)
  · exact computes_of_form (n := 2) rfl (by decide) (fun _ => rfl) rfl (eval_offset rfl rfl)
  · exact computes_of_form (n := 3) rfl (by decide) (fun _ => rfl) rfl
      (eval_offset_from slices_substring rfl rfl rfl)
  · intro d hd
    simp only [List.mem_cons, List.not_mem_nil, or_false] at hd
    obtain rfl | rfl | rfl := hd
    · exact computes_remove slices_substring (by decide) (by decide) rfl rfl rfl rfl ..
    · exact computes_remove slices_substr (by decide) (by decide) rfl rfl rfl rfl ..
    · exact computes_remove slices_substr (by decide) (by decide) rfl rfl rfl rfl ..

/-- The second occurrence of a part is found if the search starts after the first one, and two
    characters are removed from there. -/
theorem computes_offsets_banana :
    let name := Build.column "Name" .string
    let number n hn := Build.literal (.int ⟨.i32, n, hn⟩)
    let s := "banana".toList
    2 ≤ s.length ∧
    (Build.indexOf name (Build.literal (.string "an")) (number 2 (by decide))).Computes
      Generic.rules [.text s, .text "an".toList, .number (2 : Nat)] (.number (3 : Int)) ∧
    (Build.remove name (number 2 (by decide)) (number 3 (by decide))).Computes Oracle.rules
      [.text s, .number (2 : Nat), .number (3 : Nat)] (.text "baa".toList) := by
  intro name number s
  have hk : 2 ≤ s.length := by decide
  obtain ⟨-, -, -, ⟨r, hr, hindex⟩, -⟩ := computes_offsets .integer name
    (Build.literal (.string "an")) (number 2 (by decide)) name s "an".toList hk 0
  have hthree : FirstIndex "an".toList s 2 (3 : Nat) := by
    refine .found (by decide) ⟨"ban".toList, "a".toList, rfl, rfl⟩ ?_
    intro j hj hoccurs
    by_contra hlt
    obtain rfl : j = 2 := by omega
    exact absurd (occursAt_iff.mp hoccurs).2 (by decide)
  obtain rfl := hr.unique hthree
  obtain ⟨-, -, -, -, hremove⟩ := computes_offsets .string name name (number 2 (by decide))
    (number 3 (by decide)) s [] hk 3
  exact ⟨hk, hindex, (hremove .oracle (by decide)).2⟩

end Expr

end WhereClause
