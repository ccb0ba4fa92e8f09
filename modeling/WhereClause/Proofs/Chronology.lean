import Mathlib.Data.String.Basic
import WhereClause.Proofs.DayCount
import WhereClause.Proofs.Moments

namespace WhereClause

/-!
# Dates and times in the order of their texts

Literals of dates and times can be compared as texts. Their fields stand from the greatest to the
smallest, each with as many digits as any other of its kind, and the point of a fraction comes only
after all that the texts have in common; so a later moment never has a smaller text.

* `Text.padded_append_le`, `Text.padded_append_inj` — one field and what follows it;
* `DateTime.le_iff` — what it is to be no later, leap seconds included;
* `DateTime.SameMilli` — the same moment up to the millisecond;
* `DateTime.milliText_sorts` — the order of texts, and what equal texts have in common.
-/

namespace Text

/-! ### Fields of digits -/

/-- The smaller number before the digits makes the smaller number with them. -/
theorem ofDigitChars_lt {cs ds : List Char} (hcs : ∀ c ∈ cs, c.isDigit)
    (hlength : cs.length = ds.length) {a b : Nat} (h : a < b) :
    Nat.ofDigitChars 10 cs a < Nat.ofDigitChars 10 ds b := by
  induction cs generalizing ds a b with
  | nil =>
    obtain rfl := List.length_eq_zero_iff.mp hlength.symm
    simpa using h
  | cons c cs ih =>
    obtain ⟨d, ds, rfl⟩ := List.exists_cons_of_length_eq_add_one hlength.symm
    have hc := toNat_of_isDigit (hcs c List.mem_cons_self)
    have hzero : '0'.toNat = 48 := rfl
    rw [Nat.ofDigitChars_cons, Nat.ofDigitChars_cons]
    exact ih (fun e he => hcs e (List.mem_cons_of_mem _ he)) (Nat.succ.inj hlength) (by omega)

/-- Digits of the smaller number come first, whatever follows. -/
theorem digits_append_lt {cs ds : List Char} (hcs : ∀ c ∈ cs, c.isDigit) (hds : ∀ d ∈ ds, d.isDigit)
    (hlength : cs.length = ds.length) {a : Nat}
    (h : Nat.ofDigitChars 10 cs a < Nat.ofDigitChars 10 ds a) (x y : List Char) :
    cs ++ x < ds ++ y := by
  induction cs generalizing ds a with
  | nil =>
    obtain rfl := List.length_eq_zero_iff.mp hlength.symm
    exact absurd h (Nat.lt_irrefl _)
  | cons c cs ih =>
    obtain ⟨d, ds, rfl⟩ := List.exists_cons_of_length_eq_add_one hlength.symm
    have hcs' : ∀ e ∈ cs, e.isDigit := fun e he => hcs e (List.mem_cons_of_mem _ he)
    have hds' : ∀ e ∈ ds, e.isDigit := fun e he => hds e (List.mem_cons_of_mem _ he)
    have hlength' : cs.length = ds.length := Nat.succ.inj hlength
    rw [Nat.ofDigitChars_cons, Nat.ofDigitChars_cons] at h
    rw [List.cons_append, List.cons_append, List.cons_lt_cons_iff]
    rcases Nat.lt_trichotomy c.toNat d.toNat with hlt | heq | hgt
    · exact .inl hlt
    · obtain rfl : c = d := Char.toNat_inj.mp heq
      exact .inr ⟨rfl, ih hcs' hds' hlength' h⟩
    · -- The greater digit would make the greater number.
      have hd := toNat_of_isDigit (hds d List.mem_cons_self)
      have hzero : '0'.toNat = 48 := rfl
      have hless : 10 * a + (d.toNat - '0'.toNat) < 10 * a + (c.toNat - '0'.toNat) := by omega
      exact absurd (ofDigitChars_lt hds' hlength'.symm hless) (Nat.lt_asymm h)

variable {n m : Nat} {x y : List Char}

/-- Zeros in front of a number do not change it. -/
theorem ofDigitChars_padded (width n : Nat) : Nat.ofDigitChars 10 (padded width n) 0 = n := by
  rw [← ofDigits_values, ofDigits_padded]

/-- Two numbers that fit are filled up to the same width. -/
theorem length_padded_eq (width : Nat) (hwidth : 0 < width) (hn : n < 10 ^ width)
    (hm : m < 10 ^ width) : (padded width n).length = (padded width m).length := by
  rw [length_padded hwidth hn, length_padded hwidth hm]

/-- Behind a common beginning, texts keep their order. -/
theorem append_le_append (cs : List Char) (h : x ≤ y) : cs ++ x ≤ cs ++ y := by
  induction cs with
  | nil => exact h
  | cons c cs ih => exact List.cons_le_cons c ih

/-- **One field.** Of two texts that begin with numbers of the same width, the one with the greater
    number comes later, and what follows decides only if the numbers are the same. -/
theorem padded_append_le (width : Nat) (hwidth : 0 < width) (hn : n < 10 ^ width)
    (hm : m < 10 ^ width) (h : n < m ∨ n = m ∧ x ≤ y) :
    padded width n ++ x ≤ padded width m ++ y := by
  rcases h with hlt | ⟨rfl, hle⟩
  · have hlength := length_padded_eq width hwidth hn hm
    refine le_of_lt (digits_append_lt (fun _ => isDigit_of_mem_padded)
      (fun _ => isDigit_of_mem_padded) hlength (a := 0) ?_ x y)
    rwa [ofDigitChars_padded, ofDigitChars_padded]
  · exact append_le_append (padded width n) hle

/-- Digits of a fixed width are told apart, and so is what follows them. -/
theorem padded_append_inj (width : Nat) (hwidth : 0 < width) (hn : n < 10 ^ width)
    (hm : m < 10 ^ width) (h : padded width n ++ x = padded width m ++ y) : n = m ∧ x = y := by
  obtain ⟨hpadded, hrest⟩ := List.append_inj h (length_padded_eq width hwidth hn hm)
  refine ⟨?_, hrest⟩
  rw [← ofDigitChars_padded width n, hpadded, ofDigitChars_padded]

/-- Strings have the order of their characters. -/
theorem ofList_le_ofList (h : x ≤ y) : String.ofList x ≤ String.ofList y := by
  rwa [String.le_iff_toList_le, String.toList_ofList, String.toList_ofList]

end Text

open Text

/-! ### Times -/

namespace TimeOfDay

/-- No later in the day. -/
instance : LE TimeOfDay where
  le t u := t.minutes < u.minutes ∨ t.minutes = u.minutes ∧ t.nanosInMinute ≤ u.nanosInMinute

/-- The same minute, and the same millisecond of it. -/
def SameMilli (t u : TimeOfDay) : Prop :=
  t.minutes = u.minutes ∧ t.nanosInMinute / 1000000 = u.nanosInMinute / 1000000

/-- What stands after the seconds. -/
def milliTail (t : TimeOfDay) : List Char :=
  if t.isWhole then [] else '.' :: padded 3 (t.nano / 1000000)

variable {t u : TimeOfDay}

/-- The fields of a time, in the order in which they count. -/
theorem milliText_eq (t : TimeOfDay) : t.milliText = padded 2 t.hour ++ ':' ::
    (padded 2 t.minute ++ ':' :: (padded 2 t.second ++ t.milliTail)) := by
  unfold milliText milliTail clock
  split <;> simp

/-- In the same second, the later fraction comes later, and no fraction comes first. -/
theorem milliTail_le (hsecond : t.second = u.second) (hnano : t.nano ≤ u.nano) :
    t.milliTail ≤ u.milliTail := by
  have hlt := u.nano_lt
  unfold milliTail
  by_cases ht : t.isWhole
  · rw [if_pos ht]
    exact not_lt.mp (List.not_lt_nil _)
  · -- With nothing below the second, `u` would be whole only if `t` is.
    have hu : ¬ u.isWhole := by
      rw [isWhole_iff] at ht ⊢
      omega
    rw [if_neg ht, if_neg hu]
    have hmilli := Nat.lt_or_eq_of_le (Nat.div_le_div_right (c := 1000000) hnano)
    have hfield := padded_append_le 3 (x := []) (y := []) (by decide) (by omega) (by omega)
      (hmilli.imp_right fun heq => ⟨heq, le_refl _⟩)
    rw [List.append_nil, List.append_nil] at hfield
    exact List.cons_le_cons '.' hfield

/-- Times are in the order of their texts. -/
theorem milliText_le (h : t ≤ u) : t.milliText ≤ u.milliText := by
  have hhour := t.hour_lt
  have hhour' := u.hour_lt
  have hminute := t.minute_lt
  have hminute' := u.minute_lt
  have hsecond := t.second_le
  have hsecond' := u.second_le
  have hnano := t.nano_lt
  have hnano' := u.nano_lt
  -- The order of times counts minutes and the rest of the minute; the text has four fields,
  -- compared in turn.
  have hfields : t.hour < u.hour ∨ t.hour = u.hour ∧ (t.minute < u.minute ∨
      t.minute = u.minute ∧ (t.second < u.second ∨ t.second = u.second ∧ t.nano ≤ u.nano)) := by
    have h : t.minutes < u.minutes ∨
      t.minutes = u.minutes ∧ t.nanosInMinute ≤ u.nanosInMinute := h
    simp only [minutes, nanosInMinute] at h
    omega
  rw [milliText_eq, milliText_eq]
  refine padded_append_le 2 (by decide) (by omega) (by omega) (hfields.imp_right ?_)
  rintro ⟨hh, hrest⟩
  refine ⟨hh, List.cons_le_cons ':' ?_⟩
  refine padded_append_le 2 (by decide) (by omega) (by omega) (hrest.imp_right ?_)
  rintro ⟨hm, hrest⟩
  refine ⟨hm, List.cons_le_cons ':' ?_⟩
  refine padded_append_le 2 (by decide) (by omega) (by omega) (hrest.imp_right ?_)
  rintro ⟨hs, hn⟩
  exact ⟨hs, milliTail_le hs hn⟩

/-- In the same second, the same fraction is written only in the same millisecond. -/
theorem milli_eq_of_milliTail_eq (h : t.milliTail = u.milliTail) :
    t.nano / 1000000 = u.nano / 1000000 := by
  have hnano := t.nano_lt
  have hnano' := u.nano_lt
  unfold milliTail at h
  -- The tail is empty exactly at a whole second, so a tail that is there never equals one that is
  -- not.
  by_cases ht : t.isWhole <;> by_cases hu : u.isWhole
  · rw [((isWhole_iff t).mp ht).1, ((isWhole_iff u).mp hu).1]
  · rw [if_pos ht, if_neg hu] at h
    exact absurd h (by simp)
  · rw [if_neg ht, if_pos hu] at h
    exact absurd h (by simp)
  · rw [if_neg ht, if_neg hu] at h
    have hfield := padded_append_inj 3 (n := t.nano / 1000000) (m := u.nano / 1000000) (x := [])
      (y := []) (by decide) (by omega) (by omega)
      (by rw [List.append_nil, List.append_nil, (List.cons.inj h).2])
    exact hfield.1

/-- A time is read from its text up to the millisecond. -/
theorem sameMilli_of_milliText_eq (h : t.milliText = u.milliText) : t.SameMilli u := by
  have hhour := t.hour_lt
  have hhour' := u.hour_lt
  have hminute := t.minute_lt
  have hminute' := u.minute_lt
  have hsecond := t.second_le
  have hsecond' := u.second_le
  rw [milliText_eq, milliText_eq] at h
  obtain ⟨hh, h⟩ := padded_append_inj 2 (by decide) (by omega) (by omega) h
  obtain ⟨hm, h⟩ := padded_append_inj 2 (by decide) (by omega) (by omega) (List.cons.inj h).2
  obtain ⟨hs, h⟩ := padded_append_inj 2 (by decide) (by omega) (by omega) (List.cons.inj h).2
  have hmilli := milli_eq_of_milliTail_eq h
  simp only [SameMilli, minutes, nanosInMinute]
  omega

end TimeOfDay

/-! ### Dates -/

namespace Date

variable {a b : Date} {x y : List Char}

/-- A year that is written with four digits and no sign. -/
def IsPlain (d : Date) : Prop := 0 ≤ d.year ∧ d.year ≤ 9999

/-- The fields of a date of four digits, in the order in which they count. -/
theorem text_append (ha : a.IsPlain) (x : List Char) : a.text ++ x =
    padded 4 a.year.natAbs ++ '-' :: (padded 2 a.month ++ '-' :: (padded 2 a.day ++ x)) := by
  obtain ⟨hmin, hmax⟩ := ha
  have hsign : ¬ a.year < 0 := by omega
  have hsign' : ¬ 9999 < a.year := by omega
  simp [text, yearText, hsign, hsign']

/-- Days are in the order of their texts, whatever follows them. -/
theorem text_append_le (ha : a.IsPlain) (hb : b.IsPlain)
    (h : a.dayNumber < b.dayNumber ∨ a.dayNumber = b.dayNumber ∧ x ≤ y) :
    a.text ++ x ≤ b.text ++ y := by
  rcases h with hlt | ⟨heq, hle⟩
  · obtain ⟨-, -, -, hmonth, -, hday⟩ := a.valid
    obtain ⟨-, -, -, hmonth', -, hday'⟩ := b.valid
    have hdays := Calendar.daysInMonth_le a.year a.month
    have hdays' := Calendar.daysInMonth_le b.year b.month
    rw [text_append ha, text_append hb]
    obtain ⟨hlow, hhigh⟩ := ha
    obtain ⟨hlow', hhigh'⟩ := hb
    -- Plain years are not negative, so comparing the digits compares the years.
    have hfields : a.year.natAbs < b.year.natAbs ∨ a.year.natAbs = b.year.natAbs ∧
        (a.month < b.month ∨ a.month = b.month ∧ a.day < b.day) := by
      have hbefore := dayNumber_lt_iff.mp hlt
      simp only [Before] at hbefore
      omega
    refine padded_append_le 4 (by decide) (by omega) (by omega) (hfields.imp_right ?_)
    rintro ⟨hy, hrest⟩
    refine ⟨hy, List.cons_le_cons '-' ?_⟩
    refine padded_append_le 2 (by decide) (by omega) (by omega) (hrest.imp_right ?_)
    rintro ⟨hm, hd⟩
    refine ⟨hm, List.cons_le_cons '-' ?_⟩
    exact padded_append_le 2 (by decide) (by omega) (by omega) (.inl hd)
  · obtain rfl := eq_of_dayNumber_eq heq
    exact append_le_append a.text hle

/-- A date is told apart, and so is what follows it. -/
theorem text_append_inj (h : a.text ++ x = b.text ++ y) : a = b ∧ x = y := by
  have hread := congrArg Calendar.date h
  rw [Calendar.date_text, Calendar.date_text] at hread
  exact Prod.mk.inj (Option.some.inj hread)

end Date

/-! ### Dates with a time -/

namespace DateTime

/-- No later. -/
instance : LE DateTime where
  le a b := a.minuteNumber < b.minuteNumber ∨
    a.minuteNumber = b.minuteNumber ∧ a.time.nanosInMinute ≤ b.time.nanosInMinute

/-- The same minute, and the same millisecond of it. -/
def SameMilli (a b : DateTime) : Prop :=
  a.minuteNumber = b.minuteNumber ∧
    a.time.nanosInMinute / 1000000 = b.time.nanosInMinute / 1000000

variable {a b : DateTime}

/-- A moment is later on a later day, or later on the same day. -/
theorem le_iff : a ≤ b ↔ a.date.dayNumber < b.date.dayNumber ∨
    a.date.dayNumber = b.date.dayNumber ∧ a.time ≤ b.time := by
  have ha := a.time.minutes_lt
  have hb := b.time.minutes_lt
  show (_ ∨ _) ↔ _ ∨ _ ∧ (_ ∨ _)
  simp only [minuteNumber]
  omega

/-- Later moments have later texts. -/
theorem milliText_le (ha : a.date.IsPlain) (hb : b.date.IsPlain) (h : a ≤ b) :
    a.milliText ≤ b.milliText := by
  refine Date.text_append_le ha hb ((le_iff.mp h).imp_right ?_)
  rintro ⟨hday, htime⟩
  exact ⟨hday, List.cons_le_cons ' ' (TimeOfDay.milliText_le htime)⟩

/-- A moment is read from its text up to the millisecond. -/
theorem sameMilli_of_milliText_eq (h : a.milliText = b.milliText) : a.SameMilli b := by
  obtain ⟨hdate, htime⟩ := Date.text_append_inj h
  obtain ⟨hminutes, hmilli⟩ := TimeOfDay.sameMilli_of_milliText_eq (List.cons.inj htime).2
  refine ⟨?_, hmilli⟩
  rw [minuteNumber, minuteNumber, hdate, hminutes]

/-- **Texts sort by time.** Of two moments with years of four digits, and of two times of day, the
    text of the one that is no later is no greater, and texts are the same only in the same
    millisecond. -/
theorem milliText_sorts :
    (∀ a b : DateTime, a.date.IsPlain → b.date.IsPlain →
      (a ≤ b → String.ofList a.milliText ≤ String.ofList b.milliText) ∧
      (String.ofList a.milliText = String.ofList b.milliText → a.SameMilli b)) ∧
    ∀ t u : TimeOfDay,
      (t ≤ u → String.ofList t.milliText ≤ String.ofList u.milliText) ∧
      (String.ofList t.milliText = String.ofList u.milliText → t.SameMilli u) := by
  refine ⟨fun a b ha hb => ⟨fun h => ?_, fun h => ?_⟩, fun t u => ⟨fun h => ?_, fun h => ?_⟩⟩
  · exact ofList_le_ofList (milliText_le ha hb h)
  · exact sameMilli_of_milliText_eq (String.ofList_injective h)
  · exact ofList_le_ofList (TimeOfDay.milliText_le h)
  · exact TimeOfDay.sameMilli_of_milliText_eq (String.ofList_injective h)

/-- A leap second at the end of a year, less than a millisecond after it began. -/
theorem milliText_sorts_leapSecond :
    let second (nano : Nat) (h : nano < 1000000000) : DateTime :=
      ⟨⟨2016, 12, 31, by decide⟩, ⟨23, 59, 60, nano, by decide, by decide, by decide, h⟩⟩
    let a := second 400 (by decide)
    let b := second 900 (by decide)
    let c : DateTime := ⟨⟨2017, 1, 1, by decide⟩,
      ⟨0, 0, 0, 0, by decide, by decide, by decide, by decide⟩⟩
    (a ≤ c ∧ String.ofList a.milliText ≤ String.ofList c.milliText) ∧
    (a.milliText = b.milliText ∧ a.SameMilli b) ∧
    (c.time ≤ a.time ∧ String.ofList c.time.milliText ≤ String.ofList a.time.milliText) ∧
    (a.time.milliText = b.time.milliText ∧ a.time.SameMilli b.time) := by
  intro second a b c
  obtain ⟨hmoments, htimes⟩ := milliText_sorts
  have hplain : a.date.IsPlain := ⟨by decide, by decide⟩
  have hplain' : c.date.IsPlain := ⟨by decide, by decide⟩
  have hle : a ≤ c := .inl (by decide)
  have hle' : c.time ≤ a.time := .inl (by decide)
  have htext : a.milliText = b.milliText := by decide
  have htext' : a.time.milliText = b.time.milliText := by decide
  exact ⟨⟨hle, (hmoments a c hplain hplain').1 hle⟩,
    ⟨htext, (hmoments a b hplain hplain).2 (congrArg _ htext)⟩,
    ⟨hle', (htimes c.time a.time).1 hle'⟩,
    ⟨htext', (htimes a.time b.time).2 (congrArg _ htext')⟩⟩

end DateTime

end WhereClause
