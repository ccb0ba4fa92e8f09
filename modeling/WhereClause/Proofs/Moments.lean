import WhereClause.Calendar.Reader
import WhereClause.Proofs.Numerals

namespace WhereClause

/-!
# Dates and times that are read back

Each reader of a part takes exactly the text that the part is written with, whatever follows, as
long as it does not go on with the last number. So dates and times are read back from their texts.

* `Calendar.date_text`, `Calendar.time_text`, `Calendar.offset_offsetText` — parts with more text
  after them;
* `TimeOfDay.parse?_text`, `DateTime.parse?_joined`, `OffsetDateTime.parse?_zuluText` — whole texts.
-/

/-- The offset that its text says, in minutes. -/
def OffsetDateTime.writtenMinutes (m : OffsetDateTime) : Int :=
  if m.offset < 0 then -m.roundedMinutes else m.roundedMinutes

namespace Calendar

open Text

/-! ### White space -/

/-- Where a text does not begin with white space, nothing is dropped. -/
theorem dropBlanks_cons {c : Char} (hc : isBlank c = false) (cs : List Char) :
    dropBlanks (c :: cs) = c :: cs := by
  simp [dropBlanks, hc]

/-- No digit is white space. -/
theorem isBlank_of_isDigit {c : Char} (h : c.isDigit) : isBlank c = false := by
  have hrange := toNat_of_isDigit h
  simp only [isBlank, Bool.or_eq_false_iff, Bool.and_eq_false_iff, decide_eq_false_iff_not,
    beq_eq_false_iff_ne]
  omega

/-- The digits of a number begin with a digit. -/
theorem exists_padded_eq (width n : Nat) : ∃ c cs, padded width n = c :: cs ∧ c.isDigit := by
  cases hpadded : padded width n with
  | nil => exact absurd hpadded (padded_ne_nil width n)
  | cons c cs =>
    have hc : c ∈ padded width n := by simp [hpadded]
    exact ⟨c, cs, rfl, isDigit_of_mem_padded hc⟩

/-- No white space is in front of a number. -/
theorem dropBlanks_padded (width n : Nat) (rest : List Char) :
    dropBlanks (padded width n ++ rest) = padded width n ++ rest := by
  obtain ⟨c, cs, hpadded, hc⟩ := exists_padded_eq width n
  rw [hpadded]
  exact dropBlanks_cons (isBlank_of_isDigit hc) _

/-! ### Numbers -/

/-- A number is read from as many digits as it is written with. -/
theorem number_padded (width : Nat) {n : Nat} (hwidth : 0 < width) (hn : n < 10 ^ width)
    (rest : List Char) : number width (padded width n ++ rest) = some (n, rest) := by
  -- The digits are as many as the reader asks for, so it stops there whatever follows.
  have hlength := length_padded hwidth hn
  have htake : takeDigits width (padded width n ++ rest) = ((padded width n).map valueOf, rest) :=
    takeDigits_append (fun _ => isDigit_of_mem_padded) (Nat.le_of_eq hlength) (.inl hlength)
  rw [number, dropBlanks_padded, htake]
  split
  · next hnil =>
    obtain ⟨c, cs, hpadded, -⟩ := exists_padded_eq width n
    simp [hpadded] at hnil
  · next hds =>
    obtain ⟨rfl, rfl⟩ := Prod.mk.inj hds
    rw [ofDigits_padded]

/-- A separator is read where it stands. -/
theorem separator_cons {c : Char} (hc : isBlank c = false) (rest : List Char) :
    separator c (c :: rest) = some rest := by
  rw [separator, dropBlanks_cons hc]
  simp

/-- The digits of a year with a sign go on to the separator. -/
theorem signed_padded (width n : Nat) {rest : List Char} (hrest : NoDigit rest) :
    year.signed (padded width n ++ rest) = some (n, rest) := by
  rw [year.signed, spanDigits_append (fun _ => isDigit_of_mem_padded) hrest]
  split
  · next hnil =>
    obtain ⟨c, cs, hpadded, -⟩ := exists_padded_eq width n
    simp [hpadded] at hnil
  · next hds =>
    obtain ⟨rfl, rfl⟩ := Prod.mk.inj hds
    rw [ofDigits_padded]

/-- A year is read from its text. Only one with a sign may have more than four digits. -/
theorem year_yearText (y : Int) {rest : List Char} (hrest : NoDigit rest) :
    year (Date.yearText y ++ rest) = some (y, rest) := by
  simp only [Date.yearText]
  split
  · next hy =>
    have hyear : -(y.natAbs : Int) = y := by omega
    rw [List.singleton_append, List.cons_append, year, dropBlanks_cons (by decide)]
    simp only [signed_padded _ _ hrest, Option.map_some, hyear]
  · next hy =>
    split
    · have hyear : (y.natAbs : Int) = y := by omega
      rw [List.singleton_append, List.cons_append, year, dropBlanks_cons (by decide)]
      simp only [signed_padded _ _ hrest, Option.map_some, hyear]
    · next hy' =>
      have hyear : (y.natAbs : Int) = y := by omega
      have hnumber := number_padded 4 (n := y.natAbs) (by decide) (by omega) rest
      -- Without a sign the year begins with a digit, so that the reader does not take it for one
      -- with a sign.
      obtain ⟨c, cs, hpadded, hc⟩ := exists_padded_eq 4 y.natAbs
      rw [List.nil_append, year, dropBlanks_padded]
      split
      · next r heq =>
        obtain rfl : c = '-' := by simpa [hpadded] using (List.cons.inj (hpadded ▸ heq)).1
        exact absurd hc (by decide)
      · next r heq =>
        obtain rfl : c = '+' := by simpa [hpadded] using (List.cons.inj (hpadded ▸ heq)).1
        exact absurd hc (by decide)
      · simp only [hnumber, Option.map_some, hyear]

/-! ### Dates and times -/

/-- A month has at most 31 days, so two digits are enough. -/
theorem daysInMonth_le (y : Int) (month : Nat) : Date.daysInMonth y month ≤ 31 := by
  unfold Date.daysInMonth
  split
  case h_12 => split <;> decide
  all_goals decide

/-- A date is read from its text. -/
theorem date_text (d : Date) (rest : List Char) : date (d.text ++ rest) = some (d, rest) := by
  obtain ⟨hmin, hmax, hmonth, hmonth', hday, hday'⟩ := d.valid
  have hdays := daysInMonth_le d.year d.month
  have hmonth : d.month < 10 ^ 2 := by omega
  have hday : d.day < 10 ^ 2 := by omega
  simp only [date, Date.text, List.append_assoc, List.cons_append,
    year_yearText d.year (noDigit_cons (c := '-') rfl _), Option.bind_eq_bind, Option.bind_some,
    separator_cons (c := '-') rfl, number_padded 2 (by decide) hmonth,
    number_padded 2 (by decide) hday]
  simp [Date.make?, d.valid]

/-- What may follow a time: neither a digit nor a point, which would go on with the seconds. -/
structure EndsTime (rest : List Char) : Prop where
  noDigit : NoDigit rest
  noPoint : rest.head? ≠ some '.'

theorem endsTime_nil : EndsTime [] := ⟨noDigit_nil, by simp⟩

theorem endsTime_cons {c : Char} (hc : c.isDigit = false) (hpoint : c ≠ '.') (rest : List Char) :
    EndsTime (c :: rest) :=
  ⟨noDigit_cons hc rest, by simpa using hpoint⟩

/-- Places after the point count from the left. -/
theorem fraction_padded {width n : Nat} (hwidth : 0 < width) (hwidth' : width ≤ 9)
    (hn : n < 10 ^ width) {rest : List Char} (hrest : NoDigit rest) :
    fraction ('.' :: padded width n ++ rest) = some (n * 10 ^ (9 - width), rest) := by
  have hlength := length_padded hwidth hn
  have htake : takeDigits 9 (padded width n ++ rest) = ((padded width n).map valueOf, rest) :=
    takeDigits_append (fun _ => isDigit_of_mem_padded) (by omega) (.inr hrest)
  have hspan : spanDigits rest = ([], rest) := spanDigits_append (List.forall_mem_nil _) hrest
  simp only [List.cons_append, fraction, htake]
  split
  · next hnil =>
    obtain ⟨c, cs, hpadded, -⟩ := exists_padded_eq width n
    simp [hpadded] at hnil
  · next hds =>
    obtain ⟨rfl, rfl⟩ := Prod.mk.inj hds
    simp [ofDigits_padded, hspan, hlength]

/-- Without a point there is no fraction. -/
theorem fraction_of_endsTime {rest : List Char} (hrest : EndsTime rest) :
    fraction rest = some (0, rest) := by
  unfold fraction
  split
  · exact absurd rfl hrest.noPoint
  · rfl

/-- A fraction of a second is read from its text. -/
theorem fraction_fraction (t : TimeOfDay) {rest : List Char} (hrest : EndsTime rest) :
    fraction (t.fraction ++ rest) = some (t.nano, rest) := by
  have hnano := t.nano_lt
  unfold TimeOfDay.fraction
  split
  · next hzero =>
    rw [List.nil_append, hzero, fraction_of_endsTime hrest]
  · split
    · rw [fraction_padded (by decide) (by decide) (by omega) hrest.noDigit]
      congr 2
      omega
    · split
      · rw [fraction_padded (by decide) (by decide) (by omega) hrest.noDigit]
        congr 2
        omega
      · rw [fraction_padded (by decide) (by decide) (by omega) hrest.noDigit]
        simp

/-- Hours and minutes are read with the colon between them. -/
theorem hourMinute_padded {h m : Nat} (hh : h < 24) (hm : m < 60) (rest : List Char) :
    hourMinute (padded 2 h ++ ':' :: padded 2 m ++ rest) = some ((h, m), rest) := by
  simp only [hourMinute, List.append_assoc, List.cons_append, Option.bind_eq_bind,
    Option.bind_some, separator_cons (c := ':') rfl,
    number_padded 2 (n := h) (by decide) (by omega),
    number_padded 2 (n := m) (by decide) (by omega)]

/-- Seconds are read with whatever their fraction is read as. -/
theorem seconds_padded {second n : Nat} {cs rest : List Char} (hsecond : second ≤ 60)
    (hfraction : fraction (cs ++ rest) = some (n, rest)) :
    seconds (':' :: padded 2 second ++ (cs ++ rest)) = some ((second, n), rest) := by
  simp only [seconds, List.cons_append, Option.bind_eq_bind, Option.bind_some,
    separator_cons (c := ':') rfl, number_padded 2 (n := second) (by decide) (by omega), hfraction]

/-- The fields of a time make that time. -/
theorem make?_eq (t : TimeOfDay) : TimeOfDay.make? t.hour t.minute t.second t.nano = some t := by
  simp [TimeOfDay.make?, t.hour_lt, t.minute_lt, t.second_le, t.nano_lt]

/-- A time is read from its clock text and a fraction. -/
theorem time_clock (t : TimeOfDay) {cs rest : List Char} {n : Nat} (hn : n < 1000000000)
    (hfraction : fraction (cs ++ rest) = some (n, rest)) :
    time (t.clock ++ cs ++ rest) = some ({ t with nano := n, nano_lt := hn }, rest) := by
  have htext : t.clock ++ cs ++ rest = padded 2 t.hour ++ ':' :: padded 2 t.minute ++
      (':' :: padded 2 t.second ++ (cs ++ rest)) := by
    simp [TimeOfDay.clock]
  have hmake := make?_eq { t with nano := n, nano_lt := hn }
  simp only [htext, time, hourMinute_padded t.hour_lt t.minute_lt,
    seconds_padded t.second_le hfraction, Option.bind_eq_bind, Option.bind_some, hmake]

/-- A time is read from its text. -/
theorem time_text (t : TimeOfDay) {rest : List Char} (hrest : EndsTime rest) :
    time (t.text ++ rest) = some (t, rest) :=
  time_clock t t.nano_lt (fraction_fraction t hrest)

/-! ### Offsets -/

/-- Two digits are read as the number below a hundred that they spell. -/
theorem twoDigits_padded {n : Nat} (hn : n < 100) (rest : List Char) :
    twoDigits (padded 2 n ++ rest) = some (n, rest) := by
  have hlength : (padded 2 n).length = 2 := length_padded (by decide) (by omega)
  have hvalue := ofDigits_padded 2 n
  have htake : takeDigits 2 (padded 2 n ++ rest) = ((padded 2 n).map valueOf, rest) :=
    takeDigits_append (fun _ => isDigit_of_mem_padded) (Nat.le_of_eq hlength) (.inl hlength)
  rw [twoDigits, htake]
  generalize padded 2 n = cs at hlength hvalue
  -- Of all texts only those of two characters are left.
  rcases cs with _ | ⟨a, _ | ⟨b, _ | ⟨c, cs⟩⟩⟩ <;> simp at hlength
  simpa [ofDigits] using hvalue

/-- Hours and minutes of an offset are read from their digits. -/
theorem magnitude_padded {n : Nat} (hn : n < 6000) (rest : List Char) :
    offset.magnitude (padded 2 (n / 60) ++ ':' :: padded 2 (n % 60) ++ rest) =
      some ((n : Int), rest) := by
  obtain ⟨c, cs, hpadded, hc⟩ := exists_padded_eq 2 (n % 60)
  have hcolon : c ≠ ':' := by
    rintro rfl
    exact absurd hc (by decide)
  have hdrop : (':' :: (padded 2 (n % 60) ++ rest)).dropWhile (fun c => c = ':' || isBlank c) =
      padded 2 (n % 60) ++ rest := by
    simp [hpadded, hcolon, isBlank_of_isDigit hc]
  have hminutes : n % 60 < 60 := Nat.mod_lt _ (by decide)
  have hsum : ((n / 60 : Nat) : Int) * 60 + ((n % 60 : Nat) : Int) = n := by omega
  simp only [offset.magnitude, List.append_assoc, List.cons_append,
    twoDigits_padded (n := n / 60) (by omega), Option.bind_eq_bind, Option.bind_some, hdrop,
    twoDigits_padded (n := n % 60) (by omega), hminutes, ↓reduceIte, hsum]

/-- An offset is read from its text, rounded to the minute. -/
theorem offset_offsetText (m : OffsetDateTime) (rest : List Char) :
    offset (m.offsetText ++ rest) = some (m.writtenMinutes, rest) := by
  have hoffset := m.offset_lt
  have hmagnitude := magnitude_padded (n := m.roundedMinutes)
    (by simp only [OffsetDateTime.roundedMinutes]; omega) rest
  simp only [OffsetDateTime.offsetText, OffsetDateTime.sign, OffsetDateTime.writtenMinutes]
  split
  · simp only [List.cons_append, offset, hmagnitude, Option.map_some]
  · simp only [List.cons_append, offset, hmagnitude]

/-- A reader that leaves nothing has read the whole text. -/
theorem complete_nil {α : Type} (a : α) : complete (some (a, [])) = some a := rfl

end Calendar

/-! ### Whole texts -/

open Calendar

/-- A time is read back from its text. -/
theorem TimeOfDay.parse?_text (t : TimeOfDay) : parse? (String.ofList t.text) = some t := by
  have htext : t.text = Text.padded 2 t.hour ++ ':' :: Text.padded 2 t.minute ++
      (':' :: Text.padded 2 t.second ++ (t.fraction ++ [])) := by
    simp [text, clock]
  simp only [parse?, String.toList_ofList, htext, hourMinute_padded t.hour_lt t.minute_lt,
    seconds_padded t.second_le (fraction_fraction t endsTime_nil), Option.bind_eq_bind,
    Option.bind_some, Option.getD_some, make?_eq, complete_nil]

/-- A date with a time is read back from its text. -/
theorem DateTime.parse?_joined (dt : DateTime) :
    parse? (String.ofList (dt.joined ['T'])) = some dt := by
  have htext : dt.joined ['T'] = dt.date.text ++ 'T' :: (dt.time.text ++ []) := by
    simp [joined]
  simp only [parse?, String.toList_ofList, htext, date_text, separator_cons (c := 'T') rfl,
    time_text dt.time endsTime_nil, Option.bind_eq_bind, Option.bind_some, complete_nil]

namespace OffsetDateTime

/-- The text after a local time: `Z` for universal time, and the offset otherwise. -/
def zoneText (m : OffsetDateTime) : List Char := if m.offset = 0 then ['Z'] else m.offsetText

/-- The zone is read as an offset in minutes, none for universal time. -/
theorem offset_zoneText (m : OffsetDateTime) :
    Calendar.offset m.zoneText = some (m.writtenMinutes, []) := by
  unfold zoneText
  split
  · next h => simp [writtenMinutes, roundedMinutes, h, Calendar.offset]
  · simpa using offset_offsetText m []

/-- An offset of whole minutes is not changed by rounding. -/
theorem writtenMinutes_eq {m : OffsetDateTime} (h : m.offset % 60 = 0) :
    m.writtenMinutes * 60 = m.offset := by
  simp only [writtenMinutes, roundedMinutes]
  split <;> omega

/-- The text of a zone begins with a letter or a sign. -/
theorem head_zoneText (m : OffsetDateTime) :
    ∃ c rest, m.zoneText = c :: rest ∧ c ∈ ['Z', '+', '-'] := by
  unfold zoneText offsetText sign
  split
  · exact ⟨'Z', [], rfl, by decide⟩
  · split
    · exact ⟨'-', _, rfl, by decide⟩
    · exact ⟨'+', _, rfl, by decide⟩

/-- A moment is read back if its offset is a number of whole minutes. -/
theorem parse?_zuluText {m : OffsetDateTime} (hm : m.offset % 60 = 0) :
    parse? (String.ofList m.zuluText) = some m := by
  have htext :
      m.zuluText = m.localTime.date.text ++ 'T' :: (m.localTime.time.text ++ m.zoneText) := by
    simp [zuluText, zoneText, DateTime.joined]
  -- What begins the zone ends the time.
  obtain ⟨c, rest, hzone, hc⟩ := m.head_zoneText
  have hplain : c.isDigit = false ∧ c ≠ '.' ∧ Text.isBlank c = false := by
    simp only [List.mem_cons, List.not_mem_nil, or_false] at hc
    rcases hc with rfl | rfl | rfl <;> decide
  have htime := time_text m.localTime.time (hzone ▸ endsTime_cons hplain.1 hplain.2.1 rest)
  have hdrop : Text.dropBlanks m.zoneText = m.zoneText := by
    rw [hzone, dropBlanks_cons hplain.2.2]
  simp only [parse?, String.toList_ofList, htext, date_text, htime, hdrop, offset_zoneText,
    writtenMinutes_eq hm, Option.bind_eq_bind, Option.bind_some, complete_nil]
  simp [make?, m.offset_lt, m.utc_isSome]

end OffsetDateTime

end WhereClause
