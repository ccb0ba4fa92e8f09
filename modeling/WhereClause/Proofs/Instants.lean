import WhereClause.Proofs.DayCount
import WhereClause.Proofs.Moments

namespace WhereClause

/-!
# Literals of one moment

A moment with an offset is written as local time and offset in some dialects and as universal time
in others, with more or with fewer digits below the second. The offset is rounded to the minute
where it is written. If it is a number of whole minutes, all these literals say the same moment, cut
after the last digit that is written; if it is not, those with an offset say another moment than
those in universal time.

* `DateTime.instant`, `OffsetDateTime.instant` — moments as numbers of nanoseconds;
* `OffsetDateTime.instant_utc` — universal time is the same moment;
* `OffsetDateTime.writtenInstant` — the moment with its offset as it is written;
* `MomentFormat`, `MomentFormat.read?` — how a moment is written, and which one a text says;
* `Dialect.read?_literal` — the moment that a literal says;
* `Dialect.literal_seconds_lost` — a moment that some dialects shift.
-/

/-! ### Moments as numbers -/

/-- Nanoseconds from the first midnight of year zero. A leap second counts as the second after
    it. -/
def DateTime.instant (dt : DateTime) : Int :=
  dt.minuteNumber * 60000000000 + dt.time.nanosInMinute

/-- A moment is its seconds and what is below them. -/
theorem DateTime.instant_eq (dt : DateTime) :
    dt.instant = dt.time.nano + dt.secondNumber * 1000000000 := by
  simp only [instant, secondNumber, TimeOfDay.nanosInMinute]
  omega

namespace OffsetDateTime

/-- The moment in universal time. -/
def instant (m : OffsetDateTime) : Int := m.localTime.instant - m.offset * 1000000000

/-- The moment with its offset as it is written, in whole minutes. -/
def writtenInstant (m : OffsetDateTime) : Int :=
  m.localTime.instant - m.writtenMinutes * 60000000000

/-- **Universal time.** The shift by the offset carries over minutes, hours, days, months and years,
    and leads to the same moment. -/
theorem instant_utc (m : OffsetDateTime) : m.utc.instant = m.instant := by
  have hoffset := m.offset_lt
  have hutc : m.localTime.addSeconds? (-m.offset) = some m.utc := (Option.some_get _).symm
  obtain ⟨hseconds, hnano⟩ := DateTime.secondNumber_addSeconds? (by omega) hutc
  rw [instant, DateTime.instant_eq, DateTime.instant_eq, hseconds, hnano]
  omega

/-- Nothing is lost of an offset of whole minutes. -/
theorem writtenInstant_eq {m : OffsetDateTime} (h : m.offset % 60 = 0) :
    m.writtenInstant = m.instant := by
  have hwritten := writtenMinutes_eq h
  simp only [writtenInstant, instant]
  omega

end OffsetDateTime

/-- The time with less than the unit, in nanoseconds, left out. -/
def TimeOfDay.cut (t : TimeOfDay) (unit : Nat) : TimeOfDay :=
  { t with
    nano := t.nano / unit * unit
    nano_lt := Nat.lt_of_le_of_lt (Nat.div_mul_le_self _ _) t.nano_lt }

/-- Cut to the nanosecond, a time is the same. -/
theorem TimeOfDay.cut_one (t : TimeOfDay) : t.cut 1 = t := by
  simp [cut]

/-- A second is a whole number of units, so whole seconds stay when the rest is cut. -/
theorem cut_add_seconds {unit : Nat} (h : unit ∣ 1000000000) (x q : Int) :
    (x + q * 1000000000) / unit * unit = x / unit * unit + q * 1000000000 := by
  obtain ⟨k, hk⟩ := h
  have hunit : (unit : Int) ≠ 0 := by
    intro hzero
    obtain rfl : unit = 0 := Int.natCast_eq_zero.mp hzero
    omega
  have hseconds : q * 1000000000 = q * k * unit := by
    have hk' : (1000000000 : Int) = unit * k := by
      rw [← Int.natCast_mul, ← hk]
      rfl
    rw [hk', Int.mul_assoc, Int.mul_comm (unit : Int)]
  rw [hseconds, Int.add_mul_ediv_right _ _ hunit, Int.add_mul]

/-- A moment is cut in its time. -/
theorem DateTime.instant_cut (dt : DateTime) {unit : Nat} (h : unit ∣ 1000000000) :
    DateTime.instant ⟨dt.date, dt.time.cut unit⟩ = dt.instant / unit * unit := by
  have hcut := cut_add_seconds h dt.time.nano dt.secondNumber
  have hinstant : DateTime.instant ⟨dt.date, dt.time.cut unit⟩ =
      (dt.time.nano / unit * unit : Nat) + dt.secondNumber * 1000000000 := instant_eq _
  rw [dt.instant_eq, hcut, hinstant, Int.natCast_mul, Int.natCast_ediv]

/-! ### Texts of times -/

namespace Calendar

open Text

variable {rest : List Char}

/-- The clock text is cut to the second. -/
theorem time_clockText (t : TimeOfDay) (hrest : EndsTime rest) :
    time (t.clock ++ rest) = some (t.cut 1000000000, rest) := by
  have hnano := t.nano_lt
  have hnone : fraction ([] ++ rest) = some (0, rest) := fraction_of_endsTime hrest
  have hcut : t.nano / 1000000000 * 1000000000 = 0 := by omega
  simpa [TimeOfDay.cut, hcut] using time_clock t (by decide) hnone

/-- The text with milliseconds is cut to the millisecond. -/
theorem time_milliText (t : TimeOfDay) (hrest : EndsTime rest) :
    time (t.milliText ++ rest) = some (t.cut 1000000, rest) := by
  have hnano := t.nano_lt
  unfold TimeOfDay.milliText
  split
  · next hwhole =>
    have hzero : t.nano = 0 := (t.isWhole_iff.mp hwhole).1
    rw [time_clockText t hrest]
    simp [TimeOfDay.cut, hzero]
  · have hfraction : fraction ('.' :: padded 3 (t.nano / 1000000) ++ rest) =
        some (t.nano / 1000000 * 1000000, rest) :=
      fraction_padded (by decide) (by decide) (by omega) hrest.noDigit
    exact time_clock t _ hfraction

/-- The exact text is not cut. -/
theorem time_exactText (t : TimeOfDay) (hrest : EndsTime rest) :
    time (t.text ++ rest) = some (t.cut 1, rest) := by
  rw [time_text t hrest, t.cut_one]

end Calendar

/-! ### Formats of moments -/

/-- How a moment is written: what stands before it, between date and time, and after it, whether its
    offset is written, and how many nanoseconds the last digit stands for. -/
structure MomentFormat where
  opening : String
  between : Char
  zoned : Bool
  closing : String
  unit : Nat

namespace MomentFormat

/-- The offset; a moment without one is in universal time. -/
def zone? (f : MomentFormat) (cs : List Char) : Option (Int × List Char) :=
  if f.zoned then Calendar.offset (Text.dropBlanks cs) else some (0, cs)

/-- The moment that a text says, in nanoseconds: its date and time less its offset. -/
def read? (f : MomentFormat) (text : String) : Option Int := do
  let cs := text.toList
  let cs ← if f.opening.toList <+: cs then some (cs.drop f.opening.length) else none
  let (date, cs) ← Calendar.date cs
  let cs ← if cs.head? = some f.between then some cs.tail else none
  let (time, cs) ← Calendar.time cs
  let (offset, cs) ← f.zone? cs
  if cs = f.closing.toList then
    some (DateTime.instant ⟨date, time⟩ - offset * 60000000000)
  else none

/-- A text in the format is read as its parts are. -/
theorem read?_eq (f : MomentFormat) (dt : DateTime) {clock zone : List Char} {offset : Int}
    (hunit : f.unit ∣ 1000000000)
    (htime : ∀ {rest}, Calendar.EndsTime rest →
      Calendar.time (clock ++ rest) = some (dt.time.cut f.unit, rest))
    (hends : Calendar.EndsTime (zone ++ f.closing.toList))
    (hzone : f.zone? (zone ++ f.closing.toList) = some (offset, f.closing.toList)) :
    f.read? (f.opening ++ String.ofList (dt.date.text ++ f.between :: (clock ++ zone)) ++
        f.closing) =
      some ((dt.instant - offset * 60000000000) / f.unit * f.unit) := by
  have hopening : f.opening.toList.length = f.opening.length := String.length_toList
  -- An offset is a whole number of seconds, and these a whole number of units: cutting the clock
  -- and shifting it may change places.
  have hcut : DateTime.instant ⟨dt.date, dt.time.cut f.unit⟩ - offset * 60000000000 =
      (dt.instant - offset * 60000000000) / f.unit * f.unit := by
    have hshift := cut_add_seconds hunit dt.instant (-(offset * 60))
    rw [dt.instant_cut hunit, show dt.instant - offset * 60000000000 =
      dt.instant + -(offset * 60) * 1000000000 by omega, hshift]
    omega
  simp only [read?, String.toList_append, String.toList_ofList, List.append_assoc,
    List.prefix_append, ↓reduceIte, Option.bind_eq_bind, Option.bind_some, ← hopening,
    List.drop_left, Calendar.date_text, List.cons_append, List.head?_cons, List.tail_cons,
    htime hends, hzone, hcut]

variable {f : MomentFormat} {clock : List Char}

/-- Local time and offset say the moment with the offset that is written, with or without a blank
    between them. -/
theorem read?_zoned (hzoned : f.zoned) (hunit : f.unit ∣ 1000000000) (m : OffsetDateTime)
    {blank : List Char} (hblank : blank = [] ∨ blank = [' '])
    (htime : ∀ {rest}, Calendar.EndsTime rest →
      Calendar.time (clock ++ rest) = some (m.localTime.time.cut f.unit, rest)) :
    f.read? (f.opening ++ String.ofList (m.localTime.date.text ++ f.between ::
      (clock ++ (blank ++ m.offsetText))) ++ f.closing) =
      some (m.writtenInstant / f.unit * f.unit) := by
  -- The offset begins with its sign, at which the fraction of the second ends and the blanks end
  -- too.
  obtain ⟨c, cs, hc, htext⟩ : ∃ c cs, (c = '-' ∨ c = '+') ∧ m.offsetText = c :: cs := by
    refine ⟨_, _, ?_, rfl⟩
    unfold OffsetDateTime.sign
    split
    · exact .inl rfl
    · exact .inr rfl
  have hplain : c.isDigit = false ∧ c ≠ '.' ∧ Text.isBlank c = false := by
    rcases hc with rfl | rfl <;> decide
  have hdrop : Text.dropBlanks (blank ++ m.offsetText ++ f.closing.toList) =
      m.offsetText ++ f.closing.toList := by
    rw [htext]
    rcases hblank with rfl | rfl
    · exact Calendar.dropBlanks_cons hplain.2.2 _
    · exact Calendar.dropBlanks_cons hplain.2.2 _
  refine read?_eq f m.localTime hunit htime ?_ ?_
  · rw [htext]
    rcases hblank with rfl | rfl
    · exact Calendar.endsTime_cons hplain.1 hplain.2.1 _
    · exact Calendar.endsTime_cons rfl (by decide) _
  · rw [zone?, if_pos hzoned, hdrop, Calendar.offset_offsetText]

/-- Universal time says the moment without an offset. -/
theorem read?_universal (hzoned : f.zoned = false) (hunit : f.unit ∣ 1000000000)
    (hclosing : Calendar.EndsTime f.closing.toList) (m : OffsetDateTime)
    (htime : ∀ {rest}, Calendar.EndsTime rest →
      Calendar.time (clock ++ rest) = some (m.utc.time.cut f.unit, rest)) :
    f.read? (f.opening ++ String.ofList (m.utc.date.text ++ f.between :: clock) ++ f.closing) =
      some (m.instant / f.unit * f.unit) := by
  have hzone : f.zone? ([] ++ f.closing.toList) = some (0, f.closing.toList) := by
    simp [zone?, hzoned]
  have hread := read?_eq f m.utc hunit htime hclosing hzone
  rwa [List.append_nil, Int.zero_mul, Int.sub_zero, m.instant_utc] at hread

end MomentFormat

/-! ### Literals -/

/-- A text without quotes stands between two of them as it is. -/
theorem Generic.quoted_eq {cs : List Char} (h : '\'' ∉ cs) :
    Generic.quoted cs = "'" ++ String.ofList cs ++ "'" := by
  rw [Generic.quoted, quote_eq_of_not_mem h, String.ofList_append, String.ofList_cons]
  rfl

open Text

/-- A time of day is spelled with digits, colons and a point. -/
theorem TimeOfDay.spelledWith_text (t : TimeOfDay) : SpelledWith clockMarks t.text := by
  refine (t.spelledWith_clock (by decide)).append ?_
  unfold fraction
  split
  · exact spelledWith_nil
  · split
    · exact (spelledWith_padded _ _).cons (by decide)
    · split
      · exact (spelledWith_padded _ _).cons (by decide)
      · exact (spelledWith_padded _ _).cons (by decide)

namespace OffsetDateTime

/-- The parts of a moment to the millisecond. -/
theorem offsetText_eq (m : OffsetDateTime) : Generic.offsetText m =
    m.localTime.date.text ++ ' ' :: (m.localTime.time.milliText ++ ([' '] ++ m.offsetText)) := by
  simp [Generic.offsetText, DateTime.milliText]

/-- The parts of a moment to the second. -/
theorem clockOffset_eq (m : OffsetDateTime) : m.localTime.clockText ++ ' ' :: m.offsetText =
    m.localTime.date.text ++ ' ' :: (m.localTime.time.clock ++ ([' '] ++ m.offsetText)) := by
  simp [DateTime.clockText]

/-- The parts of a moment to the nanosecond, with no blank before the offset. -/
theorem internetText_eq (m : OffsetDateTime) : m.internetText =
    m.localTime.date.text ++ 'T' :: (m.localTime.time.text ++ ([] ++ m.offsetText)) := by
  simp [internetText, DateTime.joined]

/-- The internet form needs no quotes inside. -/
theorem quote_not_mem_internetText (m : OffsetDateTime) : '\'' ∉ m.internetText := by
  have hdate := m.localTime.date.spelledWith_text.not_mem (c := '\'') rfl (by decide)
  have htime := m.localTime.time.spelledWith_text.not_mem (c := '\'') rfl (by decide)
  have hoffset := m.spelledWith_offsetText.not_mem (c := '\'') rfl (by decide)
  simp [internetText, DateTime.joined, hdate, htime, hoffset]

end OffsetDateTime

/-- The moments of a dialect. -/
def Dialect.momentFormat : Dialect → MomentFormat
  | generic => ⟨"TIMESTAMP '", ' ', true, "'", 1000000⟩
  | sqlServer | sqlServerCe => ⟨"'", ' ', true, "'", 1000000⟩
  | oracle => ⟨"TO_TIMESTAMP_TZ('", ' ', true, "', 'yyyy-mm-dd hh24:mi:ss tzh:tzm')", 1000000000⟩
  | sqlite => ⟨"'", 'T', true, "'", 1⟩
  | mySql => ⟨"'", ' ', false, "'", 1000000⟩
  | access => ⟨"#", ' ', false, "#", 1000000000⟩

/-- Every dialect writes a decimal fraction of the second. -/
theorem Dialect.unit_dvd (d : Dialect) : d.momentFormat.unit ∣ 1000000000 := by
  cases d <;> decide

/-- **One moment in all dialects.** A moment with an offset has a literal in every dialect. What the
    literal says is the moment, cut to the second, millisecond or nanosecond that the dialect
    writes, provided that the offset is a number of whole minutes where the dialect writes it. -/
theorem Dialect.read?_literal (d : Dialect) (m : OffsetDateTime)
    (hwhole : d.momentFormat.zoned → m.offset % 60 = 0) :
    ∃ text, d.rules.literal (.dateTimeOffset m) = some text ∧
      d.momentFormat.read? text = some (m.instant / d.momentFormat.unit * d.momentFormat.unit) := by
  cases d with
  | generic =>
    refine ⟨"TIMESTAMP '" ++ String.ofList (Generic.offsetText m) ++ "'", rfl, ?_⟩
    rw [m.offsetText_eq, ← OffsetDateTime.writtenInstant_eq (hwhole rfl)]
    exact MomentFormat.read?_zoned (f := momentFormat .generic) rfl (unit_dvd _) m (.inr rfl)
      (Calendar.time_milliText _)
  | sqlServer | sqlServerCe =>
    refine ⟨"'" ++ String.ofList (Generic.offsetText m) ++ "'", rfl, ?_⟩
    rw [m.offsetText_eq, ← OffsetDateTime.writtenInstant_eq (hwhole rfl)]
    exact MomentFormat.read?_zoned (f := momentFormat .sqlServer) rfl (unit_dvd _) m (.inr rfl)
      (Calendar.time_milliText _)
  | oracle =>
    refine ⟨"TO_TIMESTAMP_TZ('" ++ String.ofList (m.localTime.clockText ++ ' ' :: m.offsetText) ++
      "', 'yyyy-mm-dd hh24:mi:ss tzh:tzm')", rfl, ?_⟩
    rw [m.clockOffset_eq, ← OffsetDateTime.writtenInstant_eq (hwhole rfl)]
    exact MomentFormat.read?_zoned (f := momentFormat .oracle) rfl (unit_dvd _) m (.inr rfl)
      (Calendar.time_clockText _)
  | sqlite =>
    refine ⟨_, congrArg some (Generic.quoted_eq m.quote_not_mem_internetText), ?_⟩
    rw [m.internetText_eq, ← OffsetDateTime.writtenInstant_eq (hwhole rfl)]
    exact MomentFormat.read?_zoned (f := momentFormat .sqlite) rfl (unit_dvd _) m (.inl rfl)
      (Calendar.time_exactText _)
  -- Universal time is written without an offset, so that nothing is rounded.
  | mySql =>
    have hquote := m.utc.spelledWith_milliText.not_mem (c := '\'') rfl (by decide)
    refine ⟨_, congrArg some (Generic.quoted_eq hquote), ?_⟩
    exact MomentFormat.read?_universal (f := momentFormat .mySql) rfl (unit_dvd _)
      (Calendar.endsTime_cons rfl (by decide) _) m (Calendar.time_milliText _)
  | access =>
    refine ⟨_, rfl, ?_⟩
    exact MomentFormat.read?_universal (f := momentFormat .access) rfl (unit_dvd _)
      (Calendar.endsTime_cons rfl (by decide) _) m (Calendar.time_clockText _)

/-- Half an hour into the year 2016, an hour east of universal time. -/
theorem Dialect.read?_literal_newYear :
    let m : OffsetDateTime :=
      ⟨⟨⟨2016, 1, 1, by decide⟩, ⟨0, 30, 0, 250000000, by decide, by decide, by decide, by decide⟩⟩,
        3600, by decide, by decide⟩
    m.offset % 60 = 0 ∧ m.instant = 63618823800250000000 ∧
      ∃ text, Dialect.generic.rules.literal (.dateTimeOffset m) = some text ∧
        Dialect.generic.momentFormat.read? text = some (m.instant / 1000000 * 1000000) := by
  intro m
  exact ⟨by decide, by decide, Dialect.read?_literal .generic m fun _ => by decide⟩

/-- Half a minute into the year 2020, half a minute east of universal time: the offset is written as
    a whole minute. So the literals of two dialects say moments that are half a minute apart. -/
theorem Dialect.literal_seconds_lost :
    let m : OffsetDateTime :=
      ⟨⟨⟨2020, 1, 1, by decide⟩, ⟨0, 0, 30, 0, by decide, by decide, by decide, by decide⟩⟩, 30,
        by decide, by decide⟩
    Dialect.generic.rules.literal (.dateTimeOffset m) =
        some "TIMESTAMP '2020-01-01 00:00:30 +00:01'" ∧
      Dialect.generic.momentFormat.read? "TIMESTAMP '2020-01-01 00:00:30 +00:01'" =
        some (m.instant - 30000000000) ∧
      some (m.instant - 30000000000) ≠ some (m.instant / 1000000 * 1000000) ∧
      Dialect.mySql.rules.literal (.dateTimeOffset m) = some "'2020-01-01 00:00:00'" ∧
      Dialect.mySql.momentFormat.read? "'2020-01-01 00:00:00'" = some m.instant := by
  decide +kernel

end WhereClause
