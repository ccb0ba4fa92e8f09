import WhereClause.Calendar.Moment

namespace WhereClause

/-!
# Days and minutes as numbers

The number of a day grows by one from each day to the next, over the ends of months and years and
the leap day, so days are in the order of their fields. With the minutes of the day it makes the
number of a minute, and with the seconds that of a second, which a shift in seconds is added to.

* `Date.dayNumber_lt_iff` — the order of days;
* `Date.dayNumber_next?`, `Date.dayNumber_prev?` — the days beside a day;
* `DateTime.minuteNumber`, `TimeOfDay.nanosInMinute` — a moment as two numbers;
* `DateTime.secondNumber_addSeconds?` — what a shift does to them.
-/

namespace Date

/-! ### Years and months -/

/-- Number of days of a year. -/
def daysInYear (year : Int) : Nat := if isLeap year then 366 else 365

/-- The days of a year, with the leap day if it has one, lie between the days before it and those
    before the next. -/
theorem daysBeforeYear_succ (year : Int) :
    daysBeforeYear (year + 1) = daysBeforeYear year + daysInYear year := by
  simp only [daysBeforeYear, daysInYear, isLeap, Bool.and_eq_true, Bool.or_eq_true,
    decide_eq_true_eq]
  -- Both sides count the years by four, by a hundred and by four hundred.
  split <;> omega

/-- Later years have more days before them. -/
theorem daysBeforeYear_le {year year' : Int} (h : year ≤ year') :
    daysBeforeYear year ≤ daysBeforeYear year' := by
  simp only [daysBeforeYear]
  omega

/-- The days of a month lie between the days before it and those before the next. -/
theorem daysBeforeMonth_succ (year : Int) (month : Nat) (h : 1 ≤ month) :
    daysBeforeMonth year (month + 1) = daysBeforeMonth year month + daysInMonth year month := by
  have hlength : 1 ≤ (List.range month).length := by simpa using h
  rw [daysBeforeMonth, List.range_succ, List.drop_append_of_le_length hlength, List.foldl_append]
  rfl

/-- Later months of a year have more days before them. -/
theorem daysBeforeMonth_le (year : Int) {month month' : Nat} (h : 1 ≤ month)
    (hle : month ≤ month') : daysBeforeMonth year month ≤ daysBeforeMonth year month' := by
  induction hle with
  | refl => exact Nat.le_refl _
  | step hle ih =>
    rw [daysBeforeMonth_succ year _ (Nat.le_trans h hle)]
    exact Nat.le_trans ih (Nat.le_add_right _ _)

/-- A year is the months before the thirteenth. -/
theorem daysBeforeMonth_thirteen (year : Int) : daysBeforeMonth year 13 = daysInYear year := by
  cases hleap : isLeap year <;>
    simp [daysBeforeMonth, daysInYear, daysInMonth, hleap, List.range_succ]

/-! ### Days -/

/-- The month of a day ends no earlier than the day. -/
theorem dayNumber_lt_month (d : Date) :
    d.dayNumber < daysBeforeYear d.year + daysBeforeMonth d.year (d.month + 1) := by
  obtain ⟨-, -, hmonth, -, -, hday⟩ := d.valid
  have hsucc := daysBeforeMonth_succ d.year d.month hmonth
  simp only [dayNumber]
  omega

/-- A day is over before the next year begins. -/
theorem dayNumber_lt_year (d : Date) : d.dayNumber < daysBeforeYear (d.year + 1) := by
  obtain ⟨-, -, -, hmonth, -, -⟩ := d.valid
  have hlt := d.dayNumber_lt_month
  have hle := daysBeforeMonth_le d.year (Nat.le_add_left 1 d.month) (Nat.succ_le_succ hmonth)
  rw [daysBeforeMonth_thirteen] at hle
  rw [daysBeforeYear_succ]
  omega

/-- The fields of a day are before those of another: the year, or the month in the same year, or the
    day in the same month. -/
def Before (a b : Date) : Prop :=
  a.year < b.year ∨ a.year = b.year ∧ (a.month < b.month ∨ a.month = b.month ∧ a.day < b.day)

/-- Of two days one is before the other, or they are the same. -/
theorem before_or_eq_or_before (a b : Date) : a.Before b ∨ a = b ∨ b.Before a := by
  have hfields : a.Before b ∨ (a.year = b.year ∧ a.month = b.month ∧ a.day = b.day) ∨
      b.Before a := by
    simp only [Before]
    omega
  refine hfields.imp_right (Or.imp_left fun heq => ?_)
  cases a
  cases b
  simpa using heq

/-- A day before another has the smaller number. -/
theorem Before.dayNumber_lt {a b : Date} (h : a.Before b) : a.dayNumber < b.dayNumber := by
  obtain ⟨-, -, -, -, hday, -⟩ := b.valid
  rcases h with hyear | ⟨hyear, hmonth | ⟨hmonth, hday'⟩⟩
  -- The other day is in a later year, or in a later month of the year, or later in the month.
  · have hlt := a.dayNumber_lt_year
    have hle := daysBeforeYear_le (show a.year + 1 ≤ b.year from hyear)
    simp only [dayNumber] at hlt ⊢
    omega
  · have hlt := a.dayNumber_lt_month
    have hle := daysBeforeMonth_le a.year (Nat.le_add_left 1 a.month) hmonth
    rw [hyear] at hlt hle
    simp only [dayNumber] at hlt ⊢
    omega
  · simp only [dayNumber, hyear, hmonth]
    omega

/-- **The order of days.** Days are numbered in the order of their fields. -/
theorem dayNumber_lt_iff {a b : Date} : a.dayNumber < b.dayNumber ↔ a.Before b := by
  refine ⟨fun h => ?_, Before.dayNumber_lt⟩
  rcases before_or_eq_or_before a b with hbefore | rfl | hafter
  · exact hbefore
  · exact absurd h (Int.lt_irrefl _)
  · exact absurd h (Int.lt_asymm hafter.dayNumber_lt)

/-- Different days have different numbers. -/
theorem eq_of_dayNumber_eq {a b : Date} (h : a.dayNumber = b.dayNumber) : a = b := by
  rcases before_or_eq_or_before a b with hbefore | heq | hafter
  · exact absurd h (Int.ne_of_lt hbefore.dayNumber_lt)
  · exact heq
  · exact absurd h.symm (Int.ne_of_lt hafter.dayNumber_lt)

/-- A day that can be made has the given fields. -/
theorem eq_of_make? {year : Int} {month day : Nat} {d : Date} (h : make? year month day = some d) :
    d.year = year ∧ d.month = month ∧ d.day = day := by
  unfold make? at h
  split at h
  · obtain rfl := Option.some.inj h
    exact ⟨rfl, rfl, rfl⟩
  · exact absurd h (by simp)

/-- The next day has the next number, over the end of a month and of a year. -/
theorem dayNumber_next? {d next : Date} (h : d.next? = some next) :
    next.dayNumber = d.dayNumber + 1 := by
  obtain ⟨-, -, hmonth, hmonth', -, hday⟩ := d.valid
  unfold next? at h
  split at h
  · obtain ⟨hy, hm, hd⟩ := eq_of_make? h
    simp only [dayNumber, hy, hm, hd]
    omega
  · have hlast : d.day = daysInMonth d.year d.month := by omega
    have hsucc := daysBeforeMonth_succ d.year d.month hmonth
    split at h
    · obtain ⟨hy, hm, hd⟩ := eq_of_make? h
      simp only [dayNumber, hy, hm, hd]
      omega
    · -- The last day of the year.
      obtain ⟨hy, hm, hd⟩ := eq_of_make? h
      have hdecember : d.month = 12 := by omega
      rw [hdecember, daysBeforeMonth_thirteen, ← hdecember] at hsucc
      have hfirst : daysBeforeMonth (d.year + 1) 1 = 0 := rfl
      simp only [dayNumber, hy, hm, hd, hfirst, daysBeforeYear_succ]
      omega

/-- The day before has the number before, over the start of a month and of a year. -/
theorem dayNumber_prev? {d prev : Date} (h : d.prev? = some prev) :
    prev.dayNumber = d.dayNumber - 1 := by
  obtain ⟨-, -, hmonth, -, hday, -⟩ := d.valid
  unfold prev? at h
  split at h
  · obtain ⟨hy, hm, hd⟩ := eq_of_make? h
    simp only [dayNumber, hy, hm, hd]
    omega
  · have hfirst : d.day = 1 := by omega
    split at h
    · obtain ⟨hy, hm, hd⟩ := eq_of_make? h
      have hsucc := daysBeforeMonth_succ d.year (d.month - 1) (by omega)
      rw [Nat.sub_add_cancel hmonth] at hsucc
      simp only [dayNumber, hy, hm, hd]
      omega
    · -- The first day of the year.
      obtain ⟨hy, hm, hd⟩ := eq_of_make? h
      have hjanuary : d.month = 1 := by omega
      have hyear := daysBeforeYear_succ (d.year - 1)
      have hsucc := daysBeforeMonth_succ (d.year - 1) 12 (by decide)
      rw [Int.sub_add_cancel] at hyear
      rw [daysBeforeMonth_thirteen] at hsucc
      have hdecember : daysInMonth (d.year - 1) 12 = 31 := rfl
      have hnone : daysBeforeMonth d.year 1 = 0 := rfl
      simp only [dayNumber, hy, hm, hd, hjanuary, hnone]
      omega

end Date

/-! ### Minutes -/

namespace TimeOfDay

/-- Minutes from midnight. -/
def minutes (t : TimeOfDay) : Nat := t.hour * 60 + t.minute

/-- Nanoseconds from the start of the minute, which a leap second makes longer. -/
def nanosInMinute (t : TimeOfDay) : Nat := t.second * 1000000000 + t.nano

/-- A time is whole if it has no fraction and is no leap second. -/
theorem isWhole_iff (t : TimeOfDay) : t.isWhole ↔ t.nano = 0 ∧ t.second ≠ 60 := by
  simp [isWhole]

/-- A day has 1440 minutes. -/
theorem minutes_lt (t : TimeOfDay) : t.minutes < 1440 := by
  have hhour := t.hour_lt
  have hminute := t.minute_lt
  simp only [minutes]
  omega

theorem eq_of_make? {hour minute second nano : Nat} {t : TimeOfDay}
    (h : make? hour minute second nano = some t) :
    t.minutes = hour * 60 + minute ∧ t.second = second ∧ t.nano = nano := by
  unfold make? at h
  split at h
  · obtain rfl := Option.some.inj h
    exact ⟨rfl, rfl, rfl⟩
  · exact absurd h (by simp)

end TimeOfDay

namespace DateTime

/-- Minutes from the first midnight of year zero. -/
def minuteNumber (dt : DateTime) : Int := dt.date.dayNumber * 1440 + dt.time.minutes

/-- Seconds from the first midnight of year zero. A leap second counts as the second after it. -/
def secondNumber (dt : DateTime) : Int := dt.minuteNumber * 60 + dt.time.second

/-- **Shifts.** A shift by less than a day adds its seconds, and does not touch what is below the
    second. -/
theorem secondNumber_addSeconds? {dt dt' : DateTime} {k : Int} (hk : k.natAbs < 86400)
    (h : dt.addSeconds? k = some dt') :
    dt'.secondNumber = dt.secondNumber + k ∧ dt'.time.nano = dt.time.nano := by
  have hminutes := dt.time.minutes_lt
  have hsecond := dt.time.second_le
  simp only [addSeconds?] at h
  split at h
  · exact absurd h (by simp)
  · next hleap =>
    split at h
    · next day time hday htime =>
      obtain rfl := Option.some.inj h
      obtain ⟨htotal, hsecond', hnano⟩ := TimeOfDay.eq_of_make? htime
      refine ⟨?_, hnano⟩
      -- The sum of the seconds lies in the day before, in the day itself or in the next one, since
      -- the shift is shorter than a day.
      simp only [secondNumber, minuteNumber, htotal, hsecond']
      simp only [TimeOfDay.minutes] at hminutes ⊢
      split at hday
      · have := Date.dayNumber_prev? hday
        omega
      · split at hday
        · obtain rfl := Option.some.inj hday
          omega
        · have := Date.dayNumber_next? hday
          omega
    · exact absurd h (by simp)

end DateTime

end WhereClause
