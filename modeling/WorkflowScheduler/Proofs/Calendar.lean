import WorkflowScheduler.Calendar.Instant

/-!
# The calendar

Days and dates correspond to each other one to one, in order, over all years, and so do seconds and
readings of the clock.

## Main definitions

* `Clock.IsValid`: a date that exists, and a time of day
* `Clock.seconds`: the whole seconds from 1970-01-01 00:00:00 to a reading
* `Clock.newYear`: the first reading of a year
* `Instant.IsInner`: an instant away from the ends of the calendar
* `Instant.HasSecondBefore`: an instant at which a search can begin

## Main results

* `Date.isValid_ofDayNumber`, `Date.dayNumber_ofDayNumber`: every day has a date
* `Date.ofDayNumber_dayNumber`: and every date is that of its day
* `Clock.instant_clock`: likewise for the clock
* `Clock.seconds_lt_of_year`, `Clock.seconds_lt_of_month`, `Clock.seconds_lt_of_day`: readings are
  in order by their years, months and days
-/

namespace WorkflowScheduler

namespace Date

/-! ## Years -/

theorem isLeapYear_iff (year : Int) :
    isLeapYear year = true ↔ year % 4 = 0 ∧ (year % 100 ≠ 0 ∨ year % 400 = 0) := by
  simp [isLeapYear]

/-- The number of days of a year. -/
def yearLength (year : Int) : Nat :=
  if isLeapYear year then 366 else 365

theorem yearStart_succ (year : Int) : yearStart (year + 1) = yearStart year + yearLength year := by
  have hleap := isLeapYear_iff year
  unfold yearStart yearLength
  -- a leap year is one in which the count of leap years goes up
  by_cases h : isLeapYear year = true
  · rw [if_pos h]
    have := hleap.mp h
    simp only
    omega
  · rw [if_neg h]
    have := mt hleap.mpr h
    simp only
    omega

theorem yearStart_mono {a b : Int} (h : a ≤ b) : yearStart a ≤ yearStart b := by
  unfold yearStart
  simp only
  omega

theorem yearStart_lt {a b : Int} (h : a < b) :
    yearStart a + yearLength a ≤ yearStart b := by
  rw [← yearStart_succ]
  exact yearStart_mono h

/-- The first day of a year, by the cycles of 400, 100 and 4 years before it. -/
theorem yearStart_cycles (q c l s : Int) (hc : 0 ≤ c ∧ c ≤ 3) (hl : 0 ≤ l ∧ l ≤ 24)
    (hs : 0 ≤ s ∧ s ≤ 3) :
    yearStart (400 * q + 100 * c + 4 * l + s + 1) =
      146097 * q + 36524 * c + 1461 * l + 365 * s - epochDay := by
  unfold yearStart
  have h4 : (400 * q + 100 * c + 4 * l + s) / 4 = 100 * q + 25 * c + l := by omega
  have h100 : (400 * q + 100 * c + 4 * l + s) / 100 = 4 * q + c := by omega
  have h400 : (400 * q + 100 * c + 4 * l + s) / 400 = q := by omega
  have hpast : 400 * q + 100 * c + 4 * l + s + 1 - 1 = 400 * q + 100 * c + 4 * l + s := by omega
  simp only [hpast, h4, h100, h400]
  omega

/-- The last year of a cycle of four is a leap year, unless it ends a century that does not end a
cycle of four centuries. -/
theorem yearLength_cycles (q c l s : Int) (hc : 0 ≤ c ∧ c ≤ 3) (hl : 0 ≤ l ∧ l ≤ 24)
    (hs : 0 ≤ s ∧ s ≤ 3) :
    yearLength (400 * q + 100 * c + 4 * l + s + 1) =
      if s = 3 ∧ (l ≠ 24 ∨ c = 3) then 366 else 365 := by
  have hleap : isLeapYear (400 * q + 100 * c + 4 * l + s + 1) = true ↔
      s = 3 ∧ (l ≠ 24 ∨ c = 3) := by
    rw [isLeapYear_iff]
    omega
  simp only [yearLength, hleap]

/-- **The year of a day** is the one in which it lies. -/
theorem yearOf_spec (n : Int) :
    yearStart (yearOf n) ≤ n ∧ n < yearStart (yearOf n) + yearLength (yearOf n) := by
  -- the cycles before the day, of which the last century and the last year may be longer
  obtain ⟨q, hq⟩ : ∃ q, q = (n + epochDay) / 146097 := ⟨_, rfl⟩
  obtain ⟨r, hr⟩ : ∃ r, r = (n + epochDay) % 146097 := ⟨_, rfl⟩
  obtain ⟨c, hc⟩ : ∃ c, c = min (r / 36524) 3 := ⟨_, rfl⟩
  obtain ⟨l, hl⟩ : ∃ l, l = (r - 36524 * c) / 1461 := ⟨_, rfl⟩
  obtain ⟨s, hs⟩ : ∃ s, s = min ((r - 36524 * c) % 1461 / 365) 3 := ⟨_, rfl⟩
  have hyear : yearOf n = 400 * q + 100 * c + 4 * l + s + 1 := by
    rw [hs, hl, hc, hr, hq]
    rfl
  have hc' : 0 ≤ c ∧ c ≤ 3 := by omega
  have hl' : 0 ≤ l ∧ l ≤ 24 := by omega
  have hs' : 0 ≤ s ∧ s ≤ 3 := by omega
  rw [hyear, yearStart_cycles q c l s hc' hl' hs', yearLength_cycles q c l s hc' hl' hs']
  unfold epochDay at *
  split
  · omega
  · omega

/-- A day lies in one year only. -/
theorem yearOf_eq {n year : Int} (hle : yearStart year ≤ n)
    (hlt : n < yearStart year + yearLength year) : yearOf n = year := by
  obtain ⟨hle', hlt'⟩ := yearOf_spec n
  rcases Int.lt_trichotomy (yearOf n) year with h | h | h
  · have := yearStart_lt h
    omega
  · exact h
  · have := yearStart_lt h
    omega

/-! ## Months -/

/-- The months from one on. -/
theorem months_eq : months = List.range' 1 12 := rfl

@[simp] theorem monthStart_one (year : Int) : monthStart year 1 = 0 := rfl

theorem monthStart_succ (year : Int) {m : Nat} (h1 : 1 ≤ m) (h12 : m ≤ 12) :
    monthStart year (m + 1) = monthStart year m + monthLength year m := by
  have hm : m = 1 ∨ m = 2 ∨ m = 3 ∨ m = 4 ∨ m = 5 ∨ m = 6 ∨ m = 7 ∨ m = 8 ∨ m = 9 ∨ m = 10 ∨
      m = 11 ∨ m = 12 := by omega
  rcases hm with rfl | rfl | rfl | rfl | rfl | rfl | rfl | rfl | rfl | rfl | rfl | rfl <;> rfl

/-- The months of a year fill it. -/
theorem monthStart_thirteen (year : Int) : monthStart year 13 = yearLength year := by
  unfold yearLength
  cases h : isLeapYear year <;> simp [monthStart, months, monthLength, h]

theorem monthStart_le (year : Int) {a b : Nat} (ha : 1 ≤ a) (hab : a ≤ b) (hb : b ≤ 13) :
    monthStart year a ≤ monthStart year b := by
  induction hab with
  | refl => exact Nat.le_refl _
  | @step m hab ih =>
    have hm : a ≤ m := hab
    rw [monthStart_succ year (by omega) (by omega)]
    have := ih (by omega)
    omega

theorem monthStart_lt (year : Int) {a b : Nat} (ha : 1 ≤ a) (hab : a < b) (hb : b ≤ 13) :
    monthStart year a + monthLength year a ≤ monthStart year b := by
  rw [← monthStart_succ year ha (by omega)]
  exact monthStart_le year (by omega) hab hb

/-- **The month of a day** of the year, out of the months from one on. -/
theorem monthAndDay_spec (year : Int) {k n : Nat} (rest : Nat) (hk : 1 ≤ k) (hn : k + n = 13)
    (hrest : monthStart year k + rest < monthStart year 13) :
    let md := monthAndDay year rest (List.range' k n)
    1 ≤ md.1 ∧ md.1 ≤ 12 ∧ 1 ≤ md.2 ∧ md.2 ≤ monthLength year md.1 ∧
      monthStart year md.1 + (md.2 - 1) = monthStart year k + rest := by
  -- on the months that are left, of which the first one may be the one
  induction n generalizing k rest with
  | zero =>
    obtain rfl : k = 13 := by omega
    omega
  | succ n ih =>
    have hsucc := monthStart_succ year hk (by omega)
    simp only [List.range'_succ, monthAndDay]
    by_cases h : rest < monthLength year k
    · rw [if_pos h]
      exact ⟨hk, by omega, by omega, h, rfl⟩
    · rw [if_neg h]
      have := ih (k := k + 1) (rest - monthLength year k) (by omega) (by omega) (by omega)
      simp only at this
      omega

/-! ## Dates -/

variable {a b d : Date}

theorem IsValid.dayOfYear_lt (h : d.IsValid) :
    monthStart d.year d.month + (d.day - 1) < yearLength d.year := by
  obtain ⟨hm, hm', hd, hd'⟩ := h
  have := monthStart_lt d.year hm (show d.month < 13 by omega) (by omega)
  rw [monthStart_thirteen] at this
  omega

theorem yearOf_dayNumber (h : d.IsValid) : yearOf d.dayNumber = d.year := by
  have hday := h.2.2.1
  have hlt := h.dayOfYear_lt
  apply yearOf_eq
  · unfold dayNumber
    omega
  · unfold dayNumber
    omega

/-- **Every day has a date that exists.** -/
theorem isValid_ofDayNumber (n : Int) : (ofDayNumber n).IsValid := by
  obtain ⟨hle, hlt⟩ := yearOf_spec n
  obtain ⟨hm, hm', hd, hd', -⟩ := monthAndDay_spec (yearOf n) (k := 1) (n := 12)
    (n - yearStart (yearOf n)).toNat (by omega) rfl
    (by rw [monthStart_one, monthStart_thirteen]; omega)
  exact ⟨hm, hm', hd, hd'⟩

/-- **The date of a day is on that day.** -/
theorem dayNumber_ofDayNumber (n : Int) : (ofDayNumber n).dayNumber = n := by
  obtain ⟨hle, hlt⟩ := yearOf_spec n
  obtain ⟨-, -, hd, -, hmd⟩ := monthAndDay_spec (yearOf n) (k := 1) (n := 12)
    (n - yearStart (yearOf n)).toNat (by omega) rfl
    (by rw [monthStart_one, monthStart_thirteen]; omega)
  rw [← months_eq, monthStart_one] at hmd
  rw [← months_eq] at hd
  simp only [dayNumber, ofDayNumber]
  omega

theorem dayNumber_lt_of_year (ha : a.IsValid) (hb : b.IsValid) (h : a.year < b.year) :
    a.dayNumber < b.dayNumber := by
  have := ha.dayOfYear_lt
  have := ha.2.2.1
  have := hb.2.2.1
  have := yearStart_lt h
  unfold dayNumber
  omega

theorem dayNumber_lt_of_month (ha : a.IsValid) (hb : b.IsValid) (hy : a.year = b.year)
    (h : a.month < b.month) : a.dayNumber < b.dayNumber := by
  obtain ⟨hm, -, hd, hd'⟩ := ha
  have := monthStart_lt a.year hm h (by have := hb.2.1; omega)
  have := hb.2.2.1
  unfold dayNumber
  rw [← hy]
  omega

theorem dayNumber_lt_of_day (hy : a.year = b.year) (hm : a.month = b.month) (h : a.day < b.day) :
    a.dayNumber < b.dayNumber := by
  unfold dayNumber
  rw [← hy, ← hm]
  omega

/-- Dates that exist differ if their days do. -/
theorem eq_of_dayNumber_eq (ha : a.IsValid) (hb : b.IsValid) (h : a.dayNumber = b.dayNumber) :
    a = b := by
  have hy : a.year = b.year := by rw [← yearOf_dayNumber ha, ← yearOf_dayNumber hb, h]
  have hm : a.month = b.month := by
    rcases Nat.lt_trichotomy a.month b.month with hm | hm | hm
    · have := dayNumber_lt_of_month ha hb hy hm
      omega
    · exact hm
    · have := dayNumber_lt_of_month hb ha hy.symm hm
      omega
  have hd : a.day = b.day := by
    rcases Nat.lt_trichotomy a.day b.day with hd | hd | hd
    · have := dayNumber_lt_of_day hy hm hd
      omega
    · exact hd
    · have := dayNumber_lt_of_day hy.symm hm.symm hd
      omega
  cases a
  cases b
  simp_all

/-- **A date that exists is the date of its day.** -/
theorem ofDayNumber_dayNumber (h : d.IsValid) : ofDayNumber d.dayNumber = d :=
  eq_of_dayNumber_eq (isValid_ofDayNumber _) h (dayNumber_ofDayNumber _)

end Date

/-! ## Readings of the clock -/

namespace Clock

/-- **A reading that occurs**: a date that exists, and a time of day. -/
structure IsValid (c : Clock) : Prop where
  date : c.date.IsValid
  hour : c.hour < 24
  minute : c.minute < 60
  second : c.second < 60

/-- The whole seconds from 1970-01-01 00:00:00 to a reading. -/
def seconds (c : Clock) : Int :=
  c.instant.seconds

theorem seconds_eq (c : Clock) :
    c.seconds = c.date.dayNumber * 86400 + (3600 * c.hour + 60 * c.minute + c.second : Nat) := rfl

variable {a b c : Clock}

theorem IsValid.seconds_bounds (h : c.IsValid) :
    c.date.dayNumber * 86400 ≤ c.seconds ∧ c.seconds < c.date.dayNumber * 86400 + 86400 := by
  obtain ⟨-, hh, hm, hs⟩ := h
  rw [seconds_eq]
  omega

theorem seconds_lt_of_dayNumber (ha : a.IsValid) (hb : b.IsValid)
    (h : a.date.dayNumber < b.date.dayNumber) : a.seconds < b.seconds := by
  have := ha.seconds_bounds
  have := hb.seconds_bounds
  omega

theorem seconds_lt_of_year (ha : a.IsValid) (hb : b.IsValid) (h : a.date.year < b.date.year) :
    a.seconds < b.seconds :=
  seconds_lt_of_dayNumber ha hb (Date.dayNumber_lt_of_year ha.date hb.date h)

theorem seconds_lt_of_month (ha : a.IsValid) (hb : b.IsValid) (hy : a.date.year = b.date.year)
    (h : a.date.month < b.date.month) : a.seconds < b.seconds :=
  seconds_lt_of_dayNumber ha hb (Date.dayNumber_lt_of_month ha.date hb.date hy h)

theorem seconds_lt_of_day (ha : a.IsValid) (hb : b.IsValid) (hy : a.date.year = b.date.year)
    (hm : a.date.month = b.date.month) (h : a.date.day < b.date.day) : a.seconds < b.seconds :=
  seconds_lt_of_dayNumber ha hb (Date.dayNumber_lt_of_day hy hm h)

/-- **The clock shows a reading that occurs at its instant.** -/
theorem instant_clock (h : c.IsValid) : c.instant.clock = c := by
  obtain ⟨hd, hh, hm, hs⟩ := h
  have hday : c.instant.seconds / 86400 = c.date.dayNumber := by
    change c.seconds / 86400 = _
    rw [seconds_eq]
    omega
  have htime : (c.instant.seconds % 86400).toNat = 3600 * c.hour + 60 * c.minute + c.second := by
    change (c.seconds % 86400).toNat = _
    rw [seconds_eq]
    omega
  unfold Instant.clock
  simp only [hday, htime, Date.ofDayNumber_dayNumber hd]
  have hhour : (3600 * c.hour + 60 * c.minute + c.second) / 3600 = c.hour := by omega
  have hminute : (3600 * c.hour + 60 * c.minute + c.second) / 60 % 60 = c.minute := by omega
  have hsecond : (3600 * c.hour + 60 * c.minute + c.second) % 60 = c.second := by omega
  rw [hhour, hminute, hsecond]

/-- **Readings that occur differ if their seconds do.** -/
theorem eq_of_seconds_eq (ha : a.IsValid) (hb : b.IsValid) (h : a.seconds = b.seconds) : a = b := by
  have hinstant : a.instant = b.instant :=
    congrArg (fun n => Instant.mk n 0) h
  rw [← instant_clock ha, ← instant_clock hb, hinstant]

/-- The first second of a year. -/
def newYear (year : Int) : Clock :=
  ⟨⟨year, 1, 1⟩, 0, 0, 0⟩

theorem isValid_newYear (year : Int) : (newYear year).IsValid := by
  refine ⟨⟨?_, ?_, ?_, ?_⟩, ?_, ?_, ?_⟩ <;> simp [newYear, Date.monthLength]

theorem newYear_seconds (year : Int) : (newYear year).seconds = Date.yearStart year * 86400 := by
  rw [seconds_eq]
  simp [newYear, Date.dayNumber]

theorem IsValid.newYear_le (h : c.IsValid) : (newYear c.date.year).seconds ≤ c.seconds := by
  have hday := h.date.2.2.1
  rw [newYear_seconds, seconds_eq]
  unfold Date.dayNumber
  omega

theorem IsValid.lt_newYear (h : c.IsValid) : c.seconds < (newYear (c.date.year + 1)).seconds :=
  seconds_lt_of_year h (isValid_newYear _) (by simp only [newYear]; omega)

end Clock

namespace Instant

/-- **What the clock shows occurs.** -/
theorem isValid_clock (t : Instant) : t.clock.IsValid where
  date := Date.isValid_ofDayNumber _
  hour := by
    simp only [clock]
    omega
  minute := by
    simp only [clock]
    omega
  second := by
    simp only [clock]
    omega

/-- **What the clock shows tells the second.** -/
theorem clock_seconds (t : Instant) : t.clock.seconds = t.seconds := by
  rw [Clock.seconds_eq]
  simp only [clock, Date.dayNumber_ofDayNumber]
  omega

/-- The clock does not show fractions of a second. -/
theorem clock_congr {t u : Instant} (h : t.seconds = u.seconds) : t.clock = u.clock := by
  unfold clock
  rw [h]

/-! ## The order of instants -/

variable {t u v : Instant}

theorem le_refl (t : Instant) : t ≤ t := by
  rw [le_iff]
  omega

theorem le_of_lt (h : t < u) : t ≤ u := by
  rw [lt_iff] at h
  rw [le_iff]
  omega

theorem lt_of_lt_of_le (htu : t < u) (huv : u ≤ v) : t < v := by
  rw [lt_iff] at *
  rw [le_iff] at huv
  omega

theorem lt_of_le_of_lt (htu : t ≤ u) (huv : u < v) : t < v := by
  rw [lt_iff] at *
  rw [le_iff] at htu
  omega

theorem le_trans (htu : t ≤ u) (huv : u ≤ v) : t ≤ v := by
  rw [le_iff] at *
  omega

theorem lt_of_not_le (h : ¬ t ≤ u) : u < t :=
  Decidable.of_not_not fun hlt => h (not_lt.mp hlt)

theorem eq_or_lt_of_le (h : t ≤ u) : t = u ∨ t < u := by
  rcases Decidable.em (t < u) with hlt | hlt
  · exact .inr hlt
  · rw [lt_iff] at hlt
    rw [le_iff] at h
    left
    cases t
    cases u
    simp only [Instant.mk.injEq] at *
    omega

theorem le_iff_of_whole (ht : t.nanos = 0) : t ≤ u ↔ t.seconds ≤ u.seconds := by
  rw [le_iff]
  omega

theorem nextSecond_seconds (t : Instant) : t.nextSecond.seconds = t.seconds + 1 := by
  unfold nextSecond
  split <;> rfl

/-- A whole second is after an instant if it is not before the second after it. -/
theorem lt_iff_nextSecond_le (hu : u.nanos = 0) : t < u ↔ t.nextSecond.seconds ≤ u.seconds := by
  rw [nextSecond_seconds, lt_iff]
  omega

theorem previousSecond_seconds (t : Instant) :
    t.previousSecond.seconds = if t.InLeapSecond then t.seconds else t.seconds - 1 := by
  unfold previousSecond
  split <;> rfl

theorem previousSecond_lt (t : Instant) : t.previousSecond < t := by
  rw [lt_iff]
  unfold previousSecond
  by_cases h : t.InLeapSecond
  · rw [if_pos h]
    unfold InLeapSecond at h
    exact .inr ⟨rfl, by simp only; omega⟩
  · rw [if_neg h]
    exact .inl (by simp only; omega)

/-- From 1970-01-01 00:00:00 on the year is 1970 or a later one. -/
theorem le_year_of_nonneg (h : 0 ≤ t.seconds) : 1970 ≤ t.clock.date.year := by
  apply Int.not_lt.mp
  intro hlt
  have hbefore := Clock.seconds_lt_of_year t.isValid_clock (Clock.isValid_newYear 1970) hlt
  rw [clock_seconds, Clock.newYear_seconds] at hbefore
  have h1970 : Date.yearStart 1970 = 0 := by decide
  omega

/-! ## Away from the ends of the calendar -/

/-- **An instant at least a second away from the ends of the calendar.** -/
def IsInner (t : Instant) : Prop :=
  firstSecond < t.seconds ∧ t.seconds < lastSecond

instance (t : Instant) : Decidable t.IsInner :=
  inferInstanceAs (Decidable (_ ∧ _))

theorem IsInner.nextSecond_inRange (h : t.IsInner) : t.nextSecond.InRange := by
  unfold InRange
  rw [nextSecond_seconds]
  unfold IsInner at h
  omega

/-- The last instant of the calendar. A leap second after it is outside, although `InRange`, which
looks at whole seconds, holds within it. -/
def last : Instant := ⟨lastSecond, 999999999⟩

/-- **An instant of the calendar with a second before it**, at which a search can begin. -/
def HasSecondBefore (t : Instant) : Prop :=
  t.previousSecond.InRange ∧ t ≤ last

/-- Up to the last instant, and no longer, the second after the one before is representable. -/
theorem hasSecondBefore_iff :
    t.HasSecondBefore ↔ t.previousSecond.InRange ∧ t.previousSecond.nextSecond.InRange := by
  refine and_congr_right fun h => ?_
  unfold InRange at *
  rw [previousSecond_seconds] at h
  rw [nextSecond_seconds, previousSecond_seconds, le_iff]
  by_cases hleap : t.InLeapSecond
  · rw [if_pos hleap] at h ⊢
    unfold InLeapSecond at hleap
    simp only [last]
    omega
  · rw [if_neg hleap] at h ⊢
    unfold InLeapSecond at hleap
    simp only [last]
    omega

theorem IsInner.hasSecondBefore (h : t.IsInner) : t.HasSecondBefore := by
  rw [hasSecondBefore_iff]
  unfold InRange
  rw [nextSecond_seconds, previousSecond_seconds]
  unfold IsInner at h
  split <;> omega

end Instant

end WorkflowScheduler
