import WorkflowScheduler.Proofs.Cron.Window

/-!
# Fire times that the search leaves out

The search keeps the bounds of its start for the first year that it tries. If that is a later year
than the one in which it starts, the bounds do not belong there: what lies before them in that year is
left out, although it is after the start. Apart from such instants the search finds the first fire
time, wherever it starts; and there are none of them if every year is in the field.

## Main definitions

* `Instant.IsFirst`: the first one of some instants
* `Cron.Sets.Overlooks`, `CronExpression.Overlooks`: what the search leaves out
* `CronExpression.EveryYear`: every year is in the field, as it is if the field is missing

## Main results

* `CronExpression.exists_nextAfter_first`: the fire time that is found after an instant
* `CronExpression.exists_nextAtOrAfter_first`: the one that is found from an instant on
* `CronExpression.EveryYear.not_overlooks`: what is never left out
* `CronExpression.EveryYear.fireTimes_complete`: the fire times of a window from 1970 on
* `CronExpression.everyYear_of_parse`: expressions without a field for years
-/

namespace WorkflowScheduler

/-! ## The first one of some instants -/

/-- **The first one of some instants**, if there are any. -/
def Instant.IsFirst (P : Instant → Prop) : Option Instant → Prop
  | some r => P r ∧ ∀ u, P u → r ≤ u
  | none => ∀ u, ¬ P u

namespace Instant.IsFirst

variable {P Q : Instant → Prop} {o : Option Instant}

theorem congr (h : IsFirst P o) (hPQ : ∀ u, Q u ↔ P u) : IsFirst Q o := by
  obtain rfl : Q = P := funext fun u => propext (hPQ u)
  exact h

theorem eq_none_iff (h : IsFirst P o) : o = none ↔ ∀ u, ¬ P u := by
  cases o with
  | none => exact iff_of_true rfl h
  | some r => exact iff_of_false (by simp) fun hnone => hnone r h.1

/-- The first one before an end. -/
theorem before (h : IsFirst P o) (stop : Instant) :
    IsFirst (fun u => P u ∧ u < stop) (o.filter (· < stop)) := by
  cases o with
  | none => exact fun u hu => h u hu.1
  | some r =>
    by_cases hr : r < stop
    · simp only [Option.filter_some, hr, decide_true, if_true]
      exact ⟨⟨h.1, hr⟩, fun u hu => h.2 u hu.1⟩
    · simp only [Option.filter_some, hr, decide_false, Bool.false_eq_true, if_false]
      rintro u ⟨hu, hlt⟩
      exact hr (Instant.lt_of_le_of_lt (h.2 u hu) hlt)

/-- The first one of all that are in an ascending list is its head. -/
theorem head?_eq {ts : List Instant} (h : IsFirst P o) (hasc : ts.Pairwise (· < ·))
    (hmem : ∀ u, u ∈ ts ↔ P u) : ts.head? = o := by
  cases ts with
  | nil => exact (h.eq_none_iff.mpr fun u hu => List.not_mem_nil ((hmem u).mpr hu)).symm
  | cons t ts =>
    have ht : P t := (hmem t).mp List.mem_cons_self
    cases o with
    | none => exact absurd ht (h t)
    | some r =>
      rcases List.mem_cons.mp ((hmem r).mpr h.1) with rfl | hr
      · rfl
      · exact absurd ((List.pairwise_cons.mp hasc).1 r hr) (Instant.not_lt.mpr (h.2 t ht))

end Instant.IsFirst

/-! ## What the search leaves out -/

namespace Cron

variable {s : Sets} {start c : Clock}

/-- **A reading that the search leaves out.** The year of the start is not in the field, so that the
bounds are kept for the first later year of the field; the reading lies in that year, and not within
the bounds. -/
structure Sets.Overlooks (s : Sets) (start c : Clock) : Prop where
  year : ¬ s.HasYear start
  first : ∀ y ∈ s.years, start.date.year ≤ (y : Int) → c.date.year ≤ (y : Int)
  bounds : ¬ (Lower.ofClock start).AllowsMonth s c

/-- The first one of ascending values. -/
theorem head?_eq_some_iff {values : List Nat} (h : values.Pairwise (· < ·)) {v : Nat} :
    values.head? = some v ↔ v ∈ values ∧ ∀ n ∈ values, v ≤ n := by
  cases values with
  | nil => simp
  | cons n rest =>
    have hn := (List.pairwise_cons.mp h).1
    rw [List.head?_cons, Option.some.injEq]
    constructor
    · rintro rfl
      exact ⟨List.mem_cons_self, List.forall_mem_cons.mpr
        ⟨Nat.le_refl _, fun m hm => Nat.le_of_lt (hn m hm)⟩⟩
    · rintro ⟨hv, hle⟩
      have hvn := hle n List.mem_cons_self
      rcases List.mem_cons.mp hv with rfl | hv
      · rfl
      · have := hn v hv
        omega

/-- **What the search starts with**, wherever it does: the readings in all fields that are not before
its start, apart from those that it leaves out. -/
theorem left_iff_not_overlooks (hs : s.Sound) (hstart : start.IsValid)
    (hpos : 0 ≤ start.date.year) :
    Left s (Lower.ofClock start) (fromBound start.date.year.toNat s.years) c ↔
      (s.Fits c ∧ s.HasYear c ∧ start.seconds ≤ c.seconds) ∧ ¬ s.Overlooks start c := by
  by_cases hyear : s.HasYear start
  · rw [left_iff hs hstart ⟨hpos, .inl hyear⟩]
    exact (and_iff_left fun h => h.year hyear).symm
  · have hmem : ∀ n, n ∈ fromBound start.date.year.toNat s.years ↔
        n ∈ s.years ∧ start.date.year ≤ (n : Int) := by
      intro n
      simp only [fromBound, List.mem_filter, decide_eq_true_eq]
      exact and_congr_right fun _ => by omega
    constructor
    · intro h
      refine ⟨h.spec hs hstart hpos, fun hover => hover.bounds (h.2.2 ?_)⟩
      -- the first year that is tried is the one of the reading
      rw [head?_eq_some_iff (pairwise_fromBound hs.years.ascending _)]
      refine ⟨h.2.1, fun n hn => ?_⟩
      obtain ⟨hn, hle⟩ := (hmem n).mp hn
      have := hover.first n hn hle
      omega
    · rintro ⟨⟨hfits, hc, hle⟩, hover⟩
      obtain ⟨hcpos, hcin⟩ := Sets.hasYear_iff.mp hc
      have hcyear : start.date.year ≤ c.date.year := by
        apply Int.not_lt.mp
        intro hlt
        have := Clock.seconds_lt_of_year hfits.valid hstart hlt
        omega
      refine ⟨⟨hfits, hcpos⟩, (hmem _).mpr ⟨hcin, by omega⟩, fun hhead => ?_⟩
      refine Classical.byContradiction fun hbounds => ?_
      refine hover ⟨hyear, fun y hy hstarty => ?_, hbounds⟩
      have := ((head?_eq_some_iff (pairwise_fromBound hs.years.ascending _)).mp hhead).2 y
        ((hmem y).mpr ⟨hy, hstarty⟩)
      omega

end Cron

namespace CronExpression

open Cron

variable {e : CronExpression} {t u : Instant}

/-- **An instant that the search after `t` leaves out.** -/
def Overlooks (e : CronExpression) (t u : Instant) : Prop :=
  e.sets.Overlooks t.nextSecond.clock u.clock

/-- **The fire time that is found after an instant** is the first one, apart from those that the
search leaves out. -/
theorem exists_nextAfter_first (hs : e.sets.Sound) (ht : t.nextSecond.InRange)
    (hpos : 0 ≤ t.nextSecond.clock.date.year) :
    ∃ o, e.nextAfter t = .ok o ∧
      Instant.IsFirst (fun u => e.Matches u ∧ t < u ∧ ¬ e.Overlooks t u) o := by
  have hleft := fun c => left_iff_not_overlooks (c := c) hs t.nextSecond.isValid_clock hpos
  -- a fire time is a reading that the search starts with
  have hreading : ∀ u, e.Matches u ∧ t < u ∧ ¬ e.Overlooks t u →
      Left e.sets (Lower.ofClock t.nextSecond.clock)
        (fromBound t.nextSecond.clock.date.year.toNat e.sets.years) u.clock := by
    rintro u ⟨hu, htu, hover⟩
    obtain ⟨hfits, hyear⟩ := (matchesClock_iff u.isValid_clock).mp hu.2
    rw [Instant.lt_iff_nextSecond_le hu.1, ← Instant.clock_seconds, ← u.clock_seconds] at htu
    exact (hleft _).mpr ⟨⟨hfits, hyear, htu⟩, hover⟩
  refine ⟨_, nextAfter_eq ht, ?_⟩
  have hfirst := firstClock_eq (s := e.sets) hpos
  cases hc : firstClock e.sets t.nextSecond.clock with
  | none =>
    rw [hc] at hfirst
    exact fun u hu => tryYears_eq_none hs (pairwise_fromBound hs.years.ascending _) hfirst.symm _
      (hreading u hu)
  | some c =>
    rw [hc] at hfirst
    obtain ⟨hfound, hleast⟩ := tryYears_eq_some hs (pairwise_fromBound hs.years.ascending _)
      hfirst.symm
    obtain ⟨⟨hfits, -, -⟩, hover⟩ := (hleft c).mp hfound
    obtain ⟨hmatches, hlt⟩ := nextAfter_spec hs (r := c.instant) (by rw [nextAfter_eq ht, hc]; rfl)
    refine ⟨⟨hmatches, hlt, ?_⟩, fun u hu => ?_⟩
    · unfold Overlooks
      rwa [Clock.instant_clock hfits.valid]
    · have hle := hleast _ (hreading u hu)
      rw [Instant.clock_seconds] at hle
      exact (Instant.le_iff_of_whole rfl).mpr hle

/-- **The fire time that is found from an instant on** is the first one, apart from those that the
search leaves out. -/
theorem exists_nextAtOrAfter_first (hs : e.sets.Sound) (ht : t.HasSecondBefore)
    (hpos : 0 ≤ t.previousSecond.nextSecond.clock.date.year) :
    ∃ o, e.nextAtOrAfter t = .ok o ∧
      Instant.IsFirst (fun u => e.Matches u ∧ t ≤ u ∧ ¬ e.Overlooks t.previousSecond u) o := by
  obtain ⟨hbefore, hafter⟩ := Instant.hasSecondBefore_iff.mp ht
  have hlater : ∀ u, t ≤ u → t.previousSecond < u := fun u =>
    Instant.lt_of_lt_of_le t.previousSecond_lt
  obtain ⟨o, ho, hfirst⟩ := exists_nextAfter_first hs hafter hpos
  rw [nextAtOrAfter_eq hbefore ho]
  cases o with
  | none => exact ⟨none, rfl, fun u hu => hfirst u ⟨hu.1, hlater u hu.2.1, hu.2.2⟩⟩
  | some first =>
    obtain ⟨⟨hmatches, hlt, hover⟩, hleast⟩ := hfirst
    by_cases hle : t ≤ first
    · simp only [if_pos hle]
      exact ⟨_, rfl, ⟨hmatches, hle, hover⟩,
        fun u hu => hleast u ⟨hu.1, hlater u hu.2.1, hu.2.2⟩⟩
    · -- the search has started within the second of a fire time, whose year is in the field
      have hyear : e.sets.HasYear t.previousSecond.nextSecond.clock := by
        have hsame : t.previousSecond.nextSecond.seconds = first.seconds := by
          have hprevious := t.previousSecond_seconds
          rw [Instant.lt_iff_nextSecond_le hmatches.1] at hlt
          rw [Instant.nextSecond_seconds] at *
          rw [Instant.le_iff, hmatches.1] at hle
          split at hprevious <;> omega
        rw [Instant.clock_congr hsame]
        exact hmatches.hasYear
      obtain ⟨o, ho, hnext⟩ := nextAfter_of_matches hs hmatches
      simp only [if_neg hle]
      have hafter : ∀ u, e.Matches u → (first < u ↔ t ≤ u) := fun u hu =>
        ⟨fun hru => Instant.le_of_lt (lt_of_second_after hmatches hu hlt hru),
          Instant.lt_of_lt_of_le (Instant.lt_of_not_le hle)⟩
      refine ⟨o, ho, ?_⟩
      cases o with
      | none => exact fun u hu => hnext u hu.1 ((hafter u hu.1).mpr hu.2.1)
      | some r =>
        obtain ⟨hr, hfr, hleast⟩ := hnext
        exact ⟨⟨hr, (hafter r hr).mp hfr, fun hover => hover.year hyear⟩,
          fun u hu => hleast u hu.1 ((hafter u hu.1).mpr hu.2.1)⟩

/-! ## Expressions for every year -/

/-- **Every year is in the field**, as it is if the expression has no field for years. -/
def EveryYear (e : CronExpression) : Prop :=
  e.sets.years = Domain.years.values

/-- An expression for every year leaves out no fire time from 1970 on. -/
theorem EveryYear.not_overlooks (he : e.EveryYear) (ht : 0 ≤ t.nextSecond.seconds)
    (hu : e.Matches u) (htu : t < u) : ¬ e.Overlooks t u := by
  intro hover
  obtain ⟨y, hy, heq⟩ := hu.hasYear
  rw [he, Domain.values, List.mem_range'_1] at hy
  rw [Instant.lt_iff_nextSecond_le hu.1] at htu
  have hvalid := t.nextSecond.isValid_clock
  -- the search starts in 1970 or later, and not after the year of the fire time
  have hlo := Instant.le_year_of_nonneg ht
  have hhi : t.nextSecond.clock.date.year ≤ u.clock.date.year := by
    apply Int.not_lt.mp
    intro hlt
    have hlt := Clock.seconds_lt_of_year u.isValid_clock hvalid hlt
    rw [Instant.clock_seconds, Instant.clock_seconds] at hlt
    omega
  refine hover.year ⟨t.nextSecond.clock.date.year.toNat, ?_, by omega⟩
  rw [he, Domain.values, List.mem_range'_1]
  simp only [Domain.years] at hy ⊢
  omega

/-- **A window from 1970 on has all the fire times of an expression for every year.** -/
theorem EveryYear.fireTimes_complete {start stop : Instant} (hs : e.sets.Sound) (he : e.EveryYear)
    (hin : start.IsInner) (hpos : 0 ≤ start.seconds) :
    ∃ ts : List Instant, ts.Pairwise (· < ·) ∧
      (∀ u, u ∈ ts ↔ e.Matches u ∧ start ≤ u ∧ u < stop) ∧
      ∀ limit, e.fireTimes start stop limit =
        if ts.length ≤ limit then .ok ts else .error .tooMany := by
  have hsecond : 0 ≤ start.previousSecond.nextSecond.seconds := by
    rw [Instant.nextSecond_seconds, Instant.previousSecond_seconds]
    split <;> omega
  have hyear := Instant.le_year_of_nonneg hsecond
  obtain ⟨o, ho, hfirst⟩ := exists_nextAtOrAfter_first hs hin.hasSecondBefore (by omega)
  have hleft : ∀ u, e.Matches u → start ≤ u → ¬ e.Overlooks start.previousSecond u :=
    fun u hu hle => he.not_overlooks hsecond hu
      (Instant.lt_of_lt_of_le start.previousSecond_lt hle)
  refine fireTimes_of_firstFrom hs ho ?_
  cases o with
  | none => exact fun u hu hle => hfirst u ⟨hu, hle, hleft u hu hle⟩
  | some r =>
    obtain ⟨⟨hr, hle, -⟩, hleast⟩ := hfirst
    exact ⟨hr, hle, fun u hu hle => hleast u ⟨hu, hle, hleft u hu hle⟩⟩

/-- What is left of a text after six fields. -/
def afterSixFields? (cs : List Char) : Option (List Char) := do
  let (_, cs) ← Grammar.values .sixty cs
  let (_, cs) ← Grammar.values .sixty cs
  let (_, cs) ← Grammar.values .hours cs
  let (_, cs) ← Grammar.values .days cs
  let (_, cs) ← Grammar.values .months cs
  let (_, cs) ← Grammar.values .weekdays cs
  some cs

/-- What is read is a keyword, or six fields and then the years, which are all if nothing is left. -/
theorem years_of_sets? {cs : List Char} {s : Sets} (h : Grammar.sets? cs = some s) :
    s.years = Domain.years.values ∨ ∃ rest, afterSixFields? cs = some rest ∧
      s.years = ((Grammar.values .years rest).getD (Domain.years.values, rest)).1 := by
  unfold Grammar.sets? at h
  rcases Option.or_eq_some_iff.mp h with hkeyword | ⟨-, hfields⟩
  · left
    unfold Grammar.keyword? at hkeyword
    simp only at hkeyword
    repeat' split at hkeyword
    all_goals
      cases hkeyword
      try rfl
  · right
    unfold Grammar.fields? at hfields
    -- one field after the other, as in the text
    obtain ⟨⟨seconds, cs₁⟩, hseconds, h⟩ := Option.bind_eq_some_iff.mp hfields
    obtain ⟨⟨minutes, cs₂⟩, hminutes, h⟩ := Option.bind_eq_some_iff.mp h
    obtain ⟨⟨hours, cs₃⟩, hhours, h⟩ := Option.bind_eq_some_iff.mp h
    obtain ⟨⟨days, cs₄⟩, hdays, h⟩ := Option.bind_eq_some_iff.mp h
    obtain ⟨⟨months, cs₅⟩, hmonths, h⟩ := Option.bind_eq_some_iff.mp h
    obtain ⟨⟨weekdays, rest⟩, hweekdays, h⟩ := Option.bind_eq_some_iff.mp h
    refine ⟨rest, ?_, ?_⟩
    · simp [afterSixFields?, hseconds, hminutes, hhours, hdays, hmonths, hweekdays]
    · simp only at h
      split at h
      · cases h
        rfl
      · cases h

/-- **An expression without a field for years is for every year.** -/
theorem everyYear_of_parse {source : String} (h : parse source = .ok e)
    (hsix : ∀ rest, afterSixFields? (normalize source.toList) = some rest → rest = []) :
    e.EveryYear := by
  unfold parse at h
  split at h
  · cases h
  · split at h
    · next sets hsets =>
      cases h
      rcases years_of_sets? hsets with hall | ⟨rest, hrest, hyears⟩
      · exact hall
      · obtain rfl := hsix rest hrest
        exact hyears
    · cases h

end CronExpression

end WorkflowScheduler
