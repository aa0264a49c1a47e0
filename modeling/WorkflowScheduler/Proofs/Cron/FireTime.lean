import WorkflowScheduler.Proofs.Cron.Search

/-!
# The next fire time

What the search finds is a fire time after the instant. It is the next one if the year in which the
search starts is in the field for years, or if the search starts with a new year: the bounds of other
years are kept for the first year that is tried, where they may leave out fire times.

## Main definitions

* `CronExpression.IsNext`: the next fire time after an instant
* `Cron.Sets.Covers`: the readings from which the search leaves out nothing

## Main results

* `CronExpression.nextAfter_exact`: the next fire time after an instant
* `CronExpression.nextAfter_of_matches`: the next one after a fire time, whatever its year
-/

namespace WorkflowScheduler

namespace CronExpression

/-- **The next fire time after an instant**, if there is one. -/
def IsNext (e : CronExpression) (t : Instant) : Option Instant → Prop
  | some r => e.Matches r ∧ t < r ∧ ∀ u, e.Matches u → t < u → r ≤ u
  | none => ∀ u, e.Matches u → ¬ t < u

end CronExpression

namespace Cron

variable {s : Sets} {start c : Clock}

/-- The year of a reading is in the field for years. -/
def Sets.HasYear (s : Sets) (c : Clock) : Prop :=
  ∃ y ∈ s.years, c.date.year = (y : Int)

/-- **From a reading on the search leaves out nothing**: its year is in the field for years, or it is
the first second of a year. -/
def Sets.Covers (s : Sets) (start : Clock) : Prop :=
  0 ≤ start.date.year ∧ (s.HasYear start ∨ start = Clock.newYear start.date.year)

theorem firstClock_eq (hpos : 0 ≤ start.date.year) :
    firstClock s start =
      tryYears s (Lower.ofClock start) (fromBound start.date.year.toNat s.years) := by
  have hyears : (s.years.filter fun y : Nat => start.date.year ≤ (y : Int)) =
      fromBound start.date.year.toNat s.years := by
    refine List.filter_congr fun y _ => ?_
    rw [decide_eq_decide]
    omega
  unfold firstClock
  rw [if_neg (by omega), hyears]

theorem Sets.hasYear_iff :
    s.HasYear c ↔ 0 ≤ c.date.year ∧ c.date.year.toNat ∈ s.years := by
  constructor
  · rintro ⟨y, hy, heq⟩
    rw [heq, Int.toNat_natCast]
    exact ⟨by omega, hy⟩
  · rintro ⟨hc, hin⟩
    exact ⟨_, hin, by omega⟩

/-- The bounds of the first second of a year are no bounds. -/
theorem Sets.Covers.allowsMonth (h : s.Covers start) (hyear : ¬ s.HasYear start)
    (hc : c.date.IsValid) : (Lower.ofClock start).AllowsMonth s c := by
  rcases h.2 with h | h
  · exact absurd h hyear
  · rw [h]
    exact Lower.allowsMonth_spent hc

/-- **What the search starts with**: the readings in all fields that are not before its start. -/
theorem left_iff (hs : s.Sound) (hstart : start.IsValid) (hcover : s.Covers start) :
    Left s (Lower.ofClock start) (fromBound start.date.year.toNat s.years) c ↔
      s.Fits c ∧ s.HasYear c ∧ start.seconds ≤ c.seconds := by
  have hpos := hcover.1
  unfold Left
  rw [and_assoc, Sets.hasYear_iff]
  refine and_congr_right fun hfits => ?_
  rw [and_assoc]
  refine and_congr_right fun hc => ?_
  rw [tried_fromBound_iff hs.years.ascending (fun _ => Iff.rfl) fun hout =>
    hcover.allowsMonth (fun h => hout (Sets.hasYear_iff.mp h).2) hfits.valid.date]
  refine and_congr_right fun _ => ?_
  -- by the year of the reading, as it is to that of the start
  rcases Int.lt_trichotomy start.date.year c.date.year with hlt | heq | hgt
  · exact iff_of_true (.inl (by omega))
      (Int.le_of_lt (Clock.seconds_lt_of_year hstart hfits.valid hlt))
  · rw [Lower.allowsMonth_ofClock_iff hstart hfits.valid heq]
    simp [heq]
  · have := Clock.seconds_lt_of_year hfits.valid hstart hgt
    omega

/-- Wherever the search starts, it starts with readings that are not before that. -/
theorem Left.spec (hs : s.Sound) (hstart : start.IsValid) (hpos : 0 ≤ start.date.year)
    (h : Left s (Lower.ofClock start) (fromBound start.date.year.toNat s.years) c) :
    s.Fits c ∧ s.HasYear c ∧ start.seconds ≤ c.seconds := by
  by_cases hyear : s.HasYear start
  · exact (left_iff hs hstart ⟨hpos, .inl hyear⟩).mp h
  · -- then every year that is tried is a later one
    obtain ⟨⟨hfits, hc⟩, hmem, -⟩ := h
    obtain ⟨hin, hle⟩ : c.date.year.toNat ∈ s.years ∧
        start.date.year.toNat ≤ c.date.year.toNat := by
      simpa [fromBound] using hmem
    have hne : start.date.year.toNat ≠ c.date.year.toNat := by
      intro heq
      rw [Sets.hasYear_iff, heq] at hyear
      exact hyear ⟨hpos, hin⟩
    exact ⟨hfits, Sets.hasYear_iff.mpr ⟨hc, hin⟩,
      Int.le_of_lt (Clock.seconds_lt_of_year hstart hfits.valid (by omega))⟩

/-- **What the search finds.** -/
theorem firstClock_spec (hs : s.Sound) (hstart : start.IsValid) (h : firstClock s start = some c) :
    s.Fits c ∧ s.HasYear c ∧ start.seconds ≤ c.seconds := by
  have hpos : 0 ≤ start.date.year := by
    apply Int.not_lt.mp
    intro hneg
    simp [firstClock, hneg] at h
  rw [firstClock_eq hpos] at h
  have hleft := (tryYears_eq_some hs (pairwise_fromBound hs.years.ascending _) h).1
  exact hleft.spec hs hstart hpos

theorem firstClock_le (hs : s.Sound) (hstart : start.IsValid) (hcover : s.Covers start)
    (h : firstClock s start = some c) {u : Clock} (hu : s.Fits u) (hyear : s.HasYear u)
    (hle : start.seconds ≤ u.seconds) : c.seconds ≤ u.seconds := by
  rw [firstClock_eq hcover.1] at h
  have hfirst := tryYears_eq_some hs (pairwise_fromBound hs.years.ascending _) h
  exact hfirst.2 u ((left_iff hs hstart hcover).mpr ⟨hu, hyear, hle⟩)

theorem firstClock_eq_none (hs : s.Sound) (hstart : start.IsValid) (hcover : s.Covers start)
    (h : firstClock s start = none) {u : Clock} (hu : s.Fits u) (hyear : s.HasYear u) :
    u.seconds < start.seconds := by
  rw [firstClock_eq hcover.1] at h
  have hnone := tryYears_eq_none hs (pairwise_fromBound hs.years.ascending _) h u
  apply Int.not_le.mp
  intro hle
  exact hnone ((left_iff hs hstart hcover).mpr ⟨hu, hyear, hle⟩)

end Cron

namespace CronExpression

open Cron

variable {e : CronExpression} {t r u : Instant}

theorem matchesClock_iff {c : Clock} (hc : c.IsValid) :
    e.MatchesClock c ↔ e.sets.Fits c ∧ e.sets.HasYear c := by
  constructor
  · rintro ⟨hs, hmin, hh, hd, hm, hw, hy⟩
    exact ⟨⟨⟨hc, hw, ⟨hh, hmin, hs⟩⟩, hm, hd⟩, hy⟩
  · rintro ⟨⟨⟨-, hw, ⟨hh, hmin, hs⟩⟩, hm, hd⟩, hy⟩
    exact ⟨hs, hmin, hh, hd, hm, hw, hy⟩

theorem nextAfter_eq (ht : t.nextSecond.InRange) :
    e.nextAfter t = .ok ((firstClock e.sets t.nextSecond.clock).map Clock.instant) := by
  unfold nextAfter oneLater Instant.nextSecond? Instant.inRange?
  rw [if_pos ht]
  rfl

/-- **A fire time that is found** is one, and after the instant. -/
theorem nextAfter_spec (hs : e.sets.Sound) (h : e.nextAfter t = .ok (some r)) :
    e.Matches r ∧ t < r := by
  have ht : t.nextSecond.InRange := by
    apply Decidable.of_not_not
    intro hout
    simp [nextAfter, oneLater, Instant.nextSecond?, Instant.inRange?, hout, bind,
      Except.bind] at h
  rw [nextAfter_eq ht, Except.ok.injEq, Option.map_eq_some_iff] at h
  obtain ⟨c, hc, rfl⟩ := h
  obtain ⟨hfits, hyear, hle⟩ := firstClock_spec hs (Instant.isValid_clock _) hc
  refine ⟨⟨rfl, ?_⟩, ?_⟩
  · rw [Clock.instant_clock hfits.valid]
    exact (matchesClock_iff hfits.valid).mpr ⟨hfits, hyear⟩
  · rw [Instant.lt_iff_nextSecond_le rfl, ← Instant.clock_seconds]
    exact hle

/-- **The fire time that is found is the next one**, if the search leaves out nothing. -/
theorem exists_nextAfter (hs : e.sets.Sound) (ht : t.nextSecond.InRange)
    (hcover : e.sets.Covers t.nextSecond.clock) :
    ∃ o, e.nextAfter t = .ok o ∧ e.IsNext t o := by
  have hvalid := Instant.isValid_clock t.nextSecond
  have hreading : ∀ u, e.Matches u → e.sets.Fits u.clock ∧ e.sets.HasYear u.clock := fun u hu =>
    (matchesClock_iff (Instant.isValid_clock u)).mp hu.2
  refine ⟨_, nextAfter_eq ht, ?_⟩
  cases hfirst : firstClock e.sets t.nextSecond.clock with
  | none =>
    intro u hu htu
    obtain ⟨hfits, hyear⟩ := hreading u hu
    have hlt := firstClock_eq_none hs hvalid hcover hfirst hfits hyear
    rw [Instant.clock_seconds, Instant.clock_seconds] at hlt
    rw [Instant.lt_iff_nextSecond_le hu.1] at htu
    omega
  | some c =>
    have hc : e.nextAfter t = .ok (some c.instant) := by rw [nextAfter_eq ht, hfirst]; rfl
    obtain ⟨hmatches, hlt⟩ := nextAfter_spec hs hc
    refine ⟨hmatches, hlt, fun u hu htu => ?_⟩
    obtain ⟨hfits, hyear⟩ := hreading u hu
    rw [Instant.lt_iff_nextSecond_le hu.1, ← Instant.clock_seconds, ← Instant.clock_seconds] at htu
    have hle := firstClock_le hs hvalid hcover hfirst hfits hyear htu
    rw [Instant.clock_seconds] at hle
    exact (Instant.le_iff_of_whole rfl).mpr hle

/-- **The next fire time after an instant.** What is found is a fire time after the instant; and if
the year of the search is in the field for years, it is the next one, and nothing is found only if
there is none. -/
theorem nextAfter_exact {source : String} (h : parse source = .ok e)
    (ht : t.nextSecond.InRange) :
    ∃ o, e.nextAfter t = .ok o ∧
      (∀ r, o = some r → e.Matches r ∧ t < r) ∧
      (e.sets.HasYear t.nextSecond.clock → e.IsNext t o) := by
  have hs := sound_of_parse h
  refine ⟨_, nextAfter_eq ht, ?_, fun hyear => ?_⟩
  · intro r hr
    exact nextAfter_spec hs (by rw [nextAfter_eq ht, hr])
  · obtain ⟨o, ho, hnext⟩ := exists_nextAfter hs ht ⟨(Sets.hasYear_iff.mp hyear).1, .inl hyear⟩
    rw [nextAfter_eq ht, Except.ok.injEq] at ho
    rw [ho]
    exact hnext

/-- Midnight on the first days of 2024 and 2026. -/
def newYears : CronExpression where
  source := "0 0 0 1 1 ? 2024,2026"
  sets := ⟨[0], [0], [0], [1], [1], [1, 2, 3, 4, 5, 6, 7], [2024, 2026]⟩

theorem parse_newYears : parse "0 0 0 1 1 ? 2024,2026" = .ok newYears := rfl

/-- Just after the first second of 2024 the next fire time is the first second of 2026. -/
theorem nextAfter_exact_newYears :
    newYears.IsNext ⟨1704067200, 5⟩ (some ⟨1767225600, 0⟩) := by
  obtain ⟨o, ho, -, hnext⟩ := nextAfter_exact parse_newYears (t := ⟨1704067200, 5⟩) (by decide)
  have hfound : newYears.nextAfter ⟨1704067200, 5⟩ = .ok (some ⟨1767225600, 0⟩) := rfl
  rw [hfound, Except.ok.injEq] at ho
  rw [ho]
  exact hnext ⟨2024, by decide, by decide⟩

/-- After a reading of a year comes one of the same year, or the first second of a later one. -/
theorem covers_nextSecond {s : Sets} (hyear : s.HasYear t.clock) :
    s.Covers t.nextSecond.clock := by
  have hvalid := t.isValid_clock
  have hvalid' := t.nextSecond.isValid_clock
  have hseconds : t.nextSecond.clock.seconds = t.clock.seconds + 1 := by
    rw [Instant.clock_seconds, Instant.clock_seconds, Instant.nextSecond_seconds]
  have hpos := (Sets.hasYear_iff.mp hyear).1
  rcases Int.lt_trichotomy t.clock.date.year t.nextSecond.clock.date.year with hlt | heq | hgt
  · -- the first second of the later year lies between the two, so it is the later one
    have hbefore := Clock.seconds_lt_of_year hvalid
      (Clock.isValid_newYear t.nextSecond.clock.date.year) hlt
    have hafter := hvalid'.newYear_le
    refine ⟨by omega, .inr (Clock.eq_of_seconds_eq hvalid' (Clock.isValid_newYear _) ?_)⟩
    omega
  · refine ⟨by omega, .inl ?_⟩
    unfold Sets.HasYear
    rwa [← heq]
  · have := Clock.seconds_lt_of_year hvalid' hvalid hgt
    omega

/-- The years of the fields are far from the ends of the calendar. -/
theorem seconds_bounds_of_hasYear {s : Sets} (hs : s.Sound) (hyear : s.HasYear t.clock) :
    0 ≤ t.seconds ∧ t.seconds < 4133980800 := by
  obtain ⟨y, hy, heq⟩ := hyear
  obtain ⟨hlo, hhi⟩ := hs.years.bounds y hy
  have hle := t.isValid_clock.newYear_le
  have hlt := t.isValid_clock.lt_newYear
  have hfirst : Date.yearStart 1970 ≤ Date.yearStart t.clock.date.year :=
    Date.yearStart_mono (by simp only [Domain.years] at hlo; omega)
  have hlast : Date.yearStart (t.clock.date.year + 1) ≤ Date.yearStart 2101 :=
    Date.yearStart_mono (by simp only [Domain.years] at hhi; omega)
  rw [Clock.newYear_seconds, Instant.clock_seconds] at hle hlt
  have h1970 : Date.yearStart 1970 = 0 := by decide
  have h2101 : Date.yearStart 2101 = 47847 := by decide
  omega

theorem Matches.hasYear (ht : e.Matches t) : e.sets.HasYear t.clock :=
  ht.2.2.2.2.2.2.2

theorem Matches.isInner (hs : e.sets.Sound) (ht : e.Matches t) : t.IsInner := by
  have hbounds := seconds_bounds_of_hasYear hs ht.hasYear
  unfold Instant.IsInner Instant.firstSecond Instant.lastSecond
  omega

/-- **After a fire time the next one is found**, whatever years the fields lack. -/
theorem nextAfter_of_matches (hs : e.sets.Sound) (ht : e.Matches t) :
    ∃ o, e.nextAfter t = .ok o ∧ e.IsNext t o :=
  exists_nextAfter hs (ht.isInner hs).nextSecond_inRange (covers_nextSecond ht.hasYear)

end CronExpression

end WorkflowScheduler
