import WorkflowScheduler.Cron.Window
import WorkflowScheduler.Proofs.Cron.FireTime

/-!
# Fire times in a window

Whatever years its field lacks, a chain of fire times leaves out none: after a fire time the search
starts in a year of the field or with a new year. Only the first fire time of a window depends on the
year in which the window starts.

## Main definitions

* `CronExpression.FirstFrom`: the first fire time that is not before an instant

## Main results

* `CronExpression.chain_exact`: a chain is all fire times from its first one on
* `CronExpression.fireTimes_exact`: the fire times of a window
-/

namespace WorkflowScheduler

namespace CronExpression

open Cron

variable {e : CronExpression} {start stop t r u : Instant}

/-- **The first fire time that is not before an instant**, if there is one. -/
def FirstFrom (e : CronExpression) (t : Instant) : Option Instant → Prop
  | some r => e.Matches r ∧ t ≤ r ∧ ∀ u, e.Matches u → t ≤ u → r ≤ u
  | none => ∀ u, e.Matches u → ¬ t ≤ u

theorem FirstFrom.spec {o : Option Instant} (h : e.FirstFrom t o) (r : Instant) (hr : o = some r) :
    e.Matches r ∧ t ≤ r := by
  cases hr
  exact ⟨h.1, h.2.1⟩

theorem FirstFrom.exists_le_iff {o : Option Instant} (h : e.FirstFrom t o) (hu : e.Matches u) :
    (∃ r, o = some r ∧ r ≤ u) ↔ t ≤ u := by
  cases o with
  | none => exact iff_of_false (by simp) (h u hu)
  | some r =>
    constructor
    · rintro ⟨r, ⟨⟩, hru⟩
      exact Instant.le_trans h.2.1 hru
    · intro htu
      exact ⟨r, rfl, h.2.2 u hu htu⟩

/-! ## Chains -/

/-- **A chain consists of some fire times**, if there is room for them. -/
structure IsChain (e : CronExpression) (stop : Instant) (o : Option Instant)
    (P : Instant → Prop) (ts : List Instant) : Prop where
  ascending : ts.Pairwise (· < ·)
  mem_iff : ∀ u, u ∈ ts ↔ P u
  chain_eq : ∀ room, e.chain stop room o = if ts.length ≤ room then .ok ts else .error .tooMany

variable {o : Option Instant} {P Q : Instant → Prop} {ts : List Instant}

theorem IsChain.congr (h : e.IsChain stop o P ts) (hPQ : ∀ u, P u ↔ Q u) :
    e.IsChain stop o Q ts :=
  ⟨h.ascending, fun u => (h.mem_iff u).trans (hPQ u), h.chain_eq⟩

theorem chain_none (room : Nat) : e.chain stop room none = .ok [] := by
  cases room <;> rfl

theorem chain_of_le (h : stop ≤ r) (room : Nat) : e.chain stop room (some r) = .ok [] := by
  cases room <;> simp [chain, h]

theorem isChain_nil (hP : ∀ u, ¬ P u) (ho : ∀ r, o = some r → stop ≤ r) :
    e.IsChain stop o P [] where
  ascending := List.Pairwise.nil
  mem_iff u := by simp [hP u]
  chain_eq room := by
    cases o with
    | none => exact chain_none room
    | some r => exact chain_of_le (ho r rfl) room

/-- A fire time before the end takes one place, and the chain goes on with the next one. -/
theorem chain_cons (hr : r < stop) (hnext : e.nextAfter r = .ok o)
    (h : ∀ room, e.chain stop room o = if ts.length ≤ room then .ok ts else .error .tooMany)
    (room : Nat) :
    e.chain stop room (some r) =
      if (r :: ts).length ≤ room then .ok (r :: ts) else .error .tooMany := by
  have hstop : ¬ stop ≤ r := by rwa [← Instant.not_lt, Decidable.not_not]
  cases room with
  | zero => simp [chain, hstop]
  | succ room =>
    simp only [chain, if_neg hstop, hnext, inCalendar, List.length_cons, Nat.add_le_add_iff_right]
    change (e.chain stop room o >>= fun ts => .ok (r :: ts)) = _
    rw [h room]
    split <;> rfl

theorem IsChain.cons (h : e.IsChain stop o P ts) (hr : r < stop) (hnext : e.nextAfter r = .ok o)
    (hP : ∀ u, P u → r < u) :
    e.IsChain stop (some r) (fun u => u = r ∨ P u) (r :: ts) where
  ascending := List.pairwise_cons.mpr ⟨fun u hu => hP u ((h.mem_iff u).mp hu), h.ascending⟩
  mem_iff u := by rw [List.mem_cons, h.mem_iff]
  chain_eq := chain_cons hr hnext h.chain_eq

/-- **A chain is all fire times from its first one on.** -/
theorem chain_exact (hs : e.sets.Sound) (hr : e.Matches r) (stop : Instant) :
    ∃ ts, e.IsChain stop (some r) (fun u => e.Matches u ∧ r ≤ u ∧ u < stop) ts := by
  -- on the time that is left: every fire time is a second or more after the one before
  induction hn : (stop.seconds + 1 - r.seconds).toNat using Nat.strongRecOn generalizing r with
  | ind n ih =>
    by_cases hstop : r < stop
    · obtain ⟨o, ho, hnext⟩ := nextAfter_of_matches hs hr
      obtain ⟨ts, hts⟩ :
          ∃ ts, e.IsChain stop o (fun u => e.Matches u ∧ r < u ∧ u < stop) ts := by
        cases o with
        | none =>
          exact ⟨[], isChain_nil (fun u hu => hnext u hu.1 hu.2.1) fun r hr => absurd hr (by simp)⟩
        | some r' =>
          obtain ⟨hr', hlt, hleast⟩ := hnext
          have hless : (stop.seconds + 1 - r'.seconds).toNat < n := by
            rw [Instant.lt_iff] at hstop
            rw [Instant.lt_iff, hr.1, hr'.1] at hlt
            omega
          obtain ⟨ts, hts⟩ := ih _ hless hr' rfl
          refine ⟨ts, hts.congr fun u => and_congr_right fun hu => and_congr_left fun _ => ?_⟩
          exact ⟨fun hle => Instant.lt_of_lt_of_le hlt hle, fun hru => hleast u hu hru⟩
      refine ⟨r :: ts, (hts.cons hstop ho fun u hu => hu.2.1).congr fun u => ?_⟩
      constructor
      · rintro (rfl | ⟨hu, hru, hus⟩)
        · exact ⟨hr, Instant.le_refl _, hstop⟩
        · exact ⟨hu, Instant.le_of_lt hru, hus⟩
      · rintro ⟨hu, hru, hus⟩
        rcases Instant.eq_or_lt_of_le hru with rfl | hru
        · exact .inl rfl
        · exact .inr ⟨hu, hru, hus⟩
    · refine ⟨[], isChain_nil ?_ ?_⟩
      · rintro u ⟨-, hru, hus⟩
        exact hstop (Instant.lt_of_le_of_lt hru hus)
      · rintro r' ⟨⟩
        exact Instant.not_lt.mp hstop

/-! ## The first fire time -/

theorem oneEarlier_eq (h : t.previousSecond.InRange) : oneEarlier t = .ok t.previousSecond := by
  unfold oneEarlier Instant.previousSecond? Instant.inRange?
  rw [if_pos h]

theorem nextAtOrAfter_eq (h : t.previousSecond.InRange) (ho : e.nextAfter t.previousSecond = .ok o) :
    e.nextAtOrAfter t =
      match o with
      | none => .ok none
      | some first => if t ≤ first then .ok (some first) else e.nextAfter first := by
  simp only [nextAtOrAfter, oneEarlier_eq h, ho, bind, Except.bind]
  cases o <;> rfl

/-- Of two fire times after the second before an instant, the later one is after the instant. -/
theorem lt_of_second_after (hr : e.Matches r) (hu : e.Matches u) (htr : t.previousSecond < r)
    (hru : r < u) : t < u := by
  have hprevious := t.previousSecond_seconds
  rw [Instant.lt_iff_nextSecond_le hr.1, Instant.nextSecond_seconds] at htr
  rw [Instant.lt_iff_nextSecond_le hu.1, Instant.nextSecond_seconds] at hru
  rw [Instant.lt_iff]
  split at hprevious <;> omega

/-- A window that starts within the calendar starts with a fire time that is not before its start, or
with none. -/
theorem nextAtOrAfter_spec (hs : e.sets.Sound) (ht : t.HasSecondBefore) :
    ∃ o, e.nextAtOrAfter t = .ok o ∧ ∀ r, o = some r → e.Matches r ∧ t ≤ r := by
  obtain ⟨hbefore, hnext⟩ := Instant.hasSecondBefore_iff.mp ht
  have ho := nextAfter_eq (e := e) hnext
  generalize (firstClock e.sets t.previousSecond.nextSecond.clock).map Clock.instant = o at ho
  rw [nextAtOrAfter_eq hbefore ho]
  cases o with
  | none => exact ⟨none, rfl, fun r hr => absurd hr (by simp)⟩
  | some first =>
    obtain ⟨hfirst, hlt⟩ := nextAfter_spec hs ho
    by_cases hle : t ≤ first
    · simp only [if_pos hle]
      refine ⟨some first, rfl, ?_⟩
      rintro r ⟨⟩
      exact ⟨hfirst, hle⟩
    · -- the first one lies in the second of the start, so the one after it does not
      obtain ⟨o, ho, -⟩ := nextAfter_of_matches hs hfirst
      simp only [if_neg hle]
      refine ⟨o, ho, ?_⟩
      rintro r rfl
      obtain ⟨hr, hlt'⟩ := nextAfter_spec hs ho
      exact ⟨hr, Instant.le_of_lt (lt_of_second_after hfirst hr hlt hlt')⟩

theorem hasSecondBefore_of_nextAtOrAfter (h : e.nextAtOrAfter t = .ok o) : t.HasSecondBefore := by
  rw [Instant.hasSecondBefore_iff]
  by_cases hbefore : t.previousSecond.InRange
  · refine ⟨hbefore, Decidable.of_not_not fun hnext => ?_⟩
    simp [nextAtOrAfter, oneEarlier_eq hbefore, nextAfter, oneLater, Instant.nextSecond?,
      Instant.inRange?, hnext, bind, Except.bind] at h
  · simp [nextAtOrAfter, oneEarlier, Instant.previousSecond?, Instant.inRange?, hbefore, bind,
      Except.bind] at h

theorem IsNext.firstFrom {x : Instant} (h : e.IsNext x o)
    (hx : ∀ u, e.Matches u → (x < u ↔ t ≤ u)) : e.FirstFrom t o := by
  cases o with
  | none => exact fun u hu htu => h u hu ((hx u hu).mpr htu)
  | some r =>
    obtain ⟨hr, hxr, hleast⟩ := h
    exact ⟨hr, (hx r hr).mp hxr, fun u hu htu => hleast u hu ((hx u hu).mpr htu)⟩

/-- **What a window starts with** is its first fire time, if the year of its start is in the field
for years. -/
theorem exists_nextAtOrAfter (hs : e.sets.Sound) (hyear : e.sets.HasYear t.clock) :
    ∃ o, e.nextAtOrAfter t = .ok o ∧ e.FirstFrom t o := by
  have hbounds := seconds_bounds_of_hasYear hs hyear
  have hprevious := t.previousSecond_seconds
  have hnext := t.previousSecond.nextSecond_seconds
  have hbefore : t.previousSecond.InRange := by
    unfold Instant.InRange Instant.firstSecond Instant.lastSecond
    split at hprevious <;> omega
  have hafter : t.previousSecond.nextSecond.InRange := by
    unfold Instant.InRange Instant.firstSecond Instant.lastSecond
    split at hprevious <;> omega
  have hcover : e.sets.Covers t.previousSecond.nextSecond.clock := by
    by_cases hleap : t.InLeapSecond
    · -- the second before a leap second is the one that it is counted with
      rw [if_pos hleap] at hprevious
      rw [Instant.clock_congr (u := t.nextSecond) (by rw [hnext, hprevious, t.nextSecond_seconds])]
      exact covers_nextSecond hyear
    · rw [if_neg hleap] at hprevious
      rw [Instant.clock_congr (u := t) (by rw [hnext, hprevious]; omega)]
      exact ⟨(Sets.hasYear_iff.mp hyear).1, .inl hyear⟩
  obtain ⟨o, ho, hfirst⟩ := exists_nextAfter hs hafter hcover
  rw [nextAtOrAfter_eq hbefore ho]
  have hlater : ∀ u, t ≤ u → t.previousSecond < u := fun u =>
    Instant.lt_of_lt_of_le t.previousSecond_lt
  cases o with
  | none => exact ⟨none, rfl, fun u hu htu => hfirst u hu (hlater u htu)⟩
  | some first =>
    obtain ⟨hmatches, hlt, hleast⟩ := hfirst
    by_cases hle : t ≤ first
    · simp only [if_pos hle]
      exact ⟨_, rfl, hmatches, hle, fun u hu htu => hleast u hu (hlater u htu)⟩
    · simp only [if_neg hle]
      obtain ⟨o, ho, hnext⟩ := nextAfter_of_matches hs hmatches
      refine ⟨o, ho, hnext.firstFrom fun u hu => ⟨fun hru => ?_, fun htu => ?_⟩⟩
      · exact Instant.le_of_lt (lt_of_second_after hmatches hu hlt hru)
      · exact Instant.lt_of_lt_of_le (Instant.lt_of_not_le hle) htu

/-! ## Windows -/

theorem fireTimes_of_le (h : stop ≤ start) (limit : Nat) : e.fireTimes start stop limit = .ok [] := by
  simp [fireTimes, h]

theorem fireTimes_eq (h : start < stop) (ho : e.nextAtOrAfter start = .ok o) (limit : Nat) :
    e.fireTimes start stop limit = e.chain stop limit o := by
  have hstop : ¬ stop ≤ start := by rwa [← Instant.not_lt, Decidable.not_not]
  simp only [fireTimes, if_neg hstop, ho, inCalendar]
  rfl

/-- **What a window consists of**, by what it starts with. -/
theorem fireTimes_of_first (hs : e.sets.Sound) (h : start < stop)
    (ho : e.nextAtOrAfter start = .ok o) (hfirst : ∀ r, o = some r → e.Matches r ∧ start ≤ r) :
    ∃ ts : List Instant, ts.Pairwise (· < ·) ∧
      (∀ u, u ∈ ts ↔ e.Matches u ∧ (∃ r, o = some r ∧ r ≤ u) ∧ u < stop) ∧
      ∀ limit, e.fireTimes start stop limit =
        if ts.length ≤ limit then .ok ts else .error .tooMany := by
  cases o with
  | none =>
    refine ⟨[], List.Pairwise.nil, fun u => by simp, fun limit => ?_⟩
    rw [fireTimes_eq h ho, chain_none]
    simp
  | some r =>
    obtain ⟨ts, hts⟩ := chain_exact hs (hfirst r rfl).1 stop
    refine ⟨ts, hts.ascending, fun u => ?_, fun limit => ?_⟩
    · rw [hts.mem_iff]
      simp
    · rw [fireTimes_eq h ho, hts.chain_eq]

/-- A window that has a list of fire times lies within the calendar. -/
theorem nextAtOrAfter_of_fireTimes {limit : Nat} (h : start < stop)
    (hts : e.fireTimes start stop limit = .ok ts) : ∃ o, e.nextAtOrAfter start = .ok o := by
  have hstop : ¬ stop ≤ start := by rwa [← Instant.not_lt, Decidable.not_not]
  cases ho : e.nextAtOrAfter start with
  | ok o => exact ⟨o, rfl⟩
  | error x => simp [fireTimes, hstop, ho, inCalendar, bind, Except.bind] at hts

/-- Whatever list is given for a window, it is one of fire times within the window. -/
theorem fireTimes_sound (hs : e.sets.Sound) {limit : Nat}
    (hts : e.fireTimes start stop limit = .ok ts) :
    ts.Pairwise (· < ·) ∧ ts.length ≤ limit ∧ ∀ t ∈ ts, e.Matches t ∧ start ≤ t ∧ t < stop := by
  by_cases hstop : start < stop
  · obtain ⟨o, ho⟩ := nextAtOrAfter_of_fireTimes hstop hts
    obtain ⟨o', ho', hfirst⟩ := nextAtOrAfter_spec hs (hasSecondBefore_of_nextAtOrAfter ho)
    obtain ⟨ts', hasc, hmem, heq⟩ := fireTimes_of_first hs hstop ho' hfirst
    rw [heq] at hts
    split at hts
    · next hlength =>
      cases hts
      refine ⟨hasc, hlength, fun t ht => ?_⟩
      obtain ⟨hmatches, ⟨r, rfl, hrt⟩, hlt⟩ := (hmem t).mp ht
      exact ⟨hmatches, Instant.le_trans (hfirst r rfl).2 hrt, hlt⟩
    · cases hts
  · rw [fireTimes_of_le (Instant.not_lt.mp hstop)] at hts
    cases hts
    exact ⟨List.Pairwise.nil, Nat.zero_le _, fun t ht => absurd ht List.not_mem_nil⟩

/-- A window that starts with its first fire time has all its fire times. -/
theorem fireTimes_of_firstFrom (hs : e.sets.Sound) (ho : e.nextAtOrAfter start = .ok o)
    (hfirst : e.FirstFrom start o) :
    ∃ ts : List Instant, ts.Pairwise (· < ·) ∧
      (∀ u, u ∈ ts ↔ e.Matches u ∧ start ≤ u ∧ u < stop) ∧
      ∀ limit, e.fireTimes start stop limit =
        if ts.length ≤ limit then .ok ts else .error .tooMany := by
  by_cases hstop : start < stop
  · obtain ⟨ts, hasc, hmem, heq⟩ := fireTimes_of_first hs hstop ho hfirst.spec
    refine ⟨ts, hasc, fun u => ?_, heq⟩
    rw [hmem]
    exact and_congr_right fun hu => and_congr_left fun _ => hfirst.exists_le_iff hu
  · refine ⟨[], List.Pairwise.nil, fun u => ?_, fun limit => ?_⟩
    · refine iff_of_false List.not_mem_nil ?_
      rintro ⟨-, hle, hlt⟩
      exact hstop (Instant.lt_of_le_of_lt hle hlt)
    · rw [fireTimes_of_le (Instant.not_lt.mp hstop)]
      simp

/-- **A window that starts in a year of the field has all its fire times.** -/
theorem fireTimes_complete (hs : e.sets.Sound) (hyear : e.sets.HasYear start.clock) :
    ∃ ts : List Instant, ts.Pairwise (· < ·) ∧
      (∀ u, u ∈ ts ↔ e.Matches u ∧ start ≤ u ∧ u < stop) ∧
      ∀ limit, e.fireTimes start stop limit =
        if ts.length ≤ limit then .ok ts else .error .tooMany := by
  obtain ⟨o, ho, hfirst⟩ := exists_nextAtOrAfter hs hyear
  exact fireTimes_of_firstFrom hs ho hfirst

/-- A window that starts within the calendar does not leave it. -/
theorem fireTimes_ne_outOfCalendar (hs : e.sets.Sound) (hstart : start.HasSecondBefore) (limit : Nat) :
    e.fireTimes start stop limit ≠ .error .outOfCalendar := by
  by_cases hstop : start < stop
  · obtain ⟨o, ho, hfirst⟩ := nextAtOrAfter_spec hs hstart
    obtain ⟨ts, -, -, heq⟩ := fireTimes_of_first hs hstop ho hfirst
    rw [heq]
    split <;> simp
  · rw [fireTimes_of_le (Instant.not_lt.mp hstop)]
    simp

/-- **A window leaves the calendar** exactly if it is not empty and its start has no second before
it. -/
theorem fireTimes_eq_outOfCalendar_iff (hs : e.sets.Sound) {limit : Nat} :
    e.fireTimes start stop limit = .error .outOfCalendar ↔
      start < stop ∧ ¬ start.HasSecondBefore := by
  constructor
  · intro h
    refine ⟨Instant.lt_of_not_le fun hle => ?_, fun hstart => ?_⟩
    · rw [fireTimes_of_le hle] at h
      cases h
    · exact fireTimes_ne_outOfCalendar hs hstart limit h
  · rintro ⟨hstop, hout⟩
    have hle : ¬ stop ≤ start := by rwa [← Instant.not_lt, Decidable.not_not]
    cases ho : e.nextAtOrAfter start with
    | ok o => exact absurd (hasSecondBefore_of_nextAtOrAfter ho) hout
    | error x => simp [fireTimes, hle, ho, inCalendar, bind, Except.bind]

/-- **The fire times of a window.** A list that is given is ascending, no longer than allowed and
lies in the window; and if the year of the start is in the field for years, it is the list of all
fire times of the window, unless these are too many. The search begins a second before the start, so
that it leaves the calendar at most for a start in the first second of the calendar, or in a leap
second after its last one. -/
theorem fireTimes_exact {source : String} (h : parse source = .ok e) (start stop : Instant) :
    (stop ≤ start → ∀ limit, e.fireTimes start stop limit = .ok []) ∧
    (∀ limit ts, e.fireTimes start stop limit = .ok ts →
      ts.Pairwise (· < ·) ∧ ts.length ≤ limit ∧
        ∀ t ∈ ts, e.Matches t ∧ start ≤ t ∧ t < stop) ∧
    (e.sets.HasYear start.clock → ∃ ts : List Instant, ts.Pairwise (· < ·) ∧
      (∀ u, u ∈ ts ↔ e.Matches u ∧ start ≤ u ∧ u < stop) ∧
      ∀ limit, e.fireTimes start stop limit =
        if ts.length ≤ limit then .ok ts else .error .tooMany) ∧
    (start.HasSecondBefore → ∀ limit, e.fireTimes start stop limit ≠ .error .outOfCalendar) := by
  have hs := sound_of_parse h
  exact ⟨fireTimes_of_le, fun _ _ => fireTimes_sound hs, fireTimes_complete hs,
    fireTimes_ne_outOfCalendar hs⟩

/-- A window that starts just after the first fire time has only the second one, two years later. -/
theorem fireTimes_exact_newYears :
    newYears.fireTimes ⟨1704067200, 5⟩ ⟨1798761600, 0⟩ 1 = .ok [⟨1767225600, 0⟩] ∧
      ∀ u, newYears.Matches u ∧ ⟨1704067200, 5⟩ ≤ u ∧ u < ⟨1798761600, 0⟩ →
        u = ⟨1767225600, 0⟩ := by
  obtain ⟨-, -, hcomplete, -⟩ := fireTimes_exact parse_newYears ⟨1704067200, 5⟩ ⟨1798761600, 0⟩
  obtain ⟨ts, -, hmem, heq⟩ := hcomplete ⟨2024, by decide, by decide⟩
  have hlist : newYears.fireTimes ⟨1704067200, 5⟩ ⟨1798761600, 0⟩ 1 =
      .ok [⟨1767225600, 0⟩] := rfl
  refine ⟨hlist, fun u hu => ?_⟩
  rw [heq 1] at hlist
  split at hlist
  · cases hlist
    exact List.mem_singleton.mp ((hmem u).mpr hu)
  · cases hlist

end CronExpression

end WorkflowScheduler
