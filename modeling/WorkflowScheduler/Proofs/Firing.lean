import WorkflowScheduler.Proofs.Cron.Overlooked
import WorkflowScheduler.Trigger.Basic

/-!
# What a trigger waits for

A trigger goes on from its last fire time or from what its clock shows, whichever is later, and waits
for the first fire time of its window after that. With a field for years the search may leave out some
of them; once it leaves out all that are left, the trigger ends, although fire times are still to
come.

## Main definitions

* `Trigger.origin`, `Trigger.searchStart`: from where a trigger goes on, and searches
* `Trigger.Ready`: a trigger whose search stays within the calendar

## Main results

* `Trigger.Ready.nextFire_spec`, `Trigger.Ready.nextFire_first`: what a trigger waits for
* `Trigger.gives_up_iff`: when nothing is found, and a trigger ends
-/

namespace WorkflowScheduler

namespace Trigger

variable {g : Trigger} {last : Option Instant} {now due u : Instant} {o : Option Instant}

/-! ## The next fire time -/

/-- **From where a trigger goes on**: from its last fire time or from now, whichever is later. -/
def origin (last : Option Instant) (now : Instant) : Instant :=
  match last with
  | none => now
  | some l => Instant.latest l now

/-- **The instant after which a trigger searches**: a second before its start date, or from where it
goes on if that is not before the start date. -/
def searchStart (g : Trigger) (last : Option Instant) (now : Instant) : Instant :=
  if origin last now < g.schedule.startDate then g.schedule.startDate.previousSecond
  else origin last now

theorem origin_lt_iff : origin last now < u ↔ now < u ∧ ∀ l, last = some l → l < u := by
  cases last with
  | none => simp [origin]
  | some l =>
    simp only [origin, Instant.latest, Option.some.injEq, forall_eq']
    split
    · next h =>
      exact ⟨fun hu => ⟨hu, Instant.lt_of_le_of_lt (Instant.le_of_lt h) hu⟩, fun hu => hu.1⟩
    · next h =>
      exact ⟨fun hu => ⟨Instant.lt_of_le_of_lt (Instant.not_lt.mp h) hu, hu⟩, fun hu => hu.2⟩

theorem now_le_origin (last : Option Instant) (now : Instant) : now ≤ origin last now := by
  apply Instant.not_lt.mp
  intro hlt
  exact Instant.not_lt.mpr (Instant.le_refl now) (origin_lt_iff.mp hlt).1

theorem nextFire_eq (g : Trigger) (last : Option Instant) (now : Instant) :
    g.nextFire last now = (do
      let next ←
        if origin last now < g.schedule.startDate then g.cron.nextAtOrAfter g.schedule.startDate
        else g.cron.nextAfter (origin last now)
      .ok (next.filter (· < g.schedule.endDate))) := rfl

theorem nextFire_of_lt (h : origin last now < g.schedule.startDate)
    (ho : g.cron.nextAtOrAfter g.schedule.startDate = .ok o) :
    g.nextFire last now = .ok (o.filter (· < g.schedule.endDate)) := by
  rw [nextFire_eq, if_pos h, ho]
  rfl

theorem nextFire_of_not_lt (h : ¬ origin last now < g.schedule.startDate)
    (ho : g.cron.nextAfter (origin last now) = .ok o) :
    g.nextFire last now = .ok (o.filter (· < g.schedule.endDate)) := by
  rw [nextFire_eq, if_neg h, ho]
  rfl

/-- **A trigger that can go on**: its search stays within the calendar. -/
structure Ready (g : Trigger) (last : Option Instant) (now : Instant) : Prop where
  sound : g.cron.sets.Sound
  startDate : g.schedule.startDate.IsInner
  last : ∀ l, last = some l → g.cron.Matches l
  now : now.IsInner

namespace Ready

theorem origin_isInner (h : g.Ready last now) : (origin last now).IsInner := by
  cases hl : last with
  | none => exact h.now
  | some l =>
    simp only [origin, Instant.latest]
    split
    · exact h.now
    · exact (h.last l hl).isInner h.sound

/-- **What a trigger waits for** is a fire time within its window, and after what it goes on from. -/
theorem nextFire_spec (h : g.Ready last now) : ∃ o, g.nextFire last now = .ok o ∧
    ∀ due, o = some due → g.cron.Matches due ∧ g.schedule.startDate ≤ due ∧
      due < g.schedule.endDate ∧ origin last now < due := by
  by_cases hlt : origin last now < g.schedule.startDate
  · obtain ⟨o, ho, hspec⟩ := CronExpression.nextAtOrAfter_spec h.sound
      h.startDate.hasSecondBefore
    refine ⟨_, nextFire_of_lt hlt ho, fun due hdue => ?_⟩
    obtain ⟨hmem, hend⟩ := Option.filter_eq_some_iff.mp hdue
    obtain ⟨hmatches, hstart⟩ := hspec due hmem
    exact ⟨hmatches, hstart, of_decide_eq_true hend, Instant.lt_of_lt_of_le hlt hstart⟩
  · have ho := CronExpression.nextAfter_eq (e := g.cron) h.origin_isInner.nextSecond_inRange
    refine ⟨_, nextFire_of_not_lt hlt ho, fun due hdue => ?_⟩
    obtain ⟨hmem, hend⟩ := Option.filter_eq_some_iff.mp hdue
    obtain ⟨hmatches, hafter⟩ := CronExpression.nextAfter_spec h.sound (hmem ▸ ho)
    exact ⟨hmatches, Instant.le_trans (Instant.not_lt.mp hlt) (Instant.le_of_lt hafter),
      of_decide_eq_true hend, hafter⟩

/-- From 1970 on the search starts there, too. -/
theorem searchStart_nonneg (hpos : 0 ≤ now.seconds ∨ 0 ≤ g.schedule.startDate.seconds) :
    0 ≤ (g.searchStart last now).nextSecond.seconds := by
  rw [Instant.nextSecond_seconds]
  unfold searchStart
  split
  · next hlt =>
    have hnow := (origin_lt_iff.mp hlt).1
    rw [Instant.previousSecond_seconds]
    rw [Instant.lt_iff] at hnow
    split <;> omega
  · next hle =>
    have hnow := now_le_origin last now
    have hstart := Instant.not_lt.mp hle
    rw [Instant.le_iff] at hnow hstart
    omega

/-- **What a trigger waits for from 1970 on** is the first fire time of its window after what it goes
on from, apart from those that the search leaves out. -/
theorem nextFire_first (h : g.Ready last now)
    (hpos : 0 ≤ now.seconds ∨ 0 ≤ g.schedule.startDate.seconds) :
    ∃ o, g.nextFire last now = .ok o ∧
      Instant.IsFirst (fun u => g.cron.Matches u ∧ g.schedule.startDate ≤ u ∧
        u < g.schedule.endDate ∧ origin last now < u ∧
          ¬ g.cron.Overlooks (g.searchStart last now) u) o := by
  have hyear := Instant.le_year_of_nonneg (@searchStart_nonneg g last now hpos)
  unfold searchStart at hyear ⊢
  by_cases hlt : origin last now < g.schedule.startDate
  · rw [if_pos hlt] at hyear ⊢
    obtain ⟨o, ho, hfirst⟩ := CronExpression.exists_nextAtOrAfter_first h.sound
      h.startDate.hasSecondBefore (by omega)
    refine ⟨_, nextFire_of_lt hlt ho, (hfirst.before _).congr fun u => ?_⟩
    constructor
    · rintro ⟨hu, hle, hend, -, hover⟩
      exact ⟨⟨hu, hle, hover⟩, hend⟩
    · rintro ⟨⟨hu, hle, hover⟩, hend⟩
      exact ⟨hu, hle, hend, Instant.lt_of_lt_of_le hlt hle, hover⟩
  · rw [if_neg hlt] at hyear ⊢
    obtain ⟨o, ho, hfirst⟩ := CronExpression.exists_nextAfter_first h.sound
      h.origin_isInner.nextSecond_inRange (by omega)
    refine ⟨_, nextFire_of_not_lt hlt ho, (hfirst.before _).congr fun u => ?_⟩
    constructor
    · rintro ⟨hu, -, hend, hafter, hover⟩
      exact ⟨⟨hu, hafter, hover⟩, hend⟩
    · rintro ⟨⟨hu, hafter, hover⟩, hend⟩
      exact ⟨hu, Instant.le_trans (Instant.not_lt.mp hlt) (Instant.le_of_lt hafter), hend, hafter,
        hover⟩

/-- An expression for every year leaves out nothing of a window from 1970 on. -/
theorem nextFire_everyYear (h : g.Ready last now) (he : g.cron.EveryYear)
    (hpos : 0 ≤ g.schedule.startDate.seconds) :
    ∃ o, g.nextFire last now = .ok o ∧
      Instant.IsFirst (fun u => g.cron.Matches u ∧ g.schedule.startDate ≤ u ∧
        u < g.schedule.endDate ∧ origin last now < u) o := by
  obtain ⟨o, ho, hfirst⟩ := h.nextFire_first (.inr hpos)
  refine ⟨o, ho, hfirst.congr fun u => ⟨?_, ?_⟩⟩
  · rintro ⟨hu, hstart, hend, hafter⟩
    refine ⟨hu, hstart, hend, hafter, he.not_overlooks (searchStart_nonneg (.inr hpos)) hu ?_⟩
    unfold searchStart
    split
    · exact Instant.lt_of_lt_of_le (Instant.previousSecond_lt _) hstart
    · exact hafter
  · rintro ⟨hu, hstart, hend, hafter, -⟩
    exact ⟨hu, hstart, hend, hafter⟩

end Ready

/-- **When nothing is found.** The search after an instant finds nothing exactly if it leaves out
every later fire time; and a trigger ends exactly if its search leaves out every fire time of its
window that lies after what it goes on from. -/
theorem gives_up_iff {source : String} {e : CronExpression}
    (h : CronExpression.parse source = .ok e) :
    (∀ t : Instant, t.IsInner → 0 ≤ t.seconds →
      (e.nextAfter t = .ok none ↔ ∀ u, e.Matches u → t < u → e.Overlooks t u)) ∧
    (∀ (g : Trigger) (last : Option Instant) (now : Instant), g.cron = e →
      g.schedule.startDate.IsInner → (∀ l, last = some l → e.Matches l) → now.IsInner →
      0 ≤ now.seconds →
      (g.nextFire last now = .ok none ↔ ∀ u, e.Matches u → g.schedule.startDate ≤ u →
        u < g.schedule.endDate → origin last now < u →
          e.Overlooks (g.searchStart last now) u)) := by
  have hs := CronExpression.sound_of_parse h
  constructor
  · intro t ht hpos
    have hsecond : 0 ≤ t.nextSecond.seconds := by
      rw [Instant.nextSecond_seconds]
      omega
    have hyear := Instant.le_year_of_nonneg hsecond
    obtain ⟨o, ho, hfirst⟩ :=
      CronExpression.exists_nextAfter_first hs ht.nextSecond_inRange (by omega)
    rw [ho, Except.ok.injEq, hfirst.eq_none_iff]
    constructor
    · intro hnone u hu hlater
      exact Classical.byContradiction fun hover => hnone u ⟨hu, hlater, hover⟩
    · rintro hall u ⟨hu, hlater, hover⟩
      exact hover (hall u hu hlater)
  · rintro g last now rfl hstart hlast hnow hpos
    have hready : g.Ready last now := ⟨hs, hstart, hlast, hnow⟩
    obtain ⟨o, ho, hfirst⟩ := hready.nextFire_first (.inl hpos)
    rw [ho, Except.ok.injEq, hfirst.eq_none_iff]
    constructor
    · intro hnone u hu hle hend hlater
      exact Classical.byContradiction fun hover => hnone u ⟨hu, hle, hend, hlater, hover⟩
    · rintro hall u ⟨hu, hle, hend, hlater, hover⟩
      exact hover (hall u hu hle hend hlater)

/-- Midnight on the first day of 2030. -/
def newYear2030 : CronExpression where
  source := "0 0 0 1 1 ? 2030"
  sets := ⟨[0], [0], [0], [1], [1], [1, 2, 3, 4, 5, 6, 7], [2030]⟩

/-- A trigger for it, from 2020 to 2040. -/
def trigger2030 : Trigger where
  key := .ofFlow 10 1
  schedule := ⟨1, 10, "0 0 0 1 1 ? 2030", ⟨1577836800, 0⟩, ⟨2208988800, 0⟩, .online, .never, [], 1, 0⟩
  cron := newYear2030

/-- In the middle of 2024 nothing is found and the trigger ends, although its fire time is still to
come. -/
theorem gives_up_newYear2030 :
    newYear2030.nextAfter ⟨1717200000, 0⟩ = .ok none ∧
      trigger2030.nextFire none ⟨1717200000, 0⟩ = .ok none ∧
      newYear2030.Matches ⟨1893456000, 0⟩ ∧
      newYear2030.Overlooks ⟨1717200000, 0⟩ ⟨1893456000, 0⟩ ∧
      newYear2030.Overlooks (trigger2030.searchStart none ⟨1717200000, 0⟩) ⟨1893456000, 0⟩ := by
  obtain ⟨hsearch, htrigger⟩ :=
    gives_up_iff (show CronExpression.parse "0 0 0 1 1 ? 2030" = .ok newYear2030 from rfl)
  have hfound : newYear2030.nextAfter ⟨1717200000, 0⟩ = .ok none := rfl
  have hnext : trigger2030.nextFire none ⟨1717200000, 0⟩ = .ok none := rfl
  have hmatches : newYear2030.Matches ⟨1893456000, 0⟩ :=
    ⟨rfl, by decide, by decide, by decide, by decide, by decide, by decide, 2030, by decide,
      by decide⟩
  have hlater := hsearch ⟨1717200000, 0⟩ (by decide) (by decide)
  have hwindow := htrigger trigger2030 none ⟨1717200000, 0⟩ rfl (by decide) (by simp) (by decide)
    (by decide)
  exact ⟨hfound, hnext, hmatches, hlater.mp hfound _ hmatches (by decide),
    hwindow.mp hnext _ hmatches (by decide) (by decide) (by decide)⟩

end Trigger

end WorkflowScheduler
