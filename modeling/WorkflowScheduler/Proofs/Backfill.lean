import WorkflowScheduler.Proofs.Cron.Window
import WorkflowScheduler.Proofs.Refusals

/-!
# Windows at the edge of the calendar

The dates of a request are checked for lying within the calendar, and the search for the fire times
of a window begins a second before its start. In the very first second of the calendar there is no
such second, so that a window that starts there breaks a request off. No other request for a window
is broken off, whatever its dates are and whatever others do meanwhile.

## Main definitions

* `Service.InFirstSecond`: the times of a request in the first second of the calendar
* `Service.Found`: the workflow of a request has been found in its project

## Main results

* `Master.backfill_breaks_off_iff`: when the operation breaks off
* `Service.append_breaks_off_iff`: when the request breaks off
-/

namespace WorkflowScheduler

open Operation

namespace Service

/-- **The workflow of a request has been found**, and in its project. -/
def Found (projectId flowId : Int) (h : History) : Prop :=
  ∃ w : Workflow, ⟨.store (.workflow flowId), .ok (some w)⟩ ∈ h ∧ w.projectId = projectId

/-- **The times of a request in the first second of the calendar.** -/
def InFirstSecond (millis : Int) : Prop :=
  -8334601228800000 ≤ millis ∧ millis < -8334601228799000

/-- The last time of a request within the calendar. -/
def lastMillis : Int := 8210266876799999

/-- **The window of a request starts at the edge of the calendar**: in its first second, and it is
not empty. -/
def AtEdge (i : WindowInfo) : Prop :=
  InFirstSecond i.startDate ∧ i.startDate < i.endDate ∧ i.endDate ≤ lastMillis

theorem found_append {projectId flowId : Int} {h k : History} :
    Found projectId flowId (h ++ k) ↔ Found projectId flowId h ∨ Found projectId flowId k := by
  simp only [Found, List.mem_append, or_and_right, exists_or]

end Service

/-! ## Seconds at the edge -/

namespace Instant

variable {t u : Instant} {millis : Int}

theorem eq_of_ofMillis? (h : ofMillis? millis = some t) : t = ofMillis millis ∧ t.InRange := by
  unfold ofMillis? inRange? at h
  split at h
  · next hin =>
    cases h
    exact ⟨rfl, hin⟩
  · cases h

theorem ofMillis?_eq_some (h : (ofMillis millis).InRange) :
    ofMillis? millis = some (ofMillis millis) :=
  if_pos h

theorem ofMillis_lt_iff {a b : Int} : ofMillis a < ofMillis b ↔ a < b := by
  simp only [lt_iff, ofMillis]
  omega

/-- Apart from the first second of the calendar every time of a request has a second before it. -/
theorem not_hasSecondBefore_iff (h : ofMillis? millis = some t) :
    ¬ t.HasSecondBefore ↔ Service.InFirstSecond millis := by
  obtain ⟨rfl, hin⟩ := eq_of_ofMillis? h
  have hleap : ¬ (ofMillis millis).InLeapSecond := by
    unfold InLeapSecond ofMillis
    simp only
    omega
  rw [hasSecondBefore_iff]
  unfold InRange Service.InFirstSecond at *
  rw [nextSecond_seconds, previousSecond_seconds, if_neg hleap]
  simp only [ofMillis, firstSecond, lastSecond] at *
  omega

/-- Every instant within is after the first second. -/
theorem IsInner.lt_of_inFirstSecond (h : u.IsInner) (hm : Service.InFirstSecond millis) :
    ofMillis millis < u := by
  have hlo := h.1
  have hhi := hm.2
  rw [lt_iff]
  simp only [ofMillis, firstSecond] at *
  omega

end Instant

/-! ## The operation -/

namespace Master

variable {e : CronExpression} {start stop : Instant}

theorem workflow_meets (projectId flowId : Int) :
    (workflow projectId flowId).Meets fun l r => r ≠ none ∧
      ((∃ w, r = some (.ok w)) ↔ Service.Found projectId flowId l) := by
  refine Meets.bind (P := fun l r => ∃ found : Option Workflow,
      l = [⟨.store (.workflow flowId), .ok found⟩] ∧ r = some (.ok found))
    (Q := fun (found : Option Workflow) l r => l = [] ∧ r ≠ none ∧
      ((∃ w, r = some (.ok w)) ↔ ∃ w, found = some w ∧ w.projectId = projectId))
    (Meets.store trivial fun o s => ⟨s.store.workflow? flowId, rfl, rfl⟩) ?_ ?_ ?_ ?_
  · intro found
    cases found with
    | none => exact Meets.throw ⟨rfl, by simp, by simp⟩
    | some w =>
      by_cases hw : w.projectId = projectId
      · simp only [if_pos hw]
        exact Meets.pure ⟨rfl, by simp, by simp [hw]⟩
      · simp only [if_neg hw]
        exact Meets.throw ⟨rfl, by simp, by simp [hw]⟩
  · rintro found k l r ⟨_, rfl, hfound⟩ ⟨rfl, hr, hiff⟩
    cases hfound
    refine ⟨hr, hiff.trans (exists_congr fun w => and_congr_left fun _ => ?_)⟩
    rw [List.append_nil, List.mem_singleton]
    constructor
    · rintro rfl
      rfl
    · intro h
      injection h with _ h
      exact (Except.ok.inj h).symm
  · rintro x k ⟨_, -, hx⟩
    cases hx
  · rintro k ⟨_, -, hx⟩
    cases hx

/-- A window leaves the calendar exactly if the search cannot begin a second before its start. -/
theorem window_meets (hs : e.sets.Sound) (hlt : start < stop) (limit : Nat) :
    (window e start stop limit).Meets fun l r =>
      l = [] ∧ (r = none ↔ ¬ start.HasSecondBefore) := by
  have hiff : e.fireTimes start stop limit = .error .outOfCalendar ↔ _ :=
    e.fireTimes_eq_outOfCalendar_iff hs
  rw [and_iff_right hlt] at hiff
  unfold window
  cases hts : e.fireTimes start stop limit with
  | ok ts => exact Meets.pure ⟨rfl, iff_of_false (by simp) fun h => by simp [hiff.mpr h] at hts⟩
  | error f =>
    cases f with
    | tooMany => exact Meets.throw ⟨rfl, iff_of_false (by simp) fun h => by simp [hiff.mpr h] at hts⟩
    | outOfCalendar => exact Meets.crash ⟨rfl, iff_of_true rfl (hiff.mp hts)⟩

/-- **A backfill breaks off** exactly if its workflow has been found, its expression can be read, and
its window is not empty but starts where the search cannot begin. -/
theorem backfill_breaks_off_iff (limit : Nat) (projectId flowId : Int) (cron : String)
    (start stop : Instant) :
    (backfill limit projectId flowId cron start stop).Meets fun l r =>
      r = none ↔ Service.Found projectId flowId l ∧ (∃ e, CronExpression.parse cron = .ok e) ∧
        start < stop ∧ ¬ start.HasSecondBefore := by
  have hrest : ∀ w, (do
      let e ← cronExpression cron
      if stop ≤ start then
        throw (.validation
          ("start date " ++ start.display ++ " must be before end date " ++ stop.display))
      else do
        let times ← window e start stop limit
        submitEach w times : Operation (List Int)).Meets fun _ r =>
      r = none ↔ (∃ e, CronExpression.parse cron = .ok e) ∧ start < stop ∧
        ¬ start.HasSecondBefore := by
    intro w
    cases he : CronExpression.parse cron with
    | error f =>
      simp only [cronExpression, he]
      exact Meets.throw (iff_of_false (by simp) (by simp))
    | ok e =>
      simp only [cronExpression, he]
      change Operation.Meets (if stop ≤ start then _ else window e start stop limit >>= submitEach w) _
      by_cases hle : stop ≤ start
      · simp only [if_pos hle]
        refine Meets.throw (iff_of_false (by simp) fun h => ?_)
        exact Instant.not_lt.mpr hle h.2.1
      · simp only [if_neg hle]
        have hlt := Instant.lt_of_not_le hle
        refine Meets.bind (window_meets (CronExpression.sound_of_parse he) hlt limit)
          (submitEach_succeeds w) ?_ ?_ ?_
        · rintro ts k l r ⟨-, hwindow⟩ ⟨ids, rfl⟩
          exact iff_of_false (by simp) fun h => absurd (hwindow.mpr h.2.2) (by simp)
        · rintro x k ⟨-, hwindow⟩
          exact iff_of_false (by simp) fun h => absurd (hwindow.mpr h.2.2) (by simp)
        · rintro k ⟨-, hwindow⟩
          exact iff_of_true rfl ⟨⟨e, rfl⟩, hlt, hwindow.mp rfl⟩
  refine Meets.bind (workflow_meets projectId flowId) hrest ?_ ?_ ?_
  · rintro w k l r ⟨-, hfound⟩ hr
    obtain ⟨v, hv, hproject⟩ := hfound.mp ⟨w, rfl⟩
    rw [hr]
    exact (and_iff_right ⟨v, List.mem_append_left _ hv, hproject⟩).symm
  · rintro x k ⟨-, hfound⟩
    refine iff_of_false (by simp) fun h => ?_
    obtain ⟨w, hw⟩ := hfound.mpr h.1
    cases hw
  · rintro k ⟨hne, -⟩
    exact absurd rfl hne

end Master

/-! ## The request -/

namespace Service

/-- **What a time of a request is read as**: zero as what the clock shows, any other one as an instant
of the calendar, if there is one. -/
inductive Reads (millis : Int) : History → Option (Except MasterError Instant) → Prop
  | clock (h : millis = 0) (now : Instant) : Reads millis [⟨.now, now⟩] (some (.ok now))
  | date {t : Instant} (h : millis ≠ 0) (ht : Instant.ofMillis? millis = some t) :
      Reads millis [] (some (.ok t))
  | outside (h : millis ≠ 0) (ht : Instant.ofMillis? millis = none) (e : MasterError) :
      Reads millis [] (some (.error e))

theorem instantOf_meets (field : String) (millis : Int) :
    (instantOf field millis).Meets (Reads millis) := by
  by_cases hm : millis = 0
  · subst hm
    exact Meets.request (r := .now) trivial (.clock rfl)
  · rw [instantOf_of_ne hm]
    cases ht : Instant.ofMillis? millis with
    | none => exact Meets.throw (.outside hm ht _)
    | some t => exact Meets.pure (.date hm ht)

variable {millis : Int} {h k : History} {t start : Instant} {projectId flowId : Int}

/-- Reading a time finds no workflow. -/
theorem Reads.not_found {x : Option (Except MasterError Instant)} (hx : Reads millis h x) :
    ¬ Found projectId flowId h := by
  rintro ⟨w, hw, -⟩
  cases hx with
  | clock _ now => cases List.mem_singleton.mp hw
  | date | outside => exact absurd hw List.not_mem_nil

/-- **A request breaks off once its start is read** exactly if the start has no second before it and
the end, which is then read, lies later. -/
theorem until_breaks_off_iff (limit : Nat) (projectId flowId : Int) (i : WindowInfo)
    (start : Instant) :
    (do
      let stop ← instantOf "end_date" i.endDate
      Master.backfill limit projectId flowId i.cron start stop : Operation (List Int)).Meets
        fun l r => InnerReadings l →
          (¬ start.HasSecondBefore → ∀ now : Instant, now.IsInner → start < now) →
          (r = none ↔ Found projectId flowId l ∧ (∃ e, CronExpression.parse i.cron = .ok e) ∧
            ¬ start.HasSecondBefore ∧
            (i.endDate = 0 ∨ ∃ stop, Instant.ofMillis? i.endDate = some stop ∧ start < stop)) := by
  refine Meets.bind (instantOf_meets "end_date" i.endDate)
    (Master.backfill_breaks_off_iff limit projectId flowId i.cron start) ?_ ?_ ?_
  · intro stop k l r hk hr hinner hstart
    rw [hr, found_append, or_iff_right hk.not_found]
    refine and_congr_right fun _ => and_congr_right fun _ => ?_
    rw [and_comm]
    refine and_congr_right fun hnone => ?_
    cases hk with
    | clock hzero now =>
      have hnow : stop.IsInner := hinner stop (by simp)
      exact iff_of_true (hstart hnone stop hnow) (.inl hzero)
    | date hne hstop =>
      constructor
      · intro hlt
        exact .inr ⟨stop, hstop, hlt⟩
      · rintro (hzero | ⟨u, hu, hlt⟩)
        · exact absurd hzero hne
        · cases hstop.symm.trans hu
          exact hlt
  · intro x k hk hinner hstart
    refine iff_of_false (by simp) fun h => hk.not_found h.1
  · intro k hk
    cases hk

/-- An end that can be read is later than a start in the first second exactly if its time is. -/
theorem later_iff {start stop : Int} (hstart : InFirstSecond start) :
    (stop = 0 ∨ ∃ t, Instant.ofMillis? stop = some t ∧ Instant.ofMillis start < t) ↔
      start < stop ∧ stop ≤ lastMillis := by
  have hlo := hstart.1
  have hhi := hstart.2
  constructor
  · rintro (rfl | ⟨t, ht, hlt⟩)
    · unfold lastMillis
      omega
    · obtain ⟨rfl, -, hlast⟩ := Instant.eq_of_ofMillis? ht
      refine ⟨Instant.ofMillis_lt_iff.mp hlt, ?_⟩
      simp only [Instant.ofMillis, Instant.lastSecond] at hlast
      unfold lastMillis
      omega
  · rintro ⟨hlt, hlast⟩
    refine .inr ⟨_, Instant.ofMillis?_eq_some ?_, Instant.ofMillis_lt_iff.mpr hlt⟩
    unfold lastMillis at hlast
    unfold Instant.InRange
    simp only [Instant.ofMillis, Instant.firstSecond, Instant.lastSecond]
    omega

/-- **What is done for a request breaks off** exactly if its workflow has been found, its expression
can be read, and its window starts at the edge of the calendar. -/
theorem backfill_breaks_off_iff (limit : Nat) (projectId flowId : Int) (i : WindowInfo) :
    (backfill limit projectId flowId (some i)).Meets fun l r => InnerReadings l →
      (r = none ↔ Found projectId flowId l ∧ (∃ e, CronExpression.parse i.cron = .ok e) ∧
        AtEdge i) := by
  refine Meets.bind (instantOf_meets "start_date" i.startDate)
    (until_breaks_off_iff limit projectId flowId i) ?_ ?_ ?_
  · intro start k l r hk hr hinner
    have hread : r = none ↔ Found projectId flowId l ∧
        (∃ e, CronExpression.parse i.cron = .ok e) ∧ ¬ start.HasSecondBefore ∧
          (i.endDate = 0 ∨ ∃ stop, Instant.ofMillis? i.endDate = some stop ∧ start < stop) := by
      refine hr hinner.of_append.2 fun hnone now hnow => ?_
      cases hk with
      | clock _ _ =>
        have hstart : start.IsInner := hinner start (by simp)
        exact absurd hstart.hasSecondBefore hnone
      | date _ hstart =>
        obtain ⟨rfl, -⟩ := Instant.eq_of_ofMillis? hstart
        exact hnow.lt_of_inFirstSecond ((Instant.not_hasSecondBefore_iff hstart).mp hnone)
    rw [hread, found_append, or_iff_right hk.not_found]
    refine and_congr_right fun _ => and_congr_right fun _ => ?_
    cases hk with
    | clock hzero _ =>
      have hstart : start.IsInner := hinner start (by simp)
      refine iff_of_false (fun h => h.1 hstart.hasSecondBefore) fun h => ?_
      have := h.1.2
      omega
    | date _ hstart =>
      obtain ⟨rfl, -⟩ := Instant.eq_of_ofMillis? hstart
      rw [Instant.not_hasSecondBefore_iff hstart]
      exact and_congr_right fun hfirst => later_iff hfirst
  · rintro x k hk hinner
    refine iff_of_false (by simp) fun h => hk.not_found h.1
  · intro k hk
    cases hk

variable {limit : Nat} {info : Option WindowInfo} {result : Option IdsReply}
  {turns : List (Turn Request.Answer Site)} {others : Site → Site → Prop} {s t : Site}

/-- **A request for a window is answered, unless the window starts at the edge of the calendar.**
Whatever its parts are and whatever others do meanwhile, it breaks off exactly if it has a window that
starts in the first second of the calendar and is not empty, its workflow has been found in the
project, and its expression can be read. -/
theorem append_breaks_off_iff
    (h : (handle limit (.appendWorkFlow projectId flowId info)).Ran Site.answer others s turns
      result t)
    (hclock : InnerReadings (turns.map (·.exchange))) :
    result = none ↔ ∃ i e, info = some i ∧ AtEdge i ∧ CronExpression.parse i.cron = .ok e ∧
      Found projectId flowId (turns.map (·.exchange)) := by
  rw [handle_eq] at h
  obtain ⟨outcome, hran, rfl⟩ := h.of_map
  refine Option.map_eq_none_iff.trans ?_
  cases info with
  | none =>
    refine iff_of_false ?_ (by simp)
    have hthrow : (backfill limit projectId flowId none).Meets fun _ r => r ≠ none :=
      Meets.throw (by simp)
    obtain ⟨l, -, hne⟩ := Interaction.Keeps.ran (T := Master.anyhow) (fun _ _ _ => trivial)
      (hthrow [] s) hran
    exact hne
  | some i =>
    obtain ⟨l, hl, hiff⟩ := Interaction.Keeps.ran (T := Master.anyhow) (fun _ _ _ => trivial)
      (backfill_breaks_off_iff limit projectId flowId i [] s) hran
    rw [List.nil_append, List.nil_append] at hl
    rw [hl] at hclock ⊢
    refine (hiff hclock).trans ?_
    constructor
    · rintro ⟨hfound, ⟨e, he⟩, hedge⟩
      exact ⟨i, e, rfl, hedge, he, hfound⟩
    · rintro ⟨_, e, ⟨⟩, hedge, he, hfound⟩
      exact ⟨hfound, ⟨e, he⟩, hedge⟩

/-- A window that starts with the calendar. -/
def fromFirstSecond : WindowInfo :=
  ⟨"0 0 0 1 1 ? 2024,2026", -8334601228800000, -8334601228000000⟩

/-- The request for such a window breaks off, although it is in order. -/
theorem append_breaks_off_fromFirstSecond :
    ∃ turns t, (handle 100 (.appendWorkFlow 10 1 (some fromFirstSecond))).Ran Site.answer
        (fun x y => y = x) .oneWorkflow turns none t ∧
      AtEdge fromFirstSecond ∧ Found 10 1 (turns.map (·.exchange)) := by
  obtain ⟨turns, hran, hanswered⟩ := @Interaction.exists_ran_answered Request Request.Answer _ Site
    Outside Site.answer (fun x y => y = x) (fun _ => rfl) ⟨⟨0, 0⟩, .ok ()⟩
    (handle 100 (.appendWorkFlow 10 1 (some fromFirstSecond))) .oneWorkflow
  have hclock := InnerReadings.of_answered hanswered (by decide)
  obtain ⟨i, e, hi, hedge, -, hfound⟩ := (append_breaks_off_iff hran hclock).mp rfl
  cases hi
  exact ⟨turns, _, hran, hedge, hfound⟩

end Service

end WorkflowScheduler
