import WorkflowScheduler.Proofs.Firing
import WorkflowScheduler.Proofs.Refusals
import WorkflowScheduler.Proofs.TriggerTable

/-!
# Rounds of a trigger

A trigger looks at the clock in every round, and the clock may be late, stand still or be set back.
For each fire time it waits until the time comes, stores an execution and queues it. Every fire time
comes later than the one before and than what the clock showed; so none is fired twice, whether its
fire has failed or not. As long as the clock is not late by a whole fire time, a trigger that overlooks
nothing fires at all the fire times of its window, which are those of a backfill.

## Main definitions

* `Master.Fires`: what is exchanged in a fire, and what comes of it
* `Trigger.Follows`: rounds that follow one another, and what is exchanged in them
* `Trigger.OnTime`: the clock is never late by a whole fire time
* `storedTimes`, `queuedIds`: the fire times for which executions were to be stored, and what has been
  queued

## Main results

* `Trigger.Follows.reaches`: every fire time is reached once, and in order
* `Trigger.Follows.fired_eq_take`: the fire times of a trigger that overlooks nothing
* `Master.runTrigger_agrees`: the fire times of a run of a trigger
* `Scenario.task_fire`: a task of a scenario goes through the rounds of its trigger
-/

namespace WorkflowScheduler

/-! ## Rounds -/

namespace Master

/-- The fire time of a round, if there was one. -/
def Round.due? (r : Round) : Option Instant :=
  r.fire.map Prod.fst

/-- **The fire times of some rounds**, in their order. -/
def fired (rounds : List Round) : List Instant :=
  rounds.filterMap Round.due?

@[simp] theorem fired_some (now due : Instant) (outcome : Except MasterError Int)
    (rounds : List Round) :
    fired (⟨now, some (due, outcome)⟩ :: rounds) = due :: fired rounds := rfl

/-- The id of the execution that a round has queued, if its fire has succeeded. -/
def Round.execId? (r : Round) : Option Int :=
  r.fire.bind fun f => f.2.toOption

/-- **The executions that some rounds have queued**, in their order. -/
def started (rounds : List Round) : List Int :=
  rounds.filterMap Round.execId?

/-- A fire of a round has failed. -/
def Round.Fails (r : Round) : Prop :=
  ∃ due e, r.fire = some (due, .error e)

end Master

/-! ## What is exchanged in a fire -/

/-- The schedule time of the execution that a request stores, if it stores one. -/
def Request.storedTime? : Request → Option Instant
  | .store (.createExecution e) => some e.scheduleTime
  | _ => none

/-- The execution that a request queues, if it queues one. -/
def Request.queuedId? : Request → Option Int
  | .push e => some e.id
  | _ => none

/-- **The schedule times of the executions that were to be stored**, in the order of the requests. -/
def storedTimes (h : History) : List Instant :=
  h.filterMap fun x => x.1.storedTime?

/-- **The executions that were queued**, in the order of the requests. -/
def queuedIds (h : History) : List Int :=
  h.filterMap fun x => x.1.queuedId?

namespace Master

/-- **What is exchanged to store and queue an execution for a fire time**, and what comes of it. The
workflow is looked up; if it is there an execution is stored; and what has been stored is queued. -/
inductive Materializes (c : Schedule) (due : Instant) : History → Except MasterError Int → Prop
  | unread (e : StoreError) :
      Materializes c due [⟨.store (.workflow c.flowId), .error e⟩] (.error (.store e))
  | missing :
      Materializes c due [⟨.store (.workflow c.flowId), .ok none⟩]
        (.error (.workflowNotFound c.flowId))
  | unstored (w : Workflow) (e : StoreError) :
      Materializes c due [⟨.store (.workflow c.flowId), .ok (some w)⟩,
        ⟨.store (.createExecution (.scheduled w c due)), .error e⟩] (.error (.store e))
  | queued (w : Workflow) (row : Execution) (accepted : Bool) :
      Materializes c due [⟨.store (.workflow c.flowId), .ok (some w)⟩,
        ⟨.store (.createExecution (.scheduled w c due)), .ok row⟩, ⟨.push row, accepted⟩]
        (.ok row.id)

/-- **What is exchanged in a fire**, and what comes of it: it pauses for as long as its fire time is
ahead of the clock, and stores and queues an execution then. -/
inductive Fires (c : Schedule) (due : Instant) : History → Except MasterError Int → Prop
  | after (now : Instant) {h : History} {outcome : Except MasterError Int}
      (hrest : Materializes c due h outcome) :
      Fires c due (⟨.now, now⟩ :: ⟨.pause (due.toMillis - now.toMillis).toNat, ()⟩ :: h) outcome

variable {c : Schedule} {due : Instant} {h : History} {outcome : Except MasterError Int}

/-- A fire asks only the store and the queue once its time has come. -/
theorem Materializes.asks (hm : Materializes c due h outcome) :
    ∀ x ∈ h, (∃ q, x.1 = .store q) ∨ ∃ e, x.1 = .push e := by
  cases hm with
  | unread | missing => simp
  | unstored => simp
  | queued w row accepted =>
    simp only [List.forall_mem_cons]
    exact ⟨.inl ⟨_, rfl⟩, .inl ⟨_, rfl⟩, .inr ⟨_, rfl⟩, by simp⟩

theorem scheduleTime_scheduled (w : Workflow) (c : Schedule) (due : Instant) :
    (NewExecution.scheduled w c due).scheduleTime = due := by
  unfold NewExecution.scheduled NewExecution.overrideTimeout
  split <;> rfl

/-- A fire asks at most once to store an execution, and it is for its fire time. -/
theorem Fires.storedTimes_sublist (hf : Fires c due h outcome) :
    (storedTimes h).Sublist [due] := by
  cases hf with
  | after now hm =>
    cases hm with
    | unread | missing => exact List.nil_sublist _
    | unstored | queued => simp [storedTimes, Request.storedTime?, scheduleTime_scheduled]

/-- A fire that succeeds has stored an execution for its fire time. -/
theorem Fires.storedTimes_eq {id : Int} (hf : Fires c due h (.ok id)) : storedTimes h = [due] := by
  cases hf with
  | after now hm =>
    cases hm with
    | queued => simp [storedTimes, Request.storedTime?, scheduleTime_scheduled]

/-- A fire queues an execution exactly if it succeeds. -/
theorem Fires.queuedIds_eq (hf : Fires c due h outcome) :
    queuedIds h = outcome.toOption.toList := by
  cases hf with
  | after now hm => cases hm <;> rfl

end Master

namespace Trigger

open Master

variable {g : Trigger} {last : Option Instant} {n : Nat} {rounds : List Round} {h : History}

/-- **Rounds of a trigger that follow one another**, at most `n` of them, and what is exchanged in
them. Each round looks at the clock and fires for what the trigger waits for then; the last one finds
nothing, unless there are `n`. -/
inductive Follows (g : Trigger) : Nat → Option Instant → List Round → History → Prop
  | stop (last : Option Instant) : Follows g 0 last [] []
  | finish {n : Nat} {last : Option Instant} {now : Instant}
      (h : g.nextFire last now = .ok none) : Follows g (n + 1) last [⟨now, none⟩] [⟨.now, now⟩]
  | fire {n : Nat} {last : Option Instant} {now due : Instant} {outcome : Except MasterError Int}
      {rounds : List Round} {k l : History} (h : g.nextFire last now = .ok (some due))
      (hfire : Fires g.schedule due k outcome) (hrest : Follows g n (some due) rounds l) :
      Follows g (n + 1) last (⟨now, some (due, outcome)⟩ :: rounds) (⟨.now, now⟩ :: (k ++ l))

/-- What the clock shows in a round is exchanged. -/
theorem Follows.mem_reading (hf : g.Follows n last rounds h) :
    ∀ r ∈ rounds, ⟨.now, r.reading⟩ ∈ h := by
  induction hf with
  | stop => simp
  | finish => simp
  | fire _ _ _ ih =>
    refine List.forall_mem_cons.mpr ⟨List.mem_cons_self, fun r hr => ?_⟩
    exact List.mem_cons_of_mem _ (List.mem_append_right _ (ih r hr))

/-- A trigger that may make a round makes one. -/
theorem Follows.exists_cons (hf : g.Follows (n + 1) last rounds h) :
    ∃ first rest, rounds = first :: rest := by
  cases hf with
  | finish => exact ⟨_, _, rfl⟩
  | fire => exact ⟨_, _, rfl⟩

theorem Follows.storedTimes_sublist (hf : g.Follows n last rounds h) :
    (storedTimes h).Sublist (fired rounds) := by
  induction hf with
  | stop | finish => exact List.nil_sublist _
  | @fire _ _ now due _ rounds k l _ hfire _ ih =>
    show (storedTimes (k ++ l)).Sublist ([due] ++ fired rounds)
    rw [storedTimes, List.filterMap_append]
    exact hfire.storedTimes_sublist.append ih

/-- **Rounds without failure store an execution for each fire time.** -/
theorem Follows.storedTimes_eq (hf : g.Follows n last rounds h) (hrounds : ∀ r ∈ rounds, ¬ r.Fails) :
    storedTimes h = fired rounds := by
  induction hf with
  | stop | finish => rfl
  | @fire _ _ now due outcome rounds k l _ hfire _ ih =>
    obtain ⟨hfirst, hrest⟩ := List.forall_mem_cons.mp hrounds
    cases outcome with
    | error e => exact absurd ⟨due, e, rfl⟩ hfirst
    | ok id =>
      show storedTimes (k ++ l) = [due] ++ fired rounds
      rw [storedTimes, List.filterMap_append, ← ih hrest]
      exact congrArg (· ++ storedTimes l) hfire.storedTimes_eq

/-- **Rounds queue what their fires have stored**, and nothing for a fire that has failed. -/
theorem Follows.queuedIds_eq (hf : g.Follows n last rounds h) : queuedIds h = started rounds := by
  induction hf with
  | stop | finish => rfl
  | @fire _ _ now due outcome rounds k l _ hfire _ ih =>
    show queuedIds (k ++ l) = started (⟨now, some (due, outcome)⟩ :: rounds)
    rw [queuedIds, List.filterMap_append, started, List.filterMap_cons]
    have hk : k.filterMap (fun x => x.1.queuedId?) = outcome.toOption.toList := hfire.queuedIds_eq
    have hl : l.filterMap (fun x => x.1.queuedId?) = rounds.filterMap Round.execId? := ih
    rw [hk, hl]
    cases outcome <;> rfl

/-- **A fire time that a trigger reached by a round**: it lies in the window, and after the last one
and the reading of the round. -/
structure Reaches (g : Trigger) (last : Option Instant) (reading due : Instant) : Prop where
  isMatch : g.cron.Matches due
  start_le : g.schedule.startDate ≤ due
  lt_end : due < g.schedule.endDate
  reading_lt : reading < due
  last_lt : ∀ l, last = some l → l < due

theorem Ready.reaches {now due : Instant} (h : g.Ready last now)
    (hdue : g.nextFire last now = .ok (some due)) : g.Reaches last now due := by
  obtain ⟨o, ho, hspec⟩ := h.nextFire_spec
  rw [hdue, Except.ok.injEq] at ho
  obtain ⟨hmatches, hstart, hend, horigin⟩ := hspec due ho.symm
  obtain ⟨hreading, hlast⟩ := origin_lt_iff.mp horigin
  exact ⟨hmatches, hstart, hend, hreading, hlast⟩

/-- **Every fire time is reached once**, and in order. -/
theorem Follows.reaches (hs : g.cron.sets.Sound) (hstart : g.schedule.startDate.IsInner)
    (hf : g.Follows n last rounds h) (hlast : ∀ l, last = some l → g.cron.Matches l)
    (hreadings : ∀ r ∈ rounds, r.reading.IsInner) :
    (fired rounds).Pairwise (· < ·) ∧
      ∀ r ∈ rounds, ∀ due, r.due? = some due → g.Reaches last r.reading due := by
  induction hf with
  | stop last => exact ⟨List.Pairwise.nil, by simp⟩
  | finish h => exact ⟨List.Pairwise.nil, by simp [Round.due?]⟩
  | @fire n last now due outcome rounds _ _ h _ _ ih =>
    obtain ⟨hnow, hrest⟩ := List.forall_mem_cons.mp hreadings
    have hdue : g.Reaches last now due := Ready.reaches ⟨hs, hstart, hlast, hnow⟩ h
    obtain ⟨hpairwise, hreaches⟩ := ih (by rintro l ⟨⟩; exact hdue.isMatch) hrest
    constructor
    · refine List.pairwise_cons.mpr ⟨fun u hu => ?_, hpairwise⟩
      obtain ⟨r, hr, hu⟩ := List.mem_filterMap.mp hu
      exact (hreaches r hr u hu).last_lt due rfl
    · refine List.forall_mem_cons.mpr ⟨?_, fun r hr u hu => ?_⟩
      · rintro u ⟨⟩
        exact hdue
      · -- what comes after this fire time comes after the last one, too
        have hu := hreaches r hr u hu
        exact { hu with last_lt := fun l hl =>
          Instant.lt_of_lt_of_le (hdue.last_lt l hl) (Instant.le_of_lt (hu.last_lt due rfl)) }

/-- **The clock is on time**: it is never late by a whole fire time. Each reading but the first one
comes before the fire time of the window that is next after the last fire. -/
def OnTime (g : Trigger) (rounds : List Round) : Prop :=
  rounds.IsChain fun r s => ∀ due, r.due? = some due →
    ∀ u, g.cron.Matches u → due < u → u < g.schedule.endDate → s.reading < u

theorem OnTime.tail {r : Round} (h : g.OnTime (r :: rounds)) : g.OnTime rounds := by
  cases rounds with
  | nil => exact List.IsChain.nil
  | cons s rounds => exact (List.isChain_cons_cons.mp h).2

theorem OnTime.reading_lt {now due u : Instant} {outcome : Except MasterError Int}
    (h : g.OnTime (⟨now, some (due, outcome)⟩ :: rounds)) (hu : g.cron.Matches u) (hlt : due < u)
    (hend : u < g.schedule.endDate) : ∀ s, rounds.head? = some s → s.reading < u := by
  intro s hs
  cases rounds with
  | nil => cases hs
  | cons _ _ =>
    cases hs
    exact (List.isChain_cons_cons.mp h).1 due rfl u hu hlt hend

/-- **A trigger that overlooks nothing**: its expression is for every year, and its window starts in
1970 or later. -/
structure Regular (g : Trigger) : Prop where
  sound : g.cron.sets.Sound
  startDate : g.schedule.startDate.IsInner
  everyYear : g.cron.EveryYear
  from1970 : 0 ≤ g.schedule.startDate.seconds

/-- **The fire times that are left to a trigger**: those of its window that come after its last one
and after what its clock shows. -/
structure Left (g : Trigger) (last : Option Instant) (rounds : List Round) (u : Instant) : Prop where
  isMatch : g.cron.Matches u
  start_le : g.schedule.startDate ≤ u
  lt_end : u < g.schedule.endDate
  last_lt : ∀ l, last = some l → l < u
  reading_lt : ∀ r, rounds.head? = some r → r.reading < u

variable {ts : List Instant}

/-- A trigger that overlooks nothing waits for the first of the fire times that are left. -/
theorem Regular.head?_eq {now : Instant} {fire : Option (Instant × Except MasterError Int)}
    {o : Option Instant} (hg : g.Regular) (hlast : ∀ l, last = some l → g.cron.Matches l)
    (hnow : now.IsInner) (hasc : ts.Pairwise (· < ·))
    (hmem : ∀ u, u ∈ ts ↔ g.Left last (⟨now, fire⟩ :: rounds) u)
    (ho : g.nextFire last now = .ok o) : ts.head? = o := by
  obtain ⟨o', ho', hfirst⟩ :=
    Ready.nextFire_everyYear ⟨hg.sound, hg.startDate, hlast, hnow⟩ hg.everyYear hg.from1970
  cases ho.symm.trans ho'
  refine hfirst.head?_eq hasc fun u => (hmem u).trans ?_
  constructor
  · intro hu
    exact ⟨hu.isMatch, hu.start_le, hu.lt_end,
      origin_lt_iff.mpr ⟨hu.reading_lt _ rfl, hu.last_lt⟩⟩
  · rintro ⟨hmatch, hstart, hend, horigin⟩
    obtain ⟨hnow, hlast⟩ := origin_lt_iff.mp horigin
    exact ⟨hmatch, hstart, hend, hlast, by rintro r ⟨⟩; exact hnow⟩

/-- After a fire on time the later ones of the fire times are left. -/
theorem left_tail_iff {now due : Instant} {outcome : Except MasterError Int}
    (hdue : g.Reaches last now due) (htime : g.OnTime (⟨now, some (due, outcome)⟩ :: rounds))
    (hafter : ∀ u ∈ ts, due < u)
    (hmem : ∀ u, u ∈ due :: ts ↔ g.Left last (⟨now, some (due, outcome)⟩ :: rounds) u)
    (u : Instant) : u ∈ ts ↔ g.Left (some due) rounds u := by
  constructor
  · intro hu
    have hleft := (hmem u).mp (List.mem_cons_of_mem _ hu)
    exact ⟨hleft.isMatch, hleft.start_le, hleft.lt_end, by rintro l ⟨⟩; exact hafter u hu,
      htime.reading_lt hleft.isMatch (hafter u hu) hleft.lt_end⟩
  · intro hleft
    have hlt := hleft.last_lt due rfl
    have hu : u ∈ due :: ts := by
      refine (hmem u).mpr ⟨hleft.isMatch, hleft.start_le, hleft.lt_end, fun l hl => ?_, ?_⟩
      · exact Instant.lt_of_lt_of_le (hdue.last_lt l hl) (Instant.le_of_lt hlt)
      · rintro r ⟨⟩
        exact Instant.lt_of_lt_of_le hdue.reading_lt (Instant.le_of_lt hlt)
    rcases List.mem_cons.mp hu with rfl | hu
    · exact absurd hlt (Instant.not_lt.mpr (Instant.le_refl u))
    · exact hu

/-- **A trigger that overlooks nothing and is on time** fires at one after the other of the fire times
that are left. -/
theorem Follows.fired_eq_take (hg : g.Regular) (hf : g.Follows n last rounds h)
    (hlast : ∀ l, last = some l → g.cron.Matches l) (hreadings : ∀ r ∈ rounds, r.reading.IsInner)
    (htime : g.OnTime rounds) (hasc : ts.Pairwise (· < ·))
    (hmem : ∀ u, u ∈ ts ↔ g.Left last rounds u) : fired rounds = ts.take n := by
  -- on the rounds: each one takes the first of the fire times that are left
  induction hf generalizing ts with
  | stop last => rfl
  | finish h =>
    obtain ⟨hnow, -⟩ := List.forall_mem_cons.mp hreadings
    have hnone := hg.head?_eq hlast hnow hasc hmem h
    rw [List.head?_eq_none_iff.mp hnone, List.take_nil]
    rfl
  | fire h _ hrest ih =>
    obtain ⟨hnow, hrounds⟩ := List.forall_mem_cons.mp hreadings
    have hdue := Ready.reaches ⟨hg.sound, hg.startDate, hlast, hnow⟩ h
    obtain ⟨ts, rfl⟩ := List.head?_eq_some_iff.mp (hg.head?_eq hlast hnow hasc hmem h)
    obtain ⟨hafter, hasc⟩ := List.pairwise_cons.mp hasc
    rw [fired_some, List.take_succ_cons]
    refine congrArg _ (ih (by rintro l ⟨⟩; exact hdue.isMatch) hrounds htime.tail hasc ?_)
    exact left_tail_iff hdue htime hafter hmem

end Trigger

/-! ## Runs of a trigger -/

namespace Master

/-- **One fire** always ends. -/
theorem materialize_yields {c : Schedule} {due : Instant} {h : History}
    {result : Option (Except MasterError Int)} (hfire : (materialize c due).run.Yields h result) :
    ∃ outcome, result = some outcome ∧ Materializes c due h outcome := by
  -- the workflow is looked up, an execution is stored, and it is queued
  cases hfire with
  | ask found hfire =>
    rcases found with e | _ | w
    · cases hfire
      exact ⟨_, rfl, .unread e⟩
    · cases hfire
      exact ⟨_, rfl, .missing⟩
    · cases hfire with
      | ask row hfire =>
        rcases row with e | row
        · cases hfire
          exact ⟨_, rfl, .unstored w e⟩
        · cases hfire with
          | ask accepted hfire =>
            cases hfire
            exact ⟨_, rfl, .queued w row accepted⟩

theorem fireAt_yields {c : Schedule} {due : Instant} {h : History}
    {result : Option (Except MasterError Int)} (hfire : (fireAt c due).Yields h result) :
    ∃ outcome, result = some outcome ∧ Fires c due h outcome := by
  cases hfire with
  | ask now hfire =>
    cases hfire with
    | ask _ hfire =>
      obtain ⟨outcome, hresult, hrest⟩ := materialize_yields hfire
      exact ⟨outcome, hresult, .after now hrest⟩

variable {g : Trigger} {last : Option Instant} {n : Nat} {h : History}
  {result : Option (List Round)}

/-- **A run of a trigger** goes through rounds that follow one another, and all that it exchanges
belongs to them. -/
theorem runTrigger_yields (hs : g.cron.sets.Sound) (hstart : g.schedule.startDate.IsInner)
    (hlast : ∀ l, last = some l → g.cron.Matches l) (hrun : (runTrigger g n last).Yields h result)
    (hclock : InnerReadings h) : ∃ rounds, result = some rounds ∧ g.Follows n last rounds h := by
  -- on the number of rounds: the rest of a run begins with the fire time of its first round
  induction n generalizing last h result with
  | zero =>
    cases hrun
    exact ⟨[], rfl, .stop last⟩
  | succ n ih =>
    cases hrun with
    | @ask _ _ h _ now hrun =>
      have hnow : Instant.IsInner now := hclock now List.mem_cons_self
      obtain ⟨o, ho, hspec⟩ := Trigger.Ready.nextFire_spec ⟨hs, hstart, hlast, hnow⟩
      simp only [Interaction.bind, ho] at hrun
      cases o with
      | none =>
        change Interaction.Yields (.done [⟨now, none⟩]) h result at hrun
        cases hrun
        exact ⟨_, rfl, .finish ho⟩
      | some due =>
        change Interaction.Yields ((fireAt g.schedule due).bind fun outcome =>
          (runTrigger g n (some due)).bind fun rounds =>
            .done (⟨now, some (due, outcome)⟩ :: rounds)) h result at hrun
        have hdue : ∀ l, some due = some l → g.cron.Matches l := by
          rintro l ⟨⟩
          exact (hspec due rfl).1
        rcases Interaction.Yields.of_bind hrun with ⟨hnone, -⟩ | ⟨outcome, k, l, rfl, hfire, hrest⟩
        · obtain ⟨_, hsome, -⟩ := fireAt_yields hnone
          cases hsome
        · obtain ⟨_, ⟨⟩, hfires⟩ := fireAt_yields hfire
          have hlater : InnerReadings l := fun t ht =>
            hclock t (List.mem_cons_of_mem _ (List.mem_append_right _ ht))
          obtain ⟨rounds, hrounds, rfl⟩ := hrest.of_map
          obtain ⟨rounds, rfl, hfollows⟩ := ih hdue hrounds hlater
          exact ⟨_, rfl, .fire ho hfires hfollows⟩

end Master

/-- A fire in a scenario changes neither the table of triggers nor the time. -/
theorem Scenario.materialize_run (sc : Scenario) (c : Schedule) (due : Instant) :
    ((Master.materialize c due).run.run answerAtOnce sc).2.triggers = sc.triggers ∧
      ((Master.materialize c due).run.run answerAtOnce sc).2.now = sc.now := by
  obtain ⟨turns, hran, hanswered⟩ := @Interaction.exists_ran_answered Request Request.Answer _
    Scenario Unit (fun _ => answerAtOnce) (fun x y => y = x) (fun _ => rfl) ()
    (Master.materialize c due).run sc
  obtain ⟨_, -, hmaterializes⟩ := Master.materialize_yields hran.yields
  have hkeeps : ∀ u ∈ turns, (u.after.triggers, u.after.now) = (u.before.triggers, u.before.now) := by
    intro u hu
    have hafter := congrArg Prod.snd (hanswered u hu)
    simp only at hafter
    rw [← hafter]
    rcases hmaterializes.asks u.exchange (List.mem_map_of_mem hu) with ⟨q, hq⟩ | ⟨e, he⟩
    · rw [hq]
      rfl
    · rw [he]
      rfl
  have hsame := hran.unchanged (f := fun x => (x.triggers, x.now)) (fun x y h => by rw [h]) hkeeps
  exact ⟨congrArg Prod.fst hsame, congrArg Prod.snd hsame⟩

/-- **The table of a scenario in which a trigger fires.** -/
theorem Scenario.fire_triggers (sc : Scenario) (id : Nat) :
    (sc.fire id).triggers = sc.triggers.fire id sc.now := by
  unfold Scenario.fire TriggerTable.fire
  cases sc.triggers.task? id with
  | none => rfl
  | some k =>
    simp only
    cases k.state with
    | finished | aborted => rfl
    | waiting due =>
      obtain ⟨htriggers, hnow⟩ := sc.materialize_run k.trigger.schedule due
      refine (congrArg Site.triggers (setWake_site _ id)).trans ?_
      simp only [site, htriggers, hnow]

/-- **A task of a scenario goes on as a run of its trigger does**: after a fire it waits for what the
trigger waits for in its next round. -/
theorem Scenario.task_fire {sc : Scenario} {id : Nat} {k : Task} {due : Instant}
    (hk : sc.triggers.task? id = some k) (hdue : k.state = .waiting due) :
    ∃ j, (sc.fire id).triggers.task? id = some j ∧ j.trigger = k.trigger ∧
      j.lastFire = some due ∧ ∀ next, j.state = .waiting next ↔
        k.trigger.nextFire (some due) sc.now = .ok (some next) := by
  refine ⟨k.fired due sc.now, ?_, Task.await_trigger _ _, Task.await_lastFire _ _, fun next => ?_⟩
  · rw [sc.fire_triggers, TriggerTable.task?_fire hk hdue]
  · exact Task.await_state_eq_waiting_iff _ _

namespace Master

variable {g : Trigger} {n : Nat} {h : History} {result : Option (List Round)}

/-- **The fires of a trigger.** A run makes its first round, and rounds that follow it as long as
fire times are left: in each of them the trigger pauses until its fire time, stores an execution for
it if the workflow is there, and queues that. Whatever its clock shows and whatever becomes of its
fires, the fire times are ascending; each of them is one of its window after the reading of its round;
and an execution is to be stored for them at most once each, for each of them if no fire fails. If the
expression is for every year, as one without a field for years is, and the window starts in 1970 or
later, a backfill of the window has all its fire times, and a trigger on time fires at one after the
other of them: at all of them if its clock starts before the window, and otherwise at those that come
after its first reading. -/
theorem runTrigger_agrees (hcron : CronExpression.parse g.schedule.crontab = .ok g.cron)
    (hstart : g.schedule.startDate.IsInner) (hrun : (runTrigger g (n + 1) none).Yields h result)
    (hclock : InnerReadings h) :
    ∃ first rest, result = some (first :: rest) ∧
      g.Follows (n + 1) none (first :: rest) h ∧
      (fired (first :: rest)).Pairwise (· < ·) ∧
      (∀ r ∈ first :: rest, ∀ due, r.due? = some due → g.cron.Matches due ∧
        g.schedule.startDate ≤ due ∧ due < g.schedule.endDate ∧ r.reading < due) ∧
      (storedTimes h).Sublist (fired (first :: rest)) ∧
      ((∀ r ∈ first :: rest, ¬ r.Fails) → storedTimes h = fired (first :: rest)) ∧
      queuedIds h = started (first :: rest) ∧
      (g.cron.EveryYear → 0 ≤ g.schedule.startDate.seconds → ∃ ts : List Instant,
        (∀ u, u ∈ ts ↔ g.cron.Matches u ∧ g.schedule.startDate ≤ u ∧ u < g.schedule.endDate) ∧
        (∀ limit, g.cron.fireTimes g.schedule.startDate g.schedule.endDate limit =
          if ts.length ≤ limit then .ok ts else .error .tooMany) ∧
        (g.OnTime (first :: rest) →
          (first.reading < g.schedule.startDate →
            fired (first :: rest) = ts.take (n + 1)) ∧
          (g.schedule.startDate ≤ first.reading →
            fired (first :: rest) = (ts.filter (first.reading < ·)).take (n + 1)))) := by
  have hs := CronExpression.sound_of_parse hcron
  obtain ⟨rounds, rfl, hfollows⟩ := runTrigger_yields hs hstart (by simp) hrun hclock
  obtain ⟨first, rest, rfl⟩ := hfollows.exists_cons
  have hreadings : ∀ r ∈ first :: rest, r.reading.IsInner := fun r hr =>
    hclock r.reading (hfollows.mem_reading r hr)
  obtain ⟨hascending, hreaches⟩ := hfollows.reaches hs hstart (by simp) hreadings
  refine ⟨first, rest, rfl, hfollows, hascending, fun r hr due hdue => ?_,
    hfollows.storedTimes_sublist, hfollows.storedTimes_eq, hfollows.queuedIds_eq, fun he hpos => ?_⟩
  · have hdue := hreaches r hr due hdue
    exact ⟨hdue.isMatch, hdue.start_le, hdue.lt_end, hdue.reading_lt⟩
  · obtain ⟨ts, hasc, hmem, hwindow⟩ := he.fireTimes_complete hs hstart hpos
    refine ⟨ts, hmem, hwindow, fun htime => ?_⟩
    have hall : fired (first :: rest) = (ts.filter (first.reading < ·)).take (n + 1) := by
      refine hfollows.fired_eq_take ⟨hs, hstart, he, hpos⟩ (by simp) hreadings htime
        (hasc.filter _) fun u => ?_
      rw [List.mem_filter, hmem, decide_eq_true_eq]
      constructor
      · rintro ⟨⟨hmatch, hle, hend⟩, hlt⟩
        exact ⟨hmatch, hle, hend, by simp, by rintro r ⟨⟩; exact hlt⟩
      · intro hleft
        exact ⟨⟨hleft.isMatch, hleft.start_le, hleft.lt_end⟩, hleft.reading_lt first rfl⟩
    refine ⟨fun hbefore => ?_, fun _ => hall⟩
    rw [hall, List.filter_eq_self.mpr]
    intro u hu
    exact decide_eq_true (Instant.lt_of_lt_of_le hbefore ((hmem u).mp hu).2.1)

/-- Midnight on the first day of every year. -/
def everyNewYear : CronExpression where
  source := "0 0 0 1 1 ?"
  sets := ⟨[0], [0], [0], [1], [1], [1, 2, 3, 4, 5, 6, 7], Cron.Domain.years.values⟩

/-- A trigger for it, for three years. -/
def threeYears : Trigger where
  key := .ofFlow 10 1
  schedule := ⟨1, 10, "0 0 0 1 1 ?", ⟨1704067200, 0⟩, ⟨1798761600, 0⟩, .online, .never, [], 1, 0⟩
  cron := everyNewYear

/-- Its rounds while its clock stands still in 1970. -/
def threeRounds : List Round :=
  [⟨⟨0, 0⟩, some (⟨1704067200, 0⟩, .ok 1)⟩, ⟨⟨0, 0⟩, some (⟨1735689600, 0⟩, .ok 2)⟩,
    ⟨⟨0, 0⟩, some (⟨1767225600, 0⟩, .ok 3)⟩, ⟨⟨0, 0⟩, none⟩]

/-- In these rounds executions are stored for the fire times of a backfill, and queued. -/
theorem runTrigger_agrees_threeYears :
    ∃ h, (runTrigger threeYears 5 none).Yields h (some threeRounds) ∧
      everyNewYear.fireTimes ⟨1704067200, 0⟩ ⟨1798761600, 0⟩ 3 = .ok (storedTimes h) ∧
      queuedIds h = [1, 2, 3] := by
  have hcron : CronExpression.parse threeYears.schedule.crontab = .ok threeYears.cron := rfl
  have hyears : threeYears.cron.EveryYear :=
    CronExpression.everyYear_of_parse hcron (by rintro rest ⟨⟩; rfl)
  have hlist : everyNewYear.fireTimes ⟨1704067200, 0⟩ ⟨1798761600, 0⟩ 3 =
      .ok [⟨1704067200, 0⟩, ⟨1735689600, 0⟩, ⟨1767225600, 0⟩] := rfl
  obtain ⟨turns, hran, hanswered⟩ := @Interaction.exists_ran_answered Request Request.Answer _ Site
    Outside Site.answer (fun x y => y = x) (fun _ => rfl) ⟨⟨0, 0⟩, .ok ()⟩
    (runTrigger threeYears 5 none) .oneWorkflow
  have hrun : (runTrigger threeYears 5 none).Yields (turns.map (·.exchange)) (some threeRounds) :=
    hran.yields
  have htime : threeYears.OnTime threeRounds := by
    refine .cons_cons ?_ (.cons_cons ?_ (.cons_cons ?_ (.singleton _)))
    all_goals
      rintro due ⟨⟩ u - hlt -
      exact Instant.lt_of_le_of_lt (by decide) hlt
  have hsucceed : ∀ r ∈ threeRounds, ¬ r.Fails := by
    simp [threeRounds, Round.Fails]
  obtain ⟨first, rest, hrounds, -, -, -, -, hstored, hqueued, hagrees⟩ :=
    runTrigger_agrees hcron (by decide) hrun (InnerReadings.of_answered hanswered (by decide))
  cases hrounds
  obtain ⟨ts, -, hwindow, hfired⟩ := hagrees hyears (by decide)
  obtain ⟨hall, -⟩ := hfired htime
  refine ⟨_, hrun, ?_, hqueued⟩
  -- the window has three fire times, so that the bound on the rounds takes all of them
  have hts := hlist.symm.trans (hwindow 3)
  split at hts
  · cases hts
    rw [hstored hsucceed, hall (by decide)]
    exact hlist
  · cases hts

end Master

end WorkflowScheduler
