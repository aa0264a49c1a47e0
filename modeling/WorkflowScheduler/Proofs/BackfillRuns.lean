import WorkflowScheduler.Proofs.Backfill
import WorkflowScheduler.Proofs.Reactions

/-!
# The runs of a backfill

A backfill stores and queues one run for each fire time of its window, one after the other. Before
the first of them it has checked everything that could make it fail, so that it makes either all of
its runs or none. Once the queue has lost its consumer the runs are stored all the same, and wait
for a recovery.

## Main definitions

* `CronExpression.FollowsOn`, `CronExpression.Fires`: the fire times of a window, one by one
* `Master.Admits`: what a backfill needs to succeed
* `Execution.IsBackfillOf`: a run of a workflow for a fire time
* `Master.Backfilled`: what a backfill leaves behind

## Main results

* `CronExpression.fireTimes_eq_ok_iff`: when a window has a list of fire times
* `Master.submitEach_alone`: what is stored and queued
* `Master.backfill_alone`: when a backfill succeeds, and what it does
* `Master.backfill_exact`: a backfill makes one run for each fire time, or none at all
-/

namespace WorkflowScheduler

/-! ## Fire times one after the other -/

namespace CronExpression

variable {e : CronExpression} {start stop : Instant} {o : Option Instant} {ts : List Instant}

/-- **Fire times one after the other**: from one of them on, each the first after the one before, as
long as they lie before an end. -/
inductive FollowsOn (e : CronExpression) (stop : Instant) : Option Instant → List Instant → Prop
  | none : FollowsOn e stop none []
  | past {t : Instant} (h : stop ≤ t) : FollowsOn e stop (some t) []
  | fire {t : Instant} {o : Option Instant} {ts : List Instant} (h : t < stop)
      (hnext : e.nextAfter t = .ok o) (hr : FollowsOn e stop o ts) :
      FollowsOn e stop (some t) (t :: ts)

/-- **The fire times of a window, one after the other**, from the first one that is not before its
start. -/
def Fires (e : CronExpression) (start stop : Instant) (ts : List Instant) : Prop :=
  ∃ o, e.nextAtOrAfter start = .ok o ∧ e.FollowsOn stop o ts

/-- Where there is room for all of them, a chain lists the fire times that follow on. -/
theorem FollowsOn.chain_eq (h : e.FollowsOn stop o ts) (room : Nat) :
    e.chain stop room o = if ts.length ≤ room then .ok ts else .error .tooMany := by
  induction h generalizing room with
  | none => simpa using chain_none room
  | past hle => simpa using chain_of_le hle room
  | fire hlt hnext _ ih => exact chain_cons hlt hnext ih room

/-- A chain that is given consists of fire times that follow on. -/
theorem followsOn_of_chain {room : Nat} (h : e.chain stop room o = .ok ts) :
    e.FollowsOn stop o ts := by
  fun_induction chain e stop room o generalizing ts with
  | case1 room =>
    cases h
    exact .none
  | case2 room t hle =>
    cases h
    exact .past hle
  | case3 t hle => cases h
  | case4 t hle room ih =>
    cases ho : e.nextAfter t with
    | error x =>
      rw [ho] at h
      cases h
    | ok o =>
      rw [ho] at h
      change (e.chain stop room o >>= fun ts => .ok (t :: ts)) = _ at h
      cases hts : e.chain stop room o with
      | error x =>
        rw [hts] at h
        cases h
      | ok us =>
        rw [hts] at h
        cases h
        exact .fire (Instant.lt_of_not_le hle) ho (ih o hts)

/-- **A window has a list of fire times** exactly if no more follow on than are allowed. -/
theorem fireTimes_eq_ok_iff (h : start < stop) {limit : Nat} :
    e.fireTimes start stop limit = .ok ts ↔ e.Fires start stop ts ∧ ts.length ≤ limit := by
  constructor
  · intro hts
    obtain ⟨o, ho⟩ := nextAtOrAfter_of_fireTimes h hts
    rw [fireTimes_eq h ho] at hts
    have hfollows := followsOn_of_chain hts
    rw [hfollows.chain_eq] at hts
    refine ⟨⟨o, ho, hfollows⟩, Decidable.of_not_not fun hlength => ?_⟩
    rw [if_neg hlength] at hts
    cases hts
  · rintro ⟨⟨o, ho, hfollows⟩, hlength⟩
    rw [fireTimes_eq h ho, hfollows.chain_eq, if_pos hlength]

end CronExpression

/-! ## Runs -/

/-- **A run of a workflow for a fire time**, as it is stored: it waits, nobody has it yet, and it is
as the workflow asks for. -/
structure Execution.IsBackfillOf (row : Execution) (w : Workflow) : Prop where
  runKind : row.runKind = .backfill
  status : row.status = .init
  worker : row.worker = none
  times : row.startTime = none ∧ row.endTime = none
  workflow : row.projectId = w.projectId ∧ row.flowId = w.id ∧ row.flowKind = w.flowKind
  settings : row.submitUserId = w.ownerId ∧ row.timeout = w.timeout ∧
    row.workflowData = w.workflowData ∧ row.maxTryTimes = 1 ∧ row.nodeName = none ∧
      row.nodeScope = .nodeOnly ∧ row.notification = .never ∧ row.notifyMails = []

namespace Master

open Operation

variable {w : Workflow} {ts : List Instant} {s t : Site}

/-- The terms of an operation while nobody else does anything. -/
def unaccompanied : Terms Request.Answer Site Outside where
  answer := Site.answer
  rely := Eq
  may _ _ _ := True
  rely_trans := Eq.trans
  rely_self _ := rfl

/-- **The rows of the runs for some fire times**, in their order, and numbered on from a number. -/
inductive RunsFor (w : Workflow) : Int → List Instant → List Execution → Prop
  | nil (n : Int) : RunsFor w n [] []
  | cons {n : Int} {u : Instant} {us : List Instant} {rows : List Execution} (now : Instant)
      (h : RunsFor w (n + 1) us rows) :
      RunsFor w n (u :: us) (Store.newRow (n + 1) now (.backfill w u) :: rows)

namespace RunsFor

variable {n : Int} {rows : List Execution}

theorem length_eq (h : RunsFor w n ts rows) : rows.length = ts.length := by
  induction h with
  | nil n => rfl
  | cons now _ ih => exact congrArg (· + 1) ih

theorem times_eq (h : RunsFor w n ts rows) : rows.map (·.scheduleTime) = ts := by
  induction h with
  | nil n => rfl
  | cons now _ ih => exact congrArg (_ :: ·) ih

theorem ids_eq (h : RunsFor w n ts rows) :
    rows.map (·.id) = (List.range ts.length).map fun i : Nat => n + 1 + i := by
  induction h with
  | nil n => rfl
  | @cons n u us rows now _ ih =>
    rw [List.map_cons, ih, List.length_cons, List.range_succ_eq_map, List.map_cons, List.map_map]
    refine List.cons_eq_cons.mpr ⟨?_, List.map_congr_left fun i _ => ?_⟩
    · simp [Store.newRow]
    · simp only [Function.comp_apply, Nat.succ_eq_add_one]
      push_cast
      omega

theorem isBackfillOf (h : RunsFor w n ts rows) : ∀ row ∈ rows, row.IsBackfillOf w := by
  induction h with
  | nil n => exact fun row hrow => absurd hrow List.not_mem_nil
  | cons now _ ih =>
    exact List.forall_mem_cons.mpr ⟨⟨rfl, rfl, rfl, ⟨rfl, rfl⟩, ⟨rfl, rfl, rfl⟩,
      ⟨rfl, rfl, rfl, rfl, rfl, rfl, rfl, rfl⟩⟩, ih⟩

end RunsFor

/-- A site after rows have been stored and queued one after the other. -/
def submitted (s : Site) (rows : List Execution) : Site :=
  { s with
    store := { s.store with
      rows := s.store.rows ++ rows
      lastId := s.store.lastId + rows.length }
    queue := Dispatch.pushAll s.queue rows }

theorem submitted_append (s : Site) (rows rest : List Execution) :
    submitted (submitted s rows) rest = submitted s (rows ++ rest) := by
  simp [submitted, Dispatch.pushAll, List.foldl_append, Int.add_assoc]

theorem submit_eq (n : NewExecution) :
    (submit n).run = .ask (.store (.createExecution n)) fun
      | .ok row => .ask (.push row) fun _ => .done (.ok row.id)
      | .error x => .done (.error (.store x)) :=
  congrArg (Interaction.ask _) <| funext fun
    | .ok _ => rfl
    | .error _ => rfl

/-- One execution is stored under the next id, and queued. -/
theorem submit_alone (n : NewExecution) (h : History) (s : Site) :
    (submit n).run.Keeps unaccompanied (fun _ r t => ∃ id, r = some (.ok id) ∧ ∃ now,
      id = s.store.lastId + 1 ∧ t = submitted s [Store.newRow id now n]) h s := by
  rw [submit_eq]
  rintro t rfl
  refine ⟨trivial, fun o => ?_⟩
  rintro u rfl
  refine ⟨trivial, fun o' => ?_⟩
  rintro v rfl
  exact ⟨_, rfl, o.now, rfl, rfl⟩

/-- **What is stored and queued**: one row for each fire time, and the answer lists their ids. -/
theorem submitEach_alone (w : Workflow) (ts : List Instant) (h : History) (s : Site) :
    (submitEach w ts).run.Keeps unaccompanied (fun _ r t => ∃ ids, r = some (.ok ids) ∧
      ∃ rows, ids = rows.map (·.id) ∧ RunsFor w s.store.lastId ts rows ∧ t = submitted s rows)
      h s := by
  induction ts generalizing h s with
  | nil =>
    rintro t rfl
    exact ⟨_, rfl, [], rfl, .nil _, by simp [submitted, Dispatch.pushAll]⟩
  | cons u us ih =>
    refine keeps_andThen (submit_alone (.backfill w u) h s) fun id k t ht => ?_
    obtain ⟨now, rfl, rfl⟩ := ht t rfl
    refine keeps_andThen (ih k _) fun ids l t ht => ?_
    obtain ⟨rows, rfl, hrows, rfl⟩ := ht t rfl
    rintro v rfl
    exact ⟨_, rfl, _, rfl, .cons now hrows, submitted_append s [_] rows⟩

/-! ## The whole backfill -/

/-- **What a backfill needs to succeed**: its workflow is there and belongs to the project, its
expression can be read, its window is not empty, and the fire times that follow on in it are no more
than allowed. -/
structure Admits (limit : Nat) (projectId flowId : Int) (cron : String) (start stop : Instant)
    (s : Site) (w : Workflow) (ts : List Instant) : Prop where
  found : s.store.workflow? flowId = some w
  project : w.projectId = projectId
  window : ∃ e, CronExpression.parse cron = .ok e ∧ start < stop ∧ e.Fires start stop ts
  room : ts.length ≤ limit

/-- **How a backfill ends**: it has made its runs, or it has changed nothing, and does not break off
if the search can begin before its window. -/
def BackfillEnds (limit : Nat) (projectId flowId : Int) (cron : String) (start stop : Instant)
    (s : Site) (r : Option (Except MasterError (List Int))) (t : Site) : Prop :=
  (∃ w ts rows, Admits limit projectId flowId cron start stop s w ts ∧
    r = some (.ok (rows.map (·.id))) ∧ RunsFor w s.store.lastId ts rows ∧ t = submitted s rows) ∨
  (¬ ∃ w ts, Admits limit projectId flowId cron start stop s w ts) ∧
    (∀ ids, r ≠ some (.ok ids)) ∧ t = s ∧ (start.HasSecondBefore → r ≠ none)

variable {limit : Nat} {projectId flowId : Int} {cron : String} {start stop : Instant}

theorem workflow_alone (projectId flowId : Int) (h : History) (s : Site) :
    (workflow projectId flowId).run.Keeps unaccompanied (fun _ r t => t = s ∧
      ((∃ w, r = some (.ok w) ∧ s.store.workflow? flowId = some w ∧ w.projectId = projectId) ∨
        (∃ x, r = some (.error x)) ∧
          ¬ ∃ w, s.store.workflow? flowId = some w ∧ w.projectId = projectId)) h s := by
  have hread : (Operation.store (.workflow flowId)).run.Keeps unaccompanied (fun _ r t =>
      ∃ found, r = some (.ok found) ∧ t = s ∧ found = s.store.workflow? flowId) h s := by
    rw [store_run]
    rintro t rfl
    refine ⟨trivial, fun o => ?_⟩
    rintro u rfl
    exact ⟨_, rfl, rfl, rfl⟩
  apply keeps_andThen hread
  intro found k t ht
  obtain ⟨rfl, rfl⟩ := ht t rfl
  cases hw : t.store.workflow? flowId with
  | none =>
    rintro u rfl
    exact ⟨rfl, .inr ⟨⟨_, rfl⟩, by simp⟩⟩
  | some w =>
    by_cases hproject : w.projectId = projectId
    · simp only [if_pos hproject]
      rintro u rfl
      exact ⟨rfl, .inl ⟨w, rfl, rfl, hproject⟩⟩
    · simp only [if_neg hproject]
      rintro u rfl
      exact ⟨rfl, .inr ⟨⟨_, rfl⟩, by simp [hproject]⟩⟩

/-- A backfill that cannot have its runs ends without a change. -/
theorem BackfillEnds.refused {r : Option (Except MasterError (List Int))}
    (hnone : ∀ e, CronExpression.parse cron = .ok e → start < stop →
      ∀ ts, e.Fires start stop ts → ¬ ts.length ≤ limit)
    (hr : ∀ ids, r ≠ some (.ok ids)) (hcrash : start.HasSecondBefore → r ≠ none) :
    BackfillEnds limit projectId flowId cron start stop s r s := by
  refine .inr ⟨?_, hr, rfl, hcrash⟩
  rintro ⟨v, ts, -, -, ⟨e, he, hlt, hfires⟩, hroom⟩
  exact hnone e he hlt ts hfires hroom

/-- What follows once the expression has been read and the window is not empty. -/
theorem window_alone {e : CronExpression} (hfound : s.store.workflow? flowId = some w)
    (hproject : w.projectId = projectId) (he : CronExpression.parse cron = .ok e)
    (hlt : start < stop) (h : History) :
    (window e start stop limit >>= submitEach w).run.Keeps unaccompanied
      (fun _ r t => BackfillEnds limit projectId flowId cron start stop s r t) h s := by
  -- whatever else is the matter with the window, it has no list of fire times
  have hnone (hts : ∀ ts, e.fireTimes start stop limit ≠ .ok ts) :
      ∀ e', CronExpression.parse cron = .ok e' → start < stop →
        ∀ ts, e'.Fires start stop ts → ¬ ts.length ≤ limit := by
    intro e' he' hlt ts hfires hroom
    cases he.symm.trans he'
    exact hts ts ((CronExpression.fireTimes_eq_ok_iff hlt).mpr ⟨hfires, hroom⟩)
  unfold window
  cases hts : e.fireTimes start stop limit with
  | ok ts =>
    obtain ⟨hfires, hroom⟩ := (CronExpression.fireTimes_eq_ok_iff hlt).mp hts
    refine (submitEach_alone w ts h s).imp ?_
    rintro k r t ⟨_, hr, rows, rfl, hrows, ht⟩
    exact .inl ⟨w, ts, rows, ⟨hfound, hproject, ⟨e, he, hlt, hfires⟩, hroom⟩, hr, hrows, ht⟩
  | error f =>
    have hnone := hnone (by simp [hts])
    cases f with
    | tooMany =>
      rintro t rfl
      exact .refused hnone (by simp) (by simp)
    | outOfCalendar =>
      rintro t rfl
      refine .refused hnone (by simp) fun hsecond => ?_
      have hs := CronExpression.sound_of_parse he
      exact absurd hts (CronExpression.fireTimes_ne_outOfCalendar hs hsecond limit)

/-- What follows once the workflow has been found. -/
theorem checks_alone (hfound : s.store.workflow? flowId = some w)
    (hproject : w.projectId = projectId) (h : History) :
    (do
      let e ← cronExpression cron
      if stop ≤ start then
        throw (.validation
          ("start date " ++ start.display ++ " must be before end date " ++ stop.display))
      else do
        let times ← window e start stop limit
        submitEach w times : Operation (List Int)).run.Keeps unaccompanied
      (fun _ r t => BackfillEnds limit projectId flowId cron start stop s r t) h s := by
  cases he : CronExpression.parse cron with
  | error f =>
    simp only [cronExpression, he]
    rintro t rfl
    exact .refused (by simp [he]) (by simp) (by simp)
  | ok e =>
    simp only [cronExpression, he]
    change (if stop ≤ start then _ else window e start stop limit >>= submitEach w :
      Operation (List Int)).run.Keeps unaccompanied _ h s
    by_cases hle : stop ≤ start
    · simp only [if_pos hle]
      rintro t rfl
      exact .refused (fun _ _ hlt => absurd hlt (Instant.not_lt.mpr hle)) (by simp) (by simp)
    · simp only [if_neg hle]
      exact window_alone hfound hproject he (Instant.lt_of_not_le hle) h

/-- **A backfill that nobody accompanies** makes all of its runs, or changes nothing. -/
theorem backfill_alone (limit : Nat) (projectId flowId : Int) (cron : String)
    (start stop : Instant) (h : History) (s : Site) :
    (backfill limit projectId flowId cron start stop).run.Keeps unaccompanied
      (fun _ r t => BackfillEnds limit projectId flowId cron start stop s r t) h s := by
  refine keeps_bind (workflow_alone projectId flowId h s) ?_ ?_ ?_
  · intro w k t ht
    obtain ⟨rfl, ⟨_, ⟨⟩, hfound, hproject⟩ | ⟨⟨x, hx⟩, -⟩⟩ := ht t rfl
    · exact checks_alone hfound hproject k
    · cases hx
  · rintro x k t ⟨rfl, ⟨w, hw, -⟩ | ⟨-, hnone⟩⟩
    · cases hw
    · exact .inr ⟨fun ⟨w, _, ha⟩ => hnone ⟨w, ha.found, ha.project⟩, by simp, rfl, by simp⟩
  · rintro k t ⟨-, ⟨w, hw, -⟩ | ⟨⟨x, hx⟩, -⟩⟩
    · cases hw
    · cases hx

theorem Admits.unique {v : Workflow} {us : List Instant}
    (h : Admits limit projectId flowId cron start stop s w ts)
    (k : Admits limit projectId flowId cron start stop s v us) : v = w ∧ us = ts := by
  obtain ⟨e, he, hlt, hts⟩ := h.window
  obtain ⟨f, hf, -, hus⟩ := k.window
  cases he.symm.trans hf
  have hboth := (CronExpression.fireTimes_eq_ok_iff hlt).mpr ⟨hts, h.room⟩
  rw [(CronExpression.fireTimes_eq_ok_iff hlt).mpr ⟨hus, k.room⟩] at hboth
  exact ⟨Option.some.inj (k.found.symm.trans h.found), Except.ok.inj hboth⟩

/-- **What a backfill leaves behind**: the rows of its runs, one for each fire time. -/
structure Backfilled (w : Workflow) (ts : List Instant) (s : Site) (rows : List Execution)
    (t : Site) : Prop where
  /-- The ids are given on from the last one, in the order of the fire times. -/
  ids : rows.map (·.id) = (List.range ts.length).map fun i : Nat => s.store.lastId + 1 + i
  fresh : (∀ row ∈ s.store.rows, row.id ≤ s.store.lastId) →
    ∀ row ∈ rows, s.store.execution? row.id = none
  times : rows.map (·.scheduleTime) = ts
  runs : ∀ row ∈ rows, row.IsBackfillOf w
  /-- Nothing else changes in the store. -/
  store : t.store = { s.store with
    rows := s.store.rows ++ rows
    lastId := s.store.lastId + ts.length }
  /-- Each row is pushed once, in this order. -/
  queue : t.queue = Dispatch.pushAll s.queue rows
  of_hasConsumer : s.queue.hasConsumer = true → t.queue.waiting = s.queue.waiting ++ rows
  of_closed : s.queue.hasConsumer = false → t.queue = s.queue
  registry : t.registry = s.registry
  triggers : t.triggers = s.triggers

theorem RunsFor.backfilled {rows : List Execution} (h : RunsFor w s.store.lastId ts rows) :
    Backfilled w ts s rows (submitted s rows) where
  ids := h.ids_eq
  fresh hle row hrow := by
    have hid : row.id ∈ rows.map (·.id) := List.mem_map_of_mem hrow
    rw [h.ids_eq] at hid
    obtain ⟨i, -, hi⟩ := List.mem_map.mp hid
    refine List.find?_eq_none.mpr fun d hd => ?_
    have := hle d hd
    simp only [decide_eq_true_eq]
    omega
  times := h.times_eq
  runs := h.isBackfillOf
  store := by rw [← h.length_eq]; rfl
  queue := rfl
  of_hasConsumer hc := Dispatch.waiting_pushAll hc rows
  of_closed hc := Dispatch.pushAll_of_closed hc rows
  registry := rfl
  triggers := rfl

/-- **A backfill makes one run for each fire time, or none at all.** Whatever the site holds and
whenever its requests are answered, it succeeds exactly if its workflow is there and belongs to the
project, its expression can be read, its window is not empty and has no more fire times than
allowed; then it has stored one row for each fire time and pushed each once, in their order. If it
does not succeed it changes nothing, and it does not break off if the search can begin before its
window. -/
theorem backfill_exact (limit : Nat) (projectId flowId : Int) (cron : String)
    (start stop : Instant) (s : Site) (outside : Nat → Outside) :
    let c := ((backfill limit projectId flowId cron start stop).run.course Site.answer outside s).2
    ((∃ ids, c.1 = some (.ok ids)) ↔
      ∃ w ts, Admits limit projectId flowId cron start stop s w ts) ∧
    (∀ w ts, Admits limit projectId flowId cron start stop s w ts →
      ∃ rows, c.1 = some (.ok (rows.map (·.id))) ∧ Backfilled w ts s rows c.2) ∧
    ((∀ ids, c.1 ≠ some (.ok ids)) → c.2 = s) ∧
    (start.HasSecondBefore → c.1 ≠ none) := by
  intro c
  have hends : BackfillEnds limit projectId flowId cron start stop s c.1 c.2 :=
    (backfill_alone limit projectId flowId cron start stop [] s).ran (fun _ _ h => h)
      (Interaction.ran_course Site.answer _ outside s)
  rcases hends with ⟨w, ts, rows, hadmits, hc, hrows, ht⟩ | ⟨hnone, hc, ht, hcrash⟩
  · refine ⟨iff_of_true ⟨_, hc⟩ ⟨w, ts, hadmits⟩, ?_, fun h => absurd hc (h _), by simp [hc]⟩
    intro v us hv
    obtain ⟨rfl, rfl⟩ := hadmits.unique hv
    exact ⟨rows, hc, ht ▸ hrows.backfilled⟩
  · refine ⟨iff_of_false (fun ⟨ids, h⟩ => hc ids h) hnone, ?_, fun _ => ht, hcrash⟩
    exact fun w ts h => absurd ⟨w, ts, h⟩ hnone

/-- A site whose queue has lost its consumer. -/
def unattended : Site :=
  { Site.oneWorkflow with queue := Queue.empty.close }

/-- The runs of a backfill are stored and not queued. -/
theorem backfill_unattended :
    let c := ((backfill 10 10 1 "0 0 0 1 1 ? 2024,2026" ⟨1704067200, 0⟩ ⟨1798761600, 0⟩).run.course
      Site.answer (fun _ => ⟨⟨0, 0⟩, .ok ()⟩) unattended).2
    c.1 = some (.ok [1, 2]) ∧ c.2.store.rows.map (·.id) = [1, 2] ∧
      c.2.queue.waiting ≠ unattended.queue.waiting ++ c.2.store.rows := by
  decide +kernel

end Master

end WorkflowScheduler
