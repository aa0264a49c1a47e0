import WorkflowScheduler.Proofs.Site
import WorkflowScheduler.Proofs.TriggerTable

/-!
# Installed triggers

A trigger is installed under the project that was asked for, or, when schedules are restored, under
the project of the schedule; its workflow is that of the schedule. So a workflow has one trigger for
each project under which its schedule has been installed and not been removed since, whichever
project the schedule belongs to now.

## Main definitions

* `ScheduleEvent`, `Site.after`: what happens to schedules and triggers
* `Site.Course`: a sequence of events
* `ScheduleEvent.Installs`, `ScheduleEvent.Removes`: what an event does to a trigger
* `InForce`: a trigger has been installed, and not been removed since

## Main results

* `Site.after_spec`: what one event does to the table of triggers
* `Site.triggers_in_force`: the triggers after a course
-/

namespace WorkflowScheduler

/-! ## Operations on schedules -/

namespace Master

variable {s : Site} {o : Outside}

/-- **The table after the schedule of a workflow was to be installed.** -/
theorem setSchedule_run (projectId flowId : Int) :
    ((setSchedule projectId flowId).run.run (Site.answer o) s).2.triggers =
      match s.store.schedule? flowId with
      | none => s.triggers
      | some c =>
        match CronExpression.parse c.crontab with
        | .error _ => s.triggers
        | .ok e => s.triggers.install o.now ⟨.ofFlow projectId flowId, c, e⟩ := by
  change (Interaction.run (Site.answer o) (match s.store.schedule? flowId with
    | none => throw (.scheduleNotFound flowId)
    | some c => cronExpression c.crontab >>= install (.ofFlow projectId flowId) c :
      Operation Unit).run s).2.triggers = _
  cases s.store.schedule? flowId with
  | none => rfl
  | some c =>
    simp only [cronExpression]
    cases CronExpression.parse c.crontab <;> rfl

/-- The table after schedules were installed one after the other. -/
def installed (now : Instant) (t : TriggerTable) : List Schedule → TriggerTable
  | [] => t
  | c :: cs =>
    match CronExpression.parse c.crontab with
    | .error _ => installed now t cs
    | .ok e => installed now (t.install now ⟨.ofFlow c.projectId c.flowId, c, e⟩) cs

/-- What is counted at the end changes nothing. -/
theorem count_run (op : Operation Nat) (s : Site) :
    ((do let n ← op; pure (n + 1) : Operation Nat).run.run (Site.answer o) s).2 =
      (op.run.run (Site.answer o) s).2 := by
  change (Interaction.run (Site.answer o) (op.run.bind (ExceptT.bindCont fun n => pure (n + 1)))
    s).2 = _
  rw [Interaction.run_bind]
  rcases Interaction.run (Site.answer o) op.run s with ⟨_ | _ | n, t⟩ <;> rfl

theorem installEach_run (cs : List Schedule) (s : Site) :
    ((installEach cs).run.run (Site.answer o) s).2.triggers = installed o.now s.triggers cs := by
  induction cs generalizing s with
  | nil => rfl
  | cons c cs ih =>
    unfold installEach installed
    cases CronExpression.parse c.crontab with
    | error f => exact ih s
    | ok e => exact (congrArg Site.triggers (count_run (installEach cs) _)).trans (ih _)

theorem restore_run :
    (restore.run.run (Site.answer o) s).2.triggers =
      installed o.now s.triggers s.store.onlineSchedules :=
  installEach_run s.store.onlineSchedules s

end Master

/-! ## The trigger of a workflow of a project -/

/-- A schedule that can be installed. -/
def Schedule.Installable (c : Schedule) : Prop :=
  ∃ e, CronExpression.parse c.crontab = .ok e

/-- **A workflow has a trigger under a project**, which may have no fire time left. -/
def TriggerTable.HasTrigger (t : TriggerTable) (projectId flowId : Int) : Prop :=
  t.Holds (.ofFlow projectId flowId)

namespace TriggerTable

variable {t : TriggerTable} {p f : Int}

theorem hasTrigger_install (t : TriggerTable) (now : Instant) {q g : Int} {c : Schedule}
    {e : CronExpression} :
    (t.install now ⟨.ofFlow q g, c, e⟩).HasTrigger p f ↔ (q = p ∧ g = f) ∨ t.HasTrigger p f := by
  refine (t.holds_install now _).trans (or_congr_left ⟨fun heq => ?_, ?_⟩)
  · obtain ⟨rfl, rfl⟩ := TriggerKey.ofFlow_injective heq
    exact ⟨rfl, rfl⟩
  · rintro ⟨rfl, rfl⟩
    rfl

theorem Orderly.remove (h : t.Orderly) (q g : Int) : (t.remove (.ofFlow q g)).2.Orderly := by
  rw [remove_eq]
  exact h.letGo _

theorem hasTrigger_remove {q g : Int} :
    (t.remove (.ofFlow q g)).2.HasTrigger p f ↔ t.HasTrigger p f ∧ ¬ (q = p ∧ g = f) := by
  rw [remove_eq]
  refine holds_letGo.trans (and_congr_right fun _ => ?_)
  rw [decide_eq_false_iff_not]
  refine not_congr ⟨fun heq => ?_, ?_⟩
  · obtain ⟨rfl, rfl⟩ := TriggerKey.ofFlow_injective heq
    exact ⟨rfl, rfl⟩
  · rintro ⟨rfl, rfl⟩
    rfl

theorem Orderly.removeGroup (h : t.Orderly) (q : Int) :
    (t.removeGroup (TriggerKey.groupOf q)).2.Orderly := by
  rw [removeGroup_eq]
  exact h.letGo _

theorem hasTrigger_removeGroup {q : Int} :
    (t.removeGroup (TriggerKey.groupOf q)).2.HasTrigger p f ↔ t.HasTrigger p f ∧ q ≠ p := by
  rw [removeGroup_eq]
  refine holds_letGo.trans (and_congr_right fun _ => ?_)
  rw [decide_eq_false_iff_not]
  refine not_congr ⟨fun heq => (TriggerKey.groupOf_injective heq).symm, ?_⟩
  rintro rfl
  rfl

/-- **What is installed when schedules are restored**: the trigger of each schedule that can be
installed, under its own project. -/
theorem Orderly.installed (h : t.Orderly) (now : Instant) (cs : List Schedule) :
    (Master.installed now t cs).Orderly ∧ ∀ p f, (Master.installed now t cs).HasTrigger p f ↔
      (∃ c ∈ cs, c.projectId = p ∧ c.flowId = f ∧ c.Installable) ∨ t.HasTrigger p f := by
  induction cs generalizing t with
  | nil => exact ⟨h, fun p f => by simp [Master.installed]⟩
  | cons c cs ih =>
    unfold Master.installed
    cases he : CronExpression.parse c.crontab with
    | error fault =>
      obtain ⟨horderly, hhas⟩ := ih h
      refine ⟨horderly, fun p f => (hhas p f).trans ?_⟩
      simp [Schedule.Installable, he]
    | ok e =>
      obtain ⟨horderly, hhas⟩ := ih (h.install now (g := ⟨.ofFlow c.projectId c.flowId, c, e⟩) rfl)
      refine ⟨horderly, fun p f => (hhas p f).trans ?_⟩
      rw [hasTrigger_install, ← or_assoc]
      refine or_congr_left ?_
      simp [Schedule.Installable, he, or_comm]

end TriggerTable

/-! ## Events -/

/-- **What happens to schedules and triggers**: a request about a trigger, a restore, another store,
whatever schedules it holds, or the fire of a task. -/
inductive ScheduleEvent where
  | set (projectId flowId : Int)
  | delete (projectId flowId : Int)
  | deleteAll (projectId : Int)
  | restore
  | edit (store : Store)
  | fire (task : Nat)

/-- **A site after an event.** -/
def Site.after (o : Outside) (s : Site) : ScheduleEvent → Site
  | .set p f => ((Master.setSchedule p f).run.run (answer o) s).2
  | .delete p f => ((Master.deleteSchedule p f).run.run (answer o) s).2
  | .deleteAll p => ((Master.deleteSchedules p).run.run (answer o) s).2
  | .restore => (Master.restore.run.run (answer o) s).2
  | .edit store => { s with store := store }
  | .fire task => { s with triggers := s.triggers.fire task o.now }

namespace ScheduleEvent

/-- **An event installs the trigger of a workflow under a project**, given what is stored. -/
def Installs (store : Store) (ev : ScheduleEvent) (projectId flowId : Int) : Prop :=
  match ev with
  | .set p f => p = projectId ∧ f = flowId ∧ ∃ c, store.schedule? f = some c ∧ c.Installable
  | .restore => ∃ c ∈ store.onlineSchedules, c.projectId = projectId ∧ c.flowId = flowId ∧
      c.Installable
  | _ => False

/-- **An event removes the trigger of a workflow under a project.** -/
def Removes (ev : ScheduleEvent) (projectId flowId : Int) : Prop :=
  match ev with
  | .delete p f => p = projectId ∧ f = flowId
  | .deleteAll p => p = projectId
  | _ => False

end ScheduleEvent

/-- The schedule of a workflow is one of this workflow. -/
theorem Store.flowId_of_schedule? {store : Store} {flowId : Int} {c : Schedule}
    (h : store.schedule? flowId = some c) : c.flowId = flowId := by
  simpa using List.find?_some h

open ScheduleEvent in
/-- **What one event does to the triggers**: the table stays orderly, and a workflow has a trigger
under a project if the event installs it, or if it has had one that the event does not remove. -/
theorem Site.after_spec {s : Site} (h : s.triggers.Orderly) (o : Outside) (ev : ScheduleEvent) :
    (s.after o ev).triggers.Orderly ∧ ∀ p f, (s.after o ev).triggers.HasTrigger p f ↔
      ev.Installs s.store p f ∨ (s.triggers.HasTrigger p f ∧ ¬ ev.Removes p f) := by
  cases ev with
  | set q g =>
    simp only [after, Master.setSchedule_run]
    cases hc : s.store.schedule? g with
    | none => exact ⟨h, fun p f => by simp [Installs, Removes, hc]⟩
    | some c =>
      have hflow := Store.flowId_of_schedule? hc
      cases he : CronExpression.parse c.crontab with
      | error fault =>
        simp only [he]
        exact ⟨h, fun p f => by simp [Installs, Removes, hc, Schedule.Installable, he]⟩
      | ok e =>
        simp only [he]
        refine ⟨h.install o.now (g := ⟨.ofFlow q g, c, e⟩) (by rw [hflow]), fun p f => ?_⟩
        rw [TriggerTable.hasTrigger_install]
        simp [Installs, Removes, hc, Schedule.Installable, he]
  | delete q g =>
    refine ⟨h.remove q g, fun p f => TriggerTable.hasTrigger_remove.trans ?_⟩
    simp [Installs, Removes]
  | deleteAll q =>
    refine ⟨h.removeGroup q, fun p f => TriggerTable.hasTrigger_removeGroup.trans ?_⟩
    simp [Installs, Removes]
  | restore =>
    simp only [after, Master.restore_run]
    obtain ⟨horderly, hhas⟩ := h.installed o.now s.store.onlineSchedules
    refine ⟨horderly, fun p f => (hhas p f).trans ?_⟩
    simp [Installs, Removes]
  | edit store => exact ⟨h, fun p f => by simp [after, Installs, Removes]⟩
  | fire task =>
    refine ⟨h.fire task o.now, fun p f => ?_⟩
    simp [after, Installs, Removes, TriggerTable.HasTrigger, TriggerTable.Holds,
      TriggerTable.held_fire]

/-! ## Courses -/

/-- **A course of events**, each with the store that it found. -/
inductive Site.Course (s : Site) : List (Store × ScheduleEvent) → Site → Prop
  | start : Course s [] s
  | next {events : List (Store × ScheduleEvent)} {t : Site} (h : Course s events t) (o : Outside)
      (ev : ScheduleEvent) : Course s (events ++ [(t.store, ev)]) (t.after o ev)

/-- **The trigger of a workflow is in force under a project**: an event has installed it there, and
no later one has removed it. -/
def InForce (events : List (Store × ScheduleEvent)) (projectId flowId : Int) : Prop :=
  ∃ before store ev later, events = before ++ (store, ev) :: later ∧
    ev.Installs store projectId flowId ∧ ∀ x ∈ later, ¬ x.2.Removes projectId flowId

theorem inForce_append {events : List (Store × ScheduleEvent)} {store : Store}
    {ev : ScheduleEvent} {p f : Int} :
    InForce (events ++ [(store, ev)]) p f ↔
      ev.Installs store p f ∨ (InForce events p f ∧ ¬ ev.Removes p f) := by
  constructor
  · rintro ⟨before, store', ev', later, heq, hinstalls, hlater⟩
    rcases List.eq_nil_or_concat later with rfl | ⟨later, last, rfl⟩
    · obtain ⟨-, heq⟩ := List.append_inj' heq rfl
      cases heq
      exact .inl hinstalls
    · right
      rw [List.concat_eq_append, ← List.cons_append, ← List.append_assoc] at heq
      obtain ⟨hevents, hlast⟩ := List.append_inj' heq rfl
      subst hevents
      obtain rfl := List.singleton_inj.mp hlast
      simp only [List.concat_eq_append, List.forall_mem_append, List.forall_mem_singleton] at hlater
      exact ⟨⟨before, store', ev', later, rfl, hinstalls, hlater.1⟩, hlater.2⟩
  · rintro (hinstalls | ⟨⟨before, store', ev', later, rfl, hinstalls, hlater⟩, hkeeps⟩)
    · exact ⟨events, store, ev, [], rfl, hinstalls, by simp⟩
    · refine ⟨before, store', ev', later ++ [(store, ev)], by simp, hinstalls, ?_⟩
      exact List.forall_mem_append.mpr ⟨hlater, List.forall_mem_singleton.mpr hkeeps⟩

variable {s t : Site} {events : List (Store × ScheduleEvent)}

/-- **What a course does to the triggers.** -/
theorem Site.Course.spec (h : s.Course events t) (hs : s.triggers = .empty) :
    t.triggers.Orderly ∧ ∀ p f, t.triggers.HasTrigger p f ↔ InForce events p f := by
  induction h with
  | start =>
    rw [hs]
    refine ⟨TriggerTable.orderly_empty, fun p f => iff_of_false ?_ ?_⟩
    · rintro ⟨id, hid⟩
      exact absurd hid List.not_mem_nil
    · rintro ⟨before, store, ev, later, heq, -⟩
      simp at heq
  | next h o ev ih =>
    obtain ⟨horderly, hhas⟩ := ih
    obtain ⟨hafter, hstep⟩ := Site.after_spec horderly o ev
    refine ⟨hafter, fun p f => ?_⟩
    rw [hstep, inForce_append, hhas]

/-- **A workflow has one trigger for each project under which it was installed.** Whatever is
requested, restored and stored: a task that will still fire is that of its workflow under a project
where this is in force, and it is the only one there; a workflow has a trigger under a project exactly
if it is in force there; and once all triggers of a project have been removed, none of its tasks will
still fire. So two triggers of one workflow are under two projects. -/
theorem Site.triggers_in_force (h : s.Course events t) (hs : s.triggers = .empty) :
    (∀ k ∈ t.triggers.tasks, k.isLive = true → ∃ p,
      k.trigger.key = .ofFlow p k.trigger.schedule.flowId ∧
        InForce events p k.trigger.schedule.flowId) ∧
    (∀ j ∈ t.triggers.tasks, ∀ k ∈ t.triggers.tasks, j.isLive = true → k.isLive = true →
      j.trigger.key = k.trigger.key → j = k) ∧
    (∀ p f, t.triggers.HasTrigger p f ↔ InForce events p f) ∧
    (∀ before store p, events = before ++ [(store, .deleteAll p)] → ∀ k ∈ t.triggers.tasks,
      k.isLive = true → k.trigger.key.group ≠ TriggerKey.groupOf p) := by
  obtain ⟨horderly, hhas⟩ := h.spec hs
  have hlive : ∀ k ∈ t.triggers.tasks, k.isLive = true → ∃ p,
      k.trigger.key = .ofFlow p k.trigger.schedule.flowId ∧
        InForce events p k.trigger.schedule.flowId := by
    intro k hk hklive
    obtain ⟨p, hkey⟩ := horderly.keyed k hk
    have hheld := horderly.live k hk hklive
    rw [hkey] at hheld
    exact ⟨p, hkey, (hhas p _).mp ⟨_, hheld⟩⟩
  refine ⟨hlive, fun j hj k hk => horderly.live_unique hj hk, hhas, ?_⟩
  rintro before store p rfl k hk hklive hgroup
  obtain ⟨q, hkey, hforce⟩ := hlive k hk hklive
  rw [hkey] at hgroup
  obtain rfl := TriggerKey.groupOf_injective hgroup
  rcases inForce_append.mp hforce with hinstalls | ⟨-, hkeeps⟩
  · exact hinstalls
  · exact hkeeps rfl

/-- A site with one schedule, for the first days of three years. -/
def Site.oneSchedule : Site :=
  ⟨{ Store.empty with schedules := [⟨1, 10, "0 0 0 1 1 ?", ⟨1704067200, 0⟩, ⟨1798761600, 0⟩, .online,
      .never, [], 1, 0⟩] }, .empty, .empty, .empty⟩

/-- The schedule is installed for its project, and for another one. -/
def installedTwice : List (Store × ScheduleEvent) :=
  [(Site.oneSchedule.store, .set 10 1), (Site.oneSchedule.store, .set 99 1)]

/-- A workflow with two triggers that will both fire. -/
theorem triggers_in_force_installedTwice :
    ∃ t, Site.oneSchedule.Course installedTwice t ∧ InForce installedTwice 10 1 ∧
      InForce installedTwice 99 1 ∧ (t.triggers.tasks.filter Task.isLive).map
        (fun k => (k.id, k.trigger.schedule.flowId)) = [(0, 1), (1, 1)] := by
  let o : Outside := ⟨⟨0, 0⟩, .ok ()⟩
  have hcourse : Site.oneSchedule.Course installedTwice
      ((Site.oneSchedule.after o (.set 10 1)).after o (.set 99 1)) :=
    .next (.next .start o (.set 10 1)) o (.set 99 1)
  obtain ⟨-, -, hhas, -⟩ := Site.triggers_in_force hcourse rfl
  refine ⟨_, hcourse, (hhas 10 1).mp ⟨0, ?_⟩, (hhas 99 1).mp ⟨1, ?_⟩, ?_⟩
  · decide +kernel
  · decide +kernel
  · decide +kernel

end WorkflowScheduler
