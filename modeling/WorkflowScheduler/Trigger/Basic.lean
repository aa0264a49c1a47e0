import WorkflowScheduler.Catalog.Basic
import WorkflowScheduler.Cron.Window

/-!
# Triggers

A trigger runs a schedule: it waits for the next fire time within the window of the schedule, fires,
and goes on from there. It never fires twice for one fire time, even if the clock is set back.

## Main definitions

* `TriggerKey`: the identity of a trigger, by project and workflow
* `Trigger`, `Trigger.nextFire`: the fire time that a trigger waits for
* `Trigger.fireTimes`: the fire times over a sequence of clock readings
-/

namespace WorkflowScheduler

/-- The identity of a trigger: a group for the project and a name for the workflow. -/
structure TriggerKey where
  group : String
  name : String
  deriving DecidableEq, Repr

namespace TriggerKey

/-- The group of a project. -/
def groupOf (projectId : Int) : String :=
  "job_group_" ++ toString projectId

/-- The key of a workflow of a project. -/
def ofFlow (projectId flowId : Int) : TriggerKey :=
  ⟨groupOf projectId, "job_flow_" ++ toString flowId⟩

/-- The written form of a key. -/
def display (k : TriggerKey) : String :=
  k.group ++ "." ++ k.name

/-- The order by group and then name. -/
def notAfter (a b : TriggerKey) : Bool :=
  decide (a.group < b.group) || (a.group == b.group && decide (a.name ≤ b.name))

end TriggerKey

/-- A schedule that is installed under a key, with its cron expression as it was then. -/
structure Trigger where
  key : TriggerKey
  schedule : Schedule
  cron : CronExpression
  deriving DecidableEq, Repr

namespace Trigger

/-- **The fire time that a trigger waits for**, given its last one and the clock. Before the start
date it is the first one of the window; later it is the first one after the last one and after the
clock, whichever is later. -/
def nextFire (t : Trigger) (last : Option Instant) (now : Instant) :
    Except OutOfCalendar (Option Instant) := do
  let origin :=
    match last with
    | none => now
    | some l => Instant.latest l now
  let next ←
    if origin < t.schedule.startDate then t.cron.nextAtOrAfter t.schedule.startDate
    else t.cron.nextAfter origin
  .ok (next.filter fun f => f < t.schedule.endDate)

/-- The fire times of a trigger while the clock shows one reading after the other, until there is
none left. -/
def fireTimes (t : Trigger) (last : Option Instant) : List Instant → List Instant
  | [] => []
  | now :: later =>
    match t.nextFire last now with
    | .ok (some f) => f :: fireTimes t (some f) later
    | _ => []

end Trigger

end WorkflowScheduler
