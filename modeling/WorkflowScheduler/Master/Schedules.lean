import WorkflowScheduler.Master.Operations

/-!
# Operations on schedules

How schedules are installed as triggers and removed again, what a trigger does when it fires, and how
it goes on from one fire time to the next.

## Main definitions

* `Master.setSchedule`, `Master.deleteSchedule`, `Master.deleteSchedules`
* `Master.restore`: install every schedule in force
* `Master.materialize`: one fire of a schedule
* `Master.runTrigger`: the rounds of a trigger, each with the fire that it waits for
-/

namespace WorkflowScheduler.Master

/-- Run a schedule under a key, in place of what ran there. -/
def install (key : TriggerKey) (s : Schedule) (cron : CronExpression) : Operation Unit := do
  let task : Nat ← Operation.request (.spawnTrigger ⟨key, s, cron⟩)
  Operation.request (.enterTrigger key task)

/-- **Install the stored schedule of a workflow**, under the project that was asked for. -/
def setSchedule (projectId flowId : Int) : Operation Unit := do
  let found : Option Schedule ← Operation.store (.schedule flowId)
  match found with
  | none => throw (.scheduleNotFound flowId)
  | some s => do
    let cron ← cronExpression s.crontab
    install (.ofFlow projectId flowId) s cron

/-- **Remove the trigger of a workflow.** The answer says whether there was one. -/
def deleteSchedule (projectId flowId : Int) : Operation Bool :=
  Operation.request (.removeTrigger (.ofFlow projectId flowId))

/-- **Remove all triggers of a project.** The answer is how many there were. -/
def deleteSchedules (projectId : Int) : Operation Nat :=
  Operation.request (.removeTriggers (TriggerKey.groupOf projectId))

/-- Install schedules one after the other; those whose expression cannot be read are passed over. -/
def installEach : List Schedule → Operation Nat
  | [] => pure 0
  | s :: ss =>
    match CronExpression.parse s.crontab with
    | .error _ => installEach ss
    | .ok cron => do
      install (.ofFlow s.projectId s.flowId) s cron
      let n ← installEach ss
      pure (n + 1)

/-- **Install every schedule in force.** The answer is how many could be installed. -/
def restore : Operation Nat := do
  let schedules : List Schedule ← Operation.store .onlineSchedules
  installEach schedules

/-- **One fire of a schedule**: an execution for the fire time is stored and queued. -/
def materialize (s : Schedule) (fireTime : Instant) : Operation Int := do
  let found : Option Workflow ← Operation.store (.workflow s.flowId)
  match found with
  | none => throw (.workflowNotFound s.flowId)
  | some w => submit (.scheduled w s fireTime)

/-- Wait for a fire time, and fire. -/
def fireAt (s : Schedule) (due : Instant) : Program (Except MasterError Int) := do
  let now : Instant ← Program.request .now
  let _ ← Program.request (.pause (due.toMillis - now.toMillis).toNat)
  (materialize s due).run

/-- A round of a trigger: what its clock showed, and the fire time that it then waited for with what
came of the fire. There is none if no fire time was left. -/
structure Round where
  reading : Instant
  fire : Option (Instant × Except MasterError Int)

/-- **The rounds of a trigger** after its last fire time, at most `n` of them. It looks at the clock,
waits for the next fire time, fires, and goes on from there. A fire that fails is dropped. -/
def runTrigger (g : Trigger) : Nat → Option Instant → Program (List Round)
  | 0, _ => pure []
  | n + 1, last => do
    let now : Instant ← Program.request .now
    match g.nextFire last now with
    | .error _ => Interaction.crash
    | .ok none => pure [⟨now, none⟩]
    | .ok (some due) => do
      let outcome ← fireAt g.schedule due
      let rounds ← runTrigger g n (some due)
      pure (⟨now, some (due, outcome)⟩ :: rounds)

end WorkflowScheduler.Master
