import WorkflowScheduler.Calendar.Format
import WorkflowScheduler.Program
import WorkflowScheduler.Text.Blank

/-!
# Operations of the master

What the master does on request. Nothing here waits for a dispatch: an operation either has done its
work for good when it answers, or it answers with an error.

## Main definitions

* `Master.execFlow`, `Master.backfill`, `Master.execAdHoc`: start something
* `Master.cancel`: stop an execution
* `Master.registerExecutor`, `Master.reportExecutor`: executors make themselves known
* `Master.recoverPending`: queue again what the last master left behind
-/

namespace WorkflowScheduler.Master

/-- A workflow that belongs to a project. -/
def workflow (projectId flowId : Int) : Operation Workflow := do
  let found : Option Workflow ← Operation.store (.workflow flowId)
  match found with
  | some w => if w.projectId = projectId then pure w else throw (.workflowNotFound flowId)
  | none => throw (.workflowNotFound flowId)

/-- Store an execution and queue it. -/
def submit (e : NewExecution) : Operation Int := do
  let row : Execution ← Operation.store (.createExecution e)
  let _ ← Operation.request (.push row)
  pure row.id

/-- **Run a workflow once.** The answer is the id of the execution. -/
def execFlow (projectId flowId : Int) (scheduleTime : Instant) (s : Settings) : Operation Int := do
  let w ← workflow projectId flowId
  submit (.direct w scheduleTime s)

/-- **Hand an ad-hoc request to the next executor in rotation.** -/
def execAdHoc (id : Int) : Operation Address := do
  let found : Option AdHoc ← Operation.store (.adHoc id)
  match found with
  | none => throw (.adHocNotFound id)
  | some _ => do
    let picked : Option Executor ← Operation.request .pick
    match picked with
    | none => throw .noExecutor
    | some executor => do
      Operation.call (.adHoc executor.address id)
      pure executor.address

/-- Store and queue one execution for each of the fire times. -/
def submitEach (w : Workflow) : List Instant → Operation (List Int)
  | [] => pure []
  | t :: ts => do
    let id ← submit (.backfill w t)
    let ids ← submitEach w ts
    pure (id :: ids)

/-- A cron expression that a request names. -/
def cronExpression (text : String) : Operation CronExpression :=
  match CronExpression.parse text with
  | .ok e => pure e
  | .error f => throw (.ofCronFault text f)

/-- The fire times of a window, at most `limit` of them. -/
def window (e : CronExpression) (start stop : Instant) (limit : Nat) : Operation (List Instant) :=
  match e.fireTimes start stop limit with
  | .ok ts => pure ts
  | .error .tooMany =>
    throw
      (.validation
        ("cron expression '" ++ e.source ++ "' fires more than " ++ toString limit
          ++ " times between " ++ start.display ++ " and " ++ stop.display))
  | .error .outOfCalendar => Operation.crash

/-- **Run a workflow for every fire time of a window.** The answer lists the executions in the order
of the fire times. -/
def backfill (limit : Nat) (projectId flowId : Int) (cron : String) (start stop : Instant) :
    Operation (List Int) := do
  let w ← workflow projectId flowId
  let e ← cronExpression cron
  if stop ≤ start then
    throw
      (.validation
        ("start date " ++ start.display ++ " must be before end date " ++ stop.display))
  else do
    let times ← window e start stop limit
    submitEach w times

/-- The row of an execution. -/
def execution (id : Int) : Operation Execution := do
  let found : Option Execution ← Operation.store (.execution id)
  match found with
  | some e => pure e
  | none => throw (.executionNotFound id)

/-- Cancel an execution on its worker. -/
def cancelOn (worker : String) (id : Int) : Operation Unit :=
  match Address.parse worker with
  | .ok a => Operation.call (.cancel a id)
  | .error f =>
    throw (.internal ("bad worker address on " ++ toString id ++ ": " ++ f.message))

/-- Try a number of times to cancel an execution. One that has a worker is cancelled there. One that
waits for dispatch is moved to `KILL`; if its status has changed since it was read, it is read
again. -/
def cancelWithin (id : Int) : Nat → Operation Unit
  | 0 =>
    throw (.internal ("execution " ++ toString id ++ " kept changing status during cancel"))
  | n + 1 => do
    let e ← execution id
    if e.status.isFinished then throw (.alreadyFinished id)
    else
      match e.worker with
      | some worker => cancelOn worker id
      | none => do
        let killed : Bool ← Operation.store (.transition id e.status (.toStatus .kill))
        if killed then pure () else cancelWithin id n

/-- How often a cancel looks at an execution whose status keeps changing. -/
def cancelAttempts : Nat := 3

/-- **Cancel an execution.** -/
def cancel (id : Int) : Operation Unit :=
  cancelWithin id cancelAttempts

/-- The address that an executor gives: a host that is not blank, and a port from 1 on. -/
def executorAddress (host : String) (port : Int) : Except MasterError Address :=
  if Text.allBlank host then .error (.validation "executor host is empty")
  else if 1 ≤ port ∧ port ≤ Text.maxUnsigned16 then .ok ⟨host, UInt16.ofNat port.toNat⟩
  else .error (.validation ("invalid executor port " ++ toString port))

/-- **An executor registers.** -/
def registerExecutor (host : String) (port : Int) (registeredAt : Instant) : Operation Unit := do
  let a ← Operation.ofExcept (executorAddress host port)
  Operation.request (.register a registeredAt)

/-- **An executor reports what it holds.** -/
def reportExecutor (host : String) (port : Int) (reportedAt : Instant) (execIds : List Int) :
    Operation Unit := do
  let a ← Operation.ofExcept (executorAddress host port)
  Operation.request (.report a (.of reportedAt execIds))

/-- Queue executions one after the other. -/
def pushEach : List Execution → Operation Unit
  | [] => pure ()
  | e :: es => do
    let _ ← Operation.request (.push e)
    pushEach es

/-- **Queue again what waited for dispatch when the last master stopped.** The answer is how many
there were. -/
def recoverPending : Operation Nat := do
  let rows : List Execution ← Operation.store (.executionsInStatus .init)
  pushEach rows
  pure rows.length

end WorkflowScheduler.Master
