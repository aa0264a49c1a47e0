import WorkflowScheduler.Master.Schedules
import WorkflowScheduler.Service.Message

/-!
# The master's service

How a master answers requests. Every outcome, also that of a request that makes no sense, goes into
the envelope of the reply.

## Main definitions

* `Service.instantOf`: the instant that a time of a request stands for
* `Service.handle`: the reply to a request
-/

namespace WorkflowScheduler.Service

/-- The envelope of an outcome. -/
def envelope {α : Type} : Except MasterError α → Envelope
  | .ok _ => .ok
  | .error e => ⟨e.code, e.message⟩

/-- The reply of an operation whose result is not told. -/
def acknowledged {α : Type} (op : Operation α) : Program Envelope := do
  let outcome ← op.run
  pure (envelope outcome)

/-- The reply of an operation that lists executions. -/
def listing (op : Operation (List Int)) : Program IdsReply := do
  let outcome ← op.run
  match outcome with
  | .ok ids => pure ⟨.ok, ids⟩
  | .error e => pure ⟨⟨e.code, e.message⟩, []⟩

/-- **The instant that a time of a request stands for**: zero stands for now. -/
def instantOf (field : String) (millis : Int) : Operation Instant :=
  if millis = 0 then Operation.request .now
  else
    match Instant.ofMillis? millis with
    | some t => pure t
    | none => throw (.validation (field ++ " out of range: " ++ toString millis))

/-- The settings that a request asks for. -/
def settings : Option RunInfo → Settings
  | none => .none
  | some i =>
    ⟨if i.nodeName.isEmpty then none else some i.nodeName, .ofWire i.nodeScope,
      .ofWire i.notification, i.notifyMails, i.timeout⟩

/-- A reply that tells about an execution. -/
def executionReply (e : Execution) : ExecutionReply where
  ret := .ok
  execId := e.id
  projectId := e.projectId
  flowId := e.flowId
  status := e.status.name
  runKind := e.runKind.name
  worker := e.worker.getD ""
  submitTime := e.submitTime.toMillis
  scheduleTime := e.scheduleTime.toMillis
  startTime := e.startTime.map Instant.toMillis
  endTime := e.endTime.map Instant.toMillis

/-- A reply that tells why there is nothing to tell about an execution. -/
def noExecutionReply (id : Int) (e : MasterError) : ExecutionReply :=
  ⟨⟨e.code, e.message⟩, id, 0, 0, "", "", "", 0, 0, none, none⟩

/-- A reply that tells about an executor. -/
def executorReply (e : Executor) : ExecutorReply where
  host := e.address.host
  port := e.address.port.toNat
  registerTime := e.registeredAt.toMillis
  lastReportTime := e.heartbeat.map fun h => h.reportedAt.toMillis
  execIds := e.execIds

/-- The executions that a backfill starts, with the window as a request gives it. -/
def backfill (limit : Nat) (projectId flowId : Int) : Option WindowInfo → Operation (List Int)
  | none => throw (.validation "schedule_info is required")
  | some i => do
    let start ← instantOf "start_date" i.startDate
    let stop ← instantOf "end_date" i.endDate
    Master.backfill limit projectId flowId i.cron start stop

/-- **The reply to a request**, by a master that starts at most `limit` executions for one window.
The reply to a backfill does not list its executions. -/
def handle (limit : Nat) : (r : MasterRequest) → Program r.Reply
  | .setSchedule projectId flowId => acknowledged (Master.setSchedule projectId flowId)
  | .deleteSchedule projectId flowId => acknowledged (Master.deleteSchedule projectId flowId)
  | .deleteSchedules projectId => acknowledged (Master.deleteSchedules projectId)
  | .execFlow projectId flowId scheduleDate info =>
    listing do
      let t ← instantOf "schedule_date" scheduleDate
      let id ← Master.execFlow projectId flowId t (settings info)
      pure [id]
  | .execAdHoc id => acknowledged (Master.execAdHoc id)
  | .appendWorkFlow projectId flowId info =>
    listing do
      let _ ← backfill limit projectId flowId info
      pure []
  | .cancelExecFlow id => acknowledged (Master.cancel id)
  | .registerExecutor host port registerTime =>
    acknowledged do
      let t ← instantOf "register_time" registerTime
      Master.registerExecutor host port t
  | .executorReport host port info =>
    acknowledged do
      let i := info.getD ⟨0, []⟩
      let t ← instantOf "report_date" i.reportDate
      Master.reportExecutor host port t i.execIds
  | .getExecFlow id => do
    let outcome ← (Master.execution id).run
    match outcome with
    | .ok e => pure (executionReply e)
    | .error e => pure (noExecutionReply id e)
  | .listExecutors => do
    let executors : List Executor ← Program.request .executors
    pure (executors.map executorReply)

end WorkflowScheduler.Service
