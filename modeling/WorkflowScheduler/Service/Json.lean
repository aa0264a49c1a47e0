import WorkflowScheduler.Json.Access
import WorkflowScheduler.Json.Value
import WorkflowScheduler.Service.Message

/-!
# Messages as JSON

How requests are read from JSON and how replies are written. A request may leave out everything that
is zero or empty.

## Main definitions

* `MasterRequest.ofJson?`: the request of a method
* `MasterRequest.replyJson`: how a reply is written
-/

namespace WorkflowScheduler

open Json (Draft Value)

/-- What a request for a single run asks for. -/
def RunInfo.ofJson (d : Draft) : RunInfo :=
  ⟨d.textAt "node_name", d.intAt "node_dep", d.intAt "notify_type", d.textsAt "notify_mails",
    d.intAt "timeout"⟩

/-- The window of a backfill. -/
def WindowInfo.ofJson (d : Draft) : WindowInfo :=
  ⟨d.textAt "cron_expression", d.intAt "start_date", d.intAt "end_date"⟩

/-- What an executor reports. -/
def ReportInfo.ofJson (d : Draft) : ReportInfo :=
  ⟨d.intAt "report_date", d.intsAt "exec_ids"⟩

/-- **The request of a method**, if there is such a method. -/
def MasterRequest.ofJson? (method : String) (d : Draft) : Option MasterRequest :=
  let projectId := d.intAt "project_id"
  let flowId := d.intAt "flow_id"
  match method with
  | "set_schedule" => some (.setSchedule projectId flowId)
  | "delete_schedule" => some (.deleteSchedule projectId flowId)
  | "delete_schedules" => some (.deleteSchedules projectId)
  | "exec_flow" =>
    some
      (.execFlow projectId flowId (d.intAt "schedule_date")
        (d.partAt? "exec_info" RunInfo.ofJson))
  | "exec_ad_hoc" => some (.execAdHoc (d.intAt "ad_hoc_id"))
  | "append_work_flow" =>
    some (.appendWorkFlow projectId flowId (d.partAt? "schedule_info" WindowInfo.ofJson))
  | "cancel_exec_flow" => some (.cancelExecFlow (d.intAt "exec_id"))
  | "register_executor" =>
    some (.registerExecutor (d.textAt "host") (d.intAt "port") (d.intAt "register_time"))
  | "executor_report" =>
    some
      (.executorReport (d.textAt "host") (d.intAt "port")
        (d.partAt? "heartbeat" ReportInfo.ofJson))
  | "get_exec_flow" => some (.getExecFlow (d.intAt "exec_id"))
  | "list_executors" => some .listExecutors
  | _ => none

/-- How an envelope is written. -/
def Envelope.json (e : Envelope) : Value :=
  .object [("status", .int e.status), ("msg", .text e.msg)]

/-- How a reply that may list executions is written. -/
def IdsReply.json (r : IdsReply) : Value :=
  .object [("ret", r.ret.json), ("exec_ids", .ints r.execIds)]

/-- How a reply about an execution is written. -/
def ExecutionReply.json (r : ExecutionReply) : Value :=
  .object
    [("ret", r.ret.json), ("exec_id", .int r.execId), ("project_id", .int r.projectId),
      ("flow_id", .int r.flowId), ("status", .text r.status), ("exec_type", .text r.runKind),
      ("worker", .text r.worker), ("submit_time", .int r.submitTime),
      ("schedule_time", .int r.scheduleTime), ("start_time", .option .int r.startTime),
      ("end_time", .option .int r.endTime)]

/-- How a reply about an executor is written. -/
def ExecutorReply.json (r : ExecutorReply) : Value :=
  .object
    [("host", .text r.host), ("port", .int r.port), ("register_time", .int r.registerTime),
      ("last_report_time", .option .int r.lastReportTime), ("exec_ids", .ints r.execIds)]

/-- **How a reply is written.** -/
def MasterRequest.replyJson : (r : MasterRequest) → r.Reply → Value
  | .setSchedule _ _, e => Envelope.json e
  | .deleteSchedule _ _, e => Envelope.json e
  | .deleteSchedules _, e => Envelope.json e
  | .execFlow _ _ _ _, r => IdsReply.json r
  | .execAdHoc _, e => Envelope.json e
  | .appendWorkFlow _ _ _, r => IdsReply.json r
  | .cancelExecFlow _, e => Envelope.json e
  | .registerExecutor _ _ _, e => Envelope.json e
  | .executorReport _ _ _, e => Envelope.json e
  | .getExecFlow _, r => ExecutionReply.json r
  | .listExecutors, rs => .array (List.map ExecutorReply.json rs)

end WorkflowScheduler
