import WorkflowScheduler.Calendar.Format
import WorkflowScheduler.CommandLine.Command
import WorkflowScheduler.Json.Value
import WorkflowScheduler.Service.Message

/-!
# What a client shows

A reply is shown as lines for a reader or as JSON for a program. A reply with a status other than
zero is shown by neither but is a failure.

## Main definitions

* `Lines`: texts that each end their line
* `timeText`: how a time of a reply is shown
* `resultText`, `executionText`, `executorsText`: replies as texts
-/

namespace WorkflowScheduler.CommandLine

open Json (Value)
open Text (spread)

/-- Texts that each end their line. -/
def lines (ls : List String) : String :=
  String.join (ls.map fun l => l ++ "\n")

/-- **How a time of a reply is shown.** One that is not representable is shown as it is. -/
def timeText (millis : Int) : String :=
  match Instant.ofMillis? millis with
  | some t => t.offsetStamp
  | none => toString millis

/-- How the outcome of a request is shown: by a message, or as JSON with what the master said, and
with the executions it is about. -/
def resultText (format : OutputFormat) (ret : Envelope) (execIds : List Int) (message : String) :
    String :=
  match format with
  | .json =>
    lines
      [(Value.object
        [("status", .int ret.status), ("msg", .text ret.msg), ("exec_ids", .ints execIds)]).pretty]
  | .table => lines (message :: execIds.map fun id => "Exec ID: " ++ toString id)

/-- How an execution is shown. -/
def executionText (format : OutputFormat) (r : ExecutionReply) : String :=
  match format with
  | .json =>
    let worker : Value := if r.worker.isEmpty then .null else .text r.worker
    lines
      [(Value.object
        [("exec_id", .int r.execId), ("project_id", .int r.projectId), ("flow_id", .int r.flowId),
          ("status", .text r.status), ("exec_type", .text r.runKind), ("worker", worker),
          ("submit_time_ms", .int r.submitTime), ("schedule_time_ms", .int r.scheduleTime),
          ("start_time_ms", .option .int r.startTime),
          ("end_time_ms", .option .int r.endTime)]).pretty]
  | .table =>
    let worker := if r.worker.isEmpty then [] else ["Worker:        " ++ r.worker]
    let time (label : String) (t : Option Int) : List String :=
      match t with
      | none => []
      | some t => [label ++ timeText t]
    lines
      (["Exec ID:       " ++ toString r.execId,
        "Project/Flow:  " ++ toString r.projectId ++ "/" ++ toString r.flowId,
        "Status:        " ++ r.status,
        "Run Type:      " ++ r.runKind]
        ++ worker
        ++ ["Submitted:     " ++ timeText r.submitTime,
          "Scheduled For: " ++ timeText r.scheduleTime]
        ++ time "Started:       " r.startTime ++ time "Ended:         " r.endTime)

/-- The address of an executor. -/
def addressText (r : ExecutorReply) : String :=
  r.host ++ ":" ++ toString r.port

/-- A row of the table of executors. -/
def executorRow (address heartbeat running : String) : String :=
  spread 24 address ++ " " ++ spread 27 heartbeat ++ " " ++ spread 8 running

/-- How the executors are shown. -/
def executorsText (format : OutputFormat) (rs : List ExecutorReply) : String :=
  match format with
  | .json =>
    let entry (r : ExecutorReply) : Value :=
      .object
        [("address", .text (addressText r)), ("register_time_ms", .int r.registerTime),
          ("last_report_time_ms", .option .int r.lastReportTime), ("exec_ids", .ints r.execIds)]
    lines [(Value.array (rs.map entry)).pretty]
  | .table =>
    if rs.isEmpty then lines ["No executors registered."]
    else
      let row (r : ExecutorReply) : String :=
        executorRow (addressText r)
          (match r.lastReportTime with
            | some t => timeText t
            | none => "-")
          (toString r.execIds.length)
      lines
        (executorRow "ADDRESS" "LAST HEARTBEAT" "RUNNING"
          :: String.ofList (List.replicate 62 '-') :: rs.map row)

end WorkflowScheduler.CommandLine
