import WorkflowScheduler.Calendar.Stamp
import WorkflowScheduler.CommandLine.Output

/-!
# The client

A client turns its command into one request to a master and shows the reply. Times are given as
strict time stamps and sent in milliseconds.

## Main definitions

* `ClientFault`: what a client can fail with
* `ClientCommand.request`: the request of a command
* `ClientCommand.show`: how the reply is shown
-/

namespace WorkflowScheduler.CommandLine

/-- What a client can fail with. -/
inductive ClientFault where
  | invalidTime (text : String) (reason : Stamp.Fault)
  /-- The master answered that it did not do what was asked for. -/
  | refused (ret : Envelope)
  /-- The reply has no envelope. -/
  | noEnvelope
  deriving DecidableEq, Repr

/-- The wording of a fault. -/
def ClientFault.message : ClientFault → String
  | .invalidTime text reason => "invalid timestamp '" ++ text ++ "': " ++ reason.message
  | .refused ret => "request failed (status " ++ toString ret.status ++ "): " ++ ret.msg
  | .noEnvelope => "response is missing its result envelope"

/-- **The instant that a time names.** -/
def timeOf (text : String) : Except ClientFault Instant :=
  match Stamp.strict text with
  | .ok t => .ok t
  | .error reason => .error (.invalidTime text reason)

/-- The milliseconds to which a time names an instant. -/
def millisOf (text : String) : Except ClientFault Int :=
  (timeOf text).map Instant.toMillis

/-- **A reply must have an envelope, with status zero.** -/
def checked : Option Envelope → Except ClientFault Envelope
  | none => .error .noEnvelope
  | some ret => if ret.status = 0 then .ok ret else .error (.refused ret)

namespace ClientCommand

/-- **The request of a command.** A single run without a time is asked for now. -/
def request : ClientCommand → Except ClientFault MasterRequest
  | .execFlow projectId flowId w => do
    let millis ←
      match w.scheduleDate with
      | some text => millisOf text
      | none => .ok 0
    let info : RunInfo :=
      ⟨w.nodeName.getD "", w.nodeScope.toWire, w.notification.toWire, w.notifyMails, w.timeout⟩
    .ok (.execFlow projectId flowId millis (some info))
  | .appendFlow projectId flowId cron start stop => do
    let startMillis ← millisOf start
    let stopMillis ← millisOf stop
    .ok (.appendWorkFlow projectId flowId (some ⟨cron, startMillis, stopMillis⟩))
  | .flowStatus id => .ok (.getExecFlow id)
  | .cancelFlow id => .ok (.cancelExecFlow id)
  | .setSchedule projectId flowId => .ok (.setSchedule projectId flowId)
  | .deleteSchedule projectId flowId => .ok (.deleteSchedule projectId flowId)
  | .deleteSchedules projectId => .ok (.deleteSchedules projectId)
  | .executors => .ok .listExecutors

/-- Show a reply that tells about executions, or only that a request succeeded. -/
def showResult (format : OutputFormat) (ret : Envelope) (execIds : List Int) (message : String) :
    Except ClientFault String := do
  let ret ← checked (some ret)
  .ok (resultText format ret execIds message)

/-- **How the reply to a request is shown.** -/
def showReply (format : OutputFormat) : (r : MasterRequest) → r.Reply → Except ClientFault String
  | .execFlow _ _ _ _, r => showResult format r.ret r.execIds "Flow submitted successfully!"
  | .appendWorkFlow _ _ _, r => showResult format r.ret r.execIds "Backfill accepted."
  | .getExecFlow _, r => do
    let _ ← checked (some r.ret)
    .ok (executionText format r)
  | .cancelExecFlow id, ret => showResult format ret [id] "Cancellation requested."
  | .setSchedule _ _, ret => showResult format ret [] "Schedule installed."
  | .deleteSchedule _ _, ret => showResult format ret [] "Schedule removed."
  | .deleteSchedules _, ret => showResult format ret [] "Project schedules removed."
  | .listExecutors, rs => .ok (executorsText format rs)
  | .execAdHoc _, ret => showResult format ret [] ""
  | .registerExecutor _ _ _, ret => showResult format ret [] ""
  | .executorReport _ _ _, ret => showResult format ret [] ""

end ClientCommand

end WorkflowScheduler.CommandLine
