import WorkflowScheduler.Catalog.Basic
import WorkflowScheduler.Execution.Status

/-!
# Executions

An execution is one attempt to run a workflow, kept as a row of the store. A new one is described
without what the store adds: its id, its status and its submit time.

## Main definitions

* `Execution`: a row
* `Settings`: what a request can ask for
* `NewExecution`, with `direct`, `scheduled` and `backfill`: the three ways to make one
-/

namespace WorkflowScheduler

/-- One attempt to run a workflow. The worker is the address of the executor that got it last. -/
structure Execution where
  id : Int
  projectId : Int
  flowId : Int
  flowKind : FlowKind
  runKind : RunKind
  status : Status
  worker : Option String
  submitUserId : Int
  submitTime : Instant
  scheduleTime : Instant
  startTime : Option Instant
  endTime : Option Instant
  maxTryTimes : Int
  timeout : Int
  nodeName : Option String
  nodeScope : NodeScope
  notification : Notification
  notifyMails : List String
  workflowData : String
  deriving DecidableEq, Repr

/-- What a request for a single run can ask for. A timeout that is not positive asks for nothing. -/
structure Settings where
  nodeName : Option String
  nodeScope : NodeScope
  notification : Notification
  notifyMails : List String
  timeout : Int
  deriving DecidableEq, Repr

/-- Settings that ask for nothing. -/
def Settings.none : Settings := ⟨.none, .nodeOnly, .never, [], 0⟩

/-- An execution that is not stored yet. -/
structure NewExecution where
  projectId : Int
  flowId : Int
  flowKind : FlowKind
  runKind : RunKind
  submitUserId : Int
  scheduleTime : Instant
  maxTryTimes : Int
  timeout : Int
  nodeName : Option String
  nodeScope : NodeScope
  notification : Notification
  notifyMails : List String
  workflowData : String
  deriving DecidableEq, Repr

namespace NewExecution

/-- A run of a workflow as the workflow itself asks for it. -/
def ofWorkflow (w : Workflow) (kind : RunKind) (scheduleTime : Instant) : NewExecution where
  projectId := w.projectId
  flowId := w.id
  flowKind := w.flowKind
  runKind := kind
  submitUserId := w.ownerId
  scheduleTime := scheduleTime
  maxTryTimes := 1
  timeout := w.timeout
  nodeName := none
  nodeScope := .nodeOnly
  notification := .never
  notifyMails := []
  workflowData := w.workflowData

/-- A positive timeout takes the place of the one of the workflow. -/
def overrideTimeout (e : NewExecution) (timeout : Int) : NewExecution :=
  if 0 < timeout then { e with timeout := timeout } else e

/-- **A single run on request.** -/
def direct (w : Workflow) (scheduleTime : Instant) (s : Settings) : NewExecution :=
  overrideTimeout
    { ofWorkflow w .direct scheduleTime with
      nodeName := s.nodeName
      nodeScope := s.nodeScope
      notification := s.notification
      notifyMails := s.notifyMails }
    s.timeout

/-- **A run at a fire time of a schedule.** -/
def scheduled (w : Workflow) (s : Schedule) (fireTime : Instant) : NewExecution :=
  overrideTimeout
    { ofWorkflow w .scheduled fireTime with
      maxTryTimes := s.maxTryTimes
      notification := s.notification
      notifyMails := s.notifyMails }
    s.timeout

/-- **A run for one fire time of a past window.** -/
def backfill (w : Workflow) (fireTime : Instant) : NewExecution :=
  ofWorkflow w .backfill fireTime

end NewExecution

end WorkflowScheduler
