import WorkflowScheduler.Calendar.Instant
import WorkflowScheduler.Execution.Kind

/-!
# The catalog

What is stored besides executions: the workflows of the projects, their schedules, ad-hoc requests,
and the address of the master in charge.

## Main definitions

* `Workflow`, `Schedule`, `AdHoc`, `MasterRecord`
* `Seed`: a set of these, from which a store is filled
-/

namespace WorkflowScheduler

/-- A workflow of a project. -/
structure Workflow where
  id : Int
  projectId : Int
  name : String
  ownerId : Int
  flowKind : FlowKind
  /-- The time limit of a run in seconds. -/
  timeout : Int
  /-- The graph of the workflow, which only executors read. -/
  workflowData : String
  deriving DecidableEq, Repr

/-- When a workflow runs by itself: at the fire times of a cron expression, from the start date up
to but not including the end date. -/
structure Schedule where
  flowId : Int
  projectId : Int
  crontab : String
  startDate : Instant
  endDate : Instant
  state : ScheduleState
  notification : Notification
  notifyMails : List String
  maxTryTimes : Int
  timeout : Int
  deriving DecidableEq, Repr

/-- A request that an executor runs outside any workflow. -/
structure AdHoc where
  id : Int
  projectId : Int
  ownerId : Int
  statement : String
  deriving DecidableEq, Repr

/-- The address of the master in charge. -/
structure MasterRecord where
  host : String
  port : UInt16
  createTime : Instant
  modifyTime : Instant
  deriving DecidableEq, Repr

namespace MasterRecord

/-- Whether a record names an address. -/
def isAt (r : MasterRecord) (host : String) (port : UInt16) : Bool :=
  r.host == host && r.port == port

/-- The address of a record. -/
def display (r : MasterRecord) : String :=
  r.host ++ ":" ++ toString r.port.toNat

end MasterRecord

/-- What a store is filled with. Of several entries with one id the last one counts. -/
structure Seed where
  master : Option MasterRecord
  workflows : List Workflow
  schedules : List Schedule
  adHocs : List AdHoc
  deriving DecidableEq, Repr

end WorkflowScheduler
