import WorkflowScheduler.Error
import WorkflowScheduler.Execution.Basic

/-!
# The store

Everything that outlives a master: the catalog, the master record, and the executions as rows in the
order of their ids. A row changes its status only by a comparison with the status it is believed to
have, so that a stale copy never overwrites a newer status.

## Main definitions

* `Store`: the state
* `Store.load`, `putWorkflow`, `putSchedule`, `putAdHoc`: filling the catalog
* `Store.createExecution`, `Store.transition`, `Store.setStatus`: changing rows
* `MasterClaim`, `Store.insertMasterRecord`, `Store.touchMasterRecord`: the master record
-/

namespace WorkflowScheduler

/-- What a change of status sets: the status, and the worker if one is given. -/
structure StatusUpdate where
  status : Status
  worker : Option String
  deriving DecidableEq, Repr

namespace StatusUpdate

/-- A change of status that leaves the worker as it is. -/
def toStatus (s : Status) : StatusUpdate := ⟨s, none⟩

/-- The change to running on a worker. -/
def runningOn (worker : String) : StatusUpdate := ⟨.running, some worker⟩

end StatusUpdate

/-- The outcome of an attempt to write the master record. -/
inductive MasterClaim where
  | inserted (r : MasterRecord)
  | existing (r : MasterRecord)
  deriving DecidableEq, Repr

/-- What outlives a master. Rows are ascending by id, and `lastId` is the id given last. -/
structure Store where
  master : Option MasterRecord
  workflows : List Workflow
  schedules : List Schedule
  adHocs : List AdHoc
  rows : List Execution
  lastId : Int
  deriving DecidableEq, Repr

namespace Store

/-- A store with nothing in it. -/
def empty : Store := ⟨none, [], [], [], [], 0⟩

/-! ## The catalog -/

/-- Put a workflow in the place of one with the same id. -/
def putWorkflow (s : Store) (w : Workflow) : Store :=
  { s with workflows := w :: s.workflows.filter fun v => v.id ≠ w.id }

/-- Put a schedule in the place of one for the same workflow. -/
def putSchedule (s : Store) (c : Schedule) : Store :=
  { s with schedules := c :: s.schedules.filter fun d => d.flowId ≠ c.flowId }

/-- Put an ad-hoc request in the place of one with the same id. -/
def putAdHoc (s : Store) (a : AdHoc) : Store :=
  { s with adHocs := a :: s.adHocs.filter fun b => b.id ≠ a.id }

/-- **Fill a store from a seed**, entry by entry; a master record only if the seed has one. -/
def load (s : Store) (seed : Seed) : Store :=
  let s := { s with master := seed.master.or s.master }
  let s := seed.workflows.foldl putWorkflow s
  let s := seed.schedules.foldl putSchedule s
  seed.adHocs.foldl putAdHoc s

/-- The workflow with an id. -/
def workflow? (s : Store) (id : Int) : Option Workflow :=
  s.workflows.find? fun w => w.id = id

/-- The schedule of a workflow. -/
def schedule? (s : Store) (flowId : Int) : Option Schedule :=
  s.schedules.find? fun c => c.flowId = flowId

/-- The ad-hoc request with an id. -/
def adHoc? (s : Store) (id : Int) : Option AdHoc :=
  s.adHocs.find? fun a => a.id = id

/-- The schedules in force, ascending by workflow. -/
def onlineSchedules (s : Store) : List Schedule :=
  (s.schedules.filter fun c => c.state = .online).mergeSort fun c d => c.flowId ≤ d.flowId

/-! ## The master record -/

/-- Write a master record, unless there is one. -/
def insertMasterRecord (s : Store) (now : Instant) (host : String) (port : UInt16) :
    MasterClaim × Store :=
  match s.master with
  | some r => (.existing r, s)
  | none =>
    let r : MasterRecord := ⟨host, port, now, now⟩
    (.inserted r, { s with master := some r })

/-- Renew the modify time of the master record, if it names an address. -/
def touchMasterRecord (s : Store) (now : Instant) (host : String) (port : UInt16) :
    Except StoreError MasterRecord × Store :=
  let missing : StoreError :=
    .unavailable ("no master record for " ++ host ++ ":" ++ toString port.toNat)
  match s.master with
  | none => (.error missing, s)
  | some r =>
    if r.isAt host port then
      let r := { r with modifyTime := now }
      (.ok r, { s with master := some r })
    else (.error missing, s)

/-- Forget the master record. -/
def clearMasterRecord (s : Store) : Store :=
  { s with master := none }

/-! ## Executions -/

/-- The row with an id. -/
def execution? (s : Store) (id : Int) : Option Execution :=
  s.rows.find? fun e => e.id = id

/-- The rows in a status, ascending by id. -/
def executionsInStatus (s : Store) (status : Status) : List Execution :=
  s.rows.filter fun e => e.status = status

/-- The row of a new execution. -/
def newRow (id : Int) (now : Instant) (e : NewExecution) : Execution where
  id := id
  projectId := e.projectId
  flowId := e.flowId
  flowKind := e.flowKind
  runKind := e.runKind
  status := .init
  worker := none
  submitUserId := e.submitUserId
  submitTime := now
  scheduleTime := e.scheduleTime
  startTime := none
  endTime := none
  maxTryTimes := e.maxTryTimes
  timeout := e.timeout
  nodeName := e.nodeName
  nodeScope := e.nodeScope
  notification := e.notification
  notifyMails := e.notifyMails
  workflowData := e.workflowData

/-- **Store a new execution** under the next id. -/
def createExecution (s : Store) (now : Instant) (e : NewExecution) : Execution × Store :=
  let row := newRow (s.lastId + 1) now e
  (row, { s with rows := s.rows ++ [row], lastId := s.lastId + 1 })

/-- Change the row with an id. -/
def modifyRow (s : Store) (id : Int) (f : Execution → Execution) : Store :=
  { s with rows := s.rows.map fun e => if e.id = id then f e else e }

/-- A row after a change of status: it keeps its first start time, and it gets an end time when it
reaches a terminal status. -/
def applyUpdate (now : Instant) (u : StatusUpdate) (e : Execution) : Execution :=
  { e with
    status := u.status
    worker := u.worker.or e.worker
    startTime := if u.status = .running then e.startTime.or (some now) else e.startTime
    endTime := if u.status.isFinished then some now else e.endTime }

/-- **Change the status of a row that has an expected status.** The answer says whether it had. -/
def transition (s : Store) (now : Instant) (id : Int) (expected : Status) (u : StatusUpdate) :
    Except StoreError Bool × Store :=
  match s.execution? id with
  | none => (.error (.executionNotFound id), s)
  | some e =>
    if e.status = expected then (.ok true, s.modifyRow id (applyUpdate now u)) else (.ok false, s)

/-- Write the status of a row, whatever it was: what executors do. -/
def setStatus (s : Store) (now : Instant) (id : Int) (status : Status) :
    Except StoreError Unit × Store :=
  match s.execution? id with
  | none => (.error (.executionNotFound id), s)
  | some _ =>
    let write (e : Execution) : Execution :=
      { e with status := status, endTime := if status.isFinished then some now else e.endTime }
    (.ok (), s.modifyRow id write)

end Store

end WorkflowScheduler
