import WorkflowScheduler.Store.Basic

/-!
# Requests to a store

What the master asks of a store, as data: each request is one atomic step, and it has its own type
of answer. A store that keeps everything in memory answers every request; any other store may fail.

## Main definitions

* `StoreRequest`, `StoreRequest.Value`: the requests, and what is answered if nothing fails
* `Store.answer`: the answers of the store in memory
-/

namespace WorkflowScheduler

/-- What the master asks of a store. -/
inductive StoreRequest where
  | masterRecord
  | insertMasterRecord (host : String) (port : UInt16)
  | touchMasterRecord (host : String) (port : UInt16)
  | workflow (id : Int)
  | adHoc (id : Int)
  | schedule (flowId : Int)
  | onlineSchedules
  | createExecution (e : NewExecution)
  | execution (id : Int)
  | executionsInStatus (s : Status)
  | transition (id : Int) (expected : Status) (u : StatusUpdate)
  deriving DecidableEq, Repr

namespace StoreRequest

/-- What is answered to a request if nothing fails. -/
def Value : StoreRequest → Type
  | .masterRecord => Option MasterRecord
  | .insertMasterRecord _ _ => MasterClaim
  | .touchMasterRecord _ _ => MasterRecord
  | .workflow _ => Option Workflow
  | .adHoc _ => Option AdHoc
  | .schedule _ => Option Schedule
  | .onlineSchedules => List Schedule
  | .createExecution _ => Execution
  | .execution _ => Option Execution
  | .executionsInStatus _ => List Execution
  | .transition _ _ _ => Bool

/-- The answer that says that there is nothing, where there is such an answer. -/
def nothing? : (r : StoreRequest) → Option r.Value
  | .masterRecord => some (none : Option MasterRecord)
  | .insertMasterRecord _ _ => none
  | .touchMasterRecord _ _ => none
  | .workflow _ => some (none : Option Workflow)
  | .adHoc _ => some (none : Option AdHoc)
  | .schedule _ => some (none : Option Schedule)
  | .onlineSchedules => some ([] : List Schedule)
  | .createExecution _ => none
  | .execution _ => some (none : Option Execution)
  | .executionsInStatus _ => some ([] : List Execution)
  | .transition _ _ _ => some false

end StoreRequest

/-- **The answers of the store in memory**, and the store after them. -/
def Store.answer (now : Instant) :
    (r : StoreRequest) → Store → Except StoreError r.Value × Store
  | .masterRecord, s => (.ok s.master, s)
  | .insertMasterRecord host port, s =>
    let (claim, s) := s.insertMasterRecord now host port
    (.ok claim, s)
  | .touchMasterRecord host port, s => s.touchMasterRecord now host port
  | .workflow id, s => (.ok (s.workflow? id), s)
  | .adHoc id, s => (.ok (s.adHoc? id), s)
  | .schedule flowId, s => (.ok (s.schedule? flowId), s)
  | .onlineSchedules, s => (.ok s.onlineSchedules, s)
  | .createExecution e, s =>
    let (row, s) := s.createExecution now e
    (.ok row, s)
  | .execution id, s => (.ok (s.execution? id), s)
  | .executionsInStatus status, s => (.ok (s.executionsInStatus status), s)
  | .transition id expected u, s => s.transition now id expected u

end WorkflowScheduler
