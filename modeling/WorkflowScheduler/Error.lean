import WorkflowScheduler.Catalog.Basic
import WorkflowScheduler.Cron.Expression
import WorkflowScheduler.Json.Draft

/-!
# Errors

What can go wrong, by cause, with the wording of each cause in one place. A failed call to an
executor is either evidence that the executor is gone or an answer that refuses the request, and
the dispatcher treats the two differently.

## Main definitions

* `StoreError`, `CallError`, `MasterError`, each with its `message`
* `MasterError.code`: the status of a reply that carries the error
-/

namespace WorkflowScheduler

/-- What a store can fail with. -/
inductive StoreError where
  | unavailable (reason : String)
  | executionNotFound (id : Int)
  deriving DecidableEq, Repr

/-- The wording of a store error. -/
def StoreError.message : StoreError → String
  | .unavailable reason => "Store unavailable: " ++ reason
  | .executionNotFound id => "Execution not found: " ++ toString id

/-- How a call to an executor can fail: it did not get through, or the executor refused it. -/
inductive CallError where
  | transport (reason : String)
  | rejected (reason : String)
  deriving DecidableEq, Repr

namespace CallError

/-- The wording of a failed call. -/
def message : CallError → String
  | .transport reason => "Transport failure: " ++ reason
  | .rejected reason => "Executor rejected request: " ++ reason

/-- Whether a call failed to get through. -/
def isTransport : CallError → Bool
  | .transport _ => true
  | .rejected _ => false

end CallError

/-- What an operation of the master can fail with. -/
inductive MasterError where
  | masterConflict (existing : MasterRecord)
  | scheduleNotFound (flowId : Int)
  | workflowNotFound (id : Int)
  | adHocNotFound (id : Int)
  | executionNotFound (id : Int)
  | alreadyFinished (id : Int)
  | invalidCron (text : String) (reason : String)
  | validation (reason : String)
  | noExecutor
  | store (e : StoreError)
  | call (e : CallError)
  | internal (reason : String)
  deriving DecidableEq, Repr

namespace MasterError

/-- The wording of an error. -/
def message : MasterError → String
  | .masterConflict existing =>
    "Can't register more than one master, existing master is " ++ existing.display
      ++ "; clear the master record to move it"
  | .scheduleNotFound id => "Schedule not found for flow " ++ toString id
  | .workflowNotFound id => "Workflow not found: " ++ toString id
  | .adHocNotFound id => "Ad-hoc request not found: " ++ toString id
  | .executionNotFound id => "Execution not found: " ++ toString id
  | .alreadyFinished id => "Execution " ++ toString id ++ " has already finished"
  | .invalidCron text reason => "Invalid cron expression '" ++ text ++ "': " ++ reason
  | .validation reason => "Validation error: " ++ reason
  | .noExecutor => "No executor available"
  | .store e => "Store error: " ++ e.message
  | .call e => "Executor call failed: " ++ e.message
  | .internal reason => "Internal error: " ++ reason

/-- **The status of a reply that carries an error.** Zero is kept for success. -/
def code : MasterError → Int
  | .masterConflict _ => 2
  | .scheduleNotFound _ => 3
  | .workflowNotFound _ => 3
  | .adHocNotFound _ => 3
  | .executionNotFound _ => 3
  | .invalidCron _ _ => 4
  | .validation _ => 4
  | .alreadyFinished _ => 5
  | .noExecutor => 6
  | .call _ => 6
  | .store _ => 1
  | .internal _ => 1

theorem code_ne_zero (e : MasterError) : e.code ≠ 0 := by
  cases e <;> simp [code]

/-- A text that is no cron expression. -/
def ofCronFault (text : String) (f : CronExpression.Fault) : MasterError :=
  .invalidCron text f.reason

end MasterError

end WorkflowScheduler
