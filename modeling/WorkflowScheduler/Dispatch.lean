import WorkflowScheduler.Program

/-!
# Dispatch

One execution at a time is taken from the queue and handed to an executor. The status that an
execution had when it was queued is the status expected by every change of its row, so that an
execution that was cancelled or taken over in the meantime is dropped. An executor that cannot be
reached is evicted, and what it was last known to hold is queued again with the execution at hand.

## Main definitions

* `DispatchLimits`: how often to submit, and how long to wait while there is no executor
* `DispatchOutcome`: what became of an execution
* `Dispatch.run`: the dispatch of one execution
* `Dispatch.failOver`: what happens when an executor is lost
-/

namespace WorkflowScheduler

/-- How often an execution is submitted to one executor, and how long to wait while there is no
executor. -/
structure DispatchLimits where
  retryCount : Nat
  backoffMillis : Nat
  deriving DecidableEq, Repr

/-- What became of an execution that was taken from the queue. -/
inductive DispatchOutcome where
  /-- An executor accepted it, and it is recorded as running there. -/
  | dispatched (executor : Address)
  /-- There was no executor; it is queued again. -/
  | stalled
  /-- Its row has moved on; it was dropped. -/
  | abandoned
  /-- The executor could not be reached; it is queued again, and so are the listed ones. -/
  | executorLost (executor : Address) (resubmitted : List Int)
  /-- Every attempt was refused. -/
  | failed
  deriving DecidableEq, Repr

/-- Whether an execution is unfinished and still recorded on an executor. One without a worker
counts only before it has run. -/
def Execution.isOrphanOf (e : Execution) (executor : String) : Bool :=
  !e.status.isFinished &&
    match e.worker with
    | some worker => worker == executor
    | none => e.status == .init

namespace Dispatch

/-- Whether the row still has the status that the execution was queued with. A store that cannot be
read counts as yes, so that nothing gets lost. -/
def stillPending (e : Execution) : Program Bool := do
  match ← Program.request (.store (.execution e.id)) with
  | .ok (some row) => pure (row.status == e.status)
  | .ok none => pure false
  | .error _ => pure true

/-- Record that an executor has accepted an execution. If the row has moved on, the executor is told
to drop it. -/
def commit (e : Execution) (executor : Address) : Program DispatchOutcome := do
  let update := StatusUpdate.runningOn executor.display
  match ← Program.request (.store (.transition e.id e.status update)) with
  | .ok true => pure (.dispatched executor)
  | .ok false => do
    let _ ← Program.request (.call (.cancel executor e.id))
    pure .abandoned
  | .error _ => pure .abandoned

/-- Record that an execution was refused by every attempt. -/
def markFailed (e : Execution) : Program DispatchOutcome := do
  match ← Program.request (.store (.transition e.id e.status (.toStatus .failed))) with
  | .ok true => pure .failed
  | .ok false => pure .abandoned
  | .error _ => pure .failed

/-- Queue again the unfinished executions out of a list that are still recorded on a lost executor,
except one. The answer lists those that are queued. -/
def resubmit (executor : String) (except : Int) : List Int → Program (List Int)
  | [] => pure []
  | id :: ids =>
    if id = except then resubmit executor except ids
    else do
      match ← Program.request (.store (.execution id)) with
      | .ok (some row) =>
        if row.isOrphanOf executor then
          let queued : Bool ← Program.request (.push row)
          if queued then
            let rest ← resubmit executor except ids
            pure (id :: rest)
          else resubmit executor except ids
        else resubmit executor except ids
      | .ok none => resubmit executor except ids
      | .error _ => resubmit executor except ids

/-- **An executor is lost.** The execution at hand is queued again, the executor is evicted, and what
it was last known to hold is queued again too. -/
def failOver (e : Execution) (executor : Address) : Program DispatchOutcome := do
  let _ ← Program.request (.push e)
  let evicted ← Program.request (.evict executor)
  Program.request (.forget executor)
  match evicted with
  | some entry => do
    let ids ← resubmit entry.address.display e.id entry.execIds
    pure (.executorLost executor ids)
  | none => pure (.executorLost executor [])

/-- Submit an execution to an executor up to a number of times. Only a refusal is followed by
another attempt. -/
def attempts (e : Execution) (executor : Address) : Nat → Program DispatchOutcome
  | 0 => markFailed e
  | n + 1 => do
    match ← Program.request (.call (.submit executor e.projectId e.id e.flowKind)) with
    | .ok () => commit e executor
    | .error (.transport _) =>
      if ← stillPending e then failOver e executor else pure .abandoned
    | .error (.rejected _) => attempts e executor n

/-- **The dispatch of one execution.** -/
def run (limits : DispatchLimits) (e : Execution) : Program DispatchOutcome := do
  if ← stillPending e then
    match ← Program.request .pick with
    | some executor => attempts e executor.address (max limits.retryCount 1)
    | none => do
      Program.request (.pause limits.backoffMillis)
      let _ ← Program.request (.push e)
      pure .stalled
  else pure .abandoned

end Dispatch

end WorkflowScheduler
