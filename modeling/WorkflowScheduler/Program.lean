import WorkflowScheduler.Executor.Registry
import WorkflowScheduler.Interaction
import WorkflowScheduler.Store.Request
import WorkflowScheduler.Trigger.Table

/-!
# Programs of the master

What the master does is a sequence of atomic steps: requests to the store, the registry, the queue,
the executors, the trigger table and the clock.

## Main definitions

* `Call`: a call to an executor
* `Request`, `Request.Answer`: the atomic steps
* `Program`: an interaction by these requests
* `Operation`: a program that may fail with an error
-/

namespace WorkflowScheduler

/-- A call to an executor. -/
inductive Call where
  | submit (executor : Address) (projectId execId : Int) (kind : FlowKind)
  | adHoc (executor : Address) (id : Int)
  | cancel (executor : Address) (execId : Int)
  deriving DecidableEq, Repr

/-- The executor that is called. -/
def Call.address : Call → Address
  | .submit a _ _ _ => a
  | .adHoc a _ => a
  | .cancel a _ => a

/-- The atomic steps of a program. -/
inductive Request where
  | store (r : StoreRequest)
  /-- The next executor in rotation. -/
  | pick
  | evict (a : Address)
  | register (a : Address) (registeredAt : Instant)
  | report (a : Address) (h : Heartbeat)
  | executors
  /-- Append an execution to the dispatch queue. -/
  | push (e : Execution)
  | call (c : Call)
  /-- Drop what is kept of a connection to an executor. -/
  | forget (a : Address)
  | now
  /-- Wait for so many milliseconds, or until the master shuts down. -/
  | pause (millis : Nat)
  | spawnTrigger (t : Trigger)
  | enterTrigger (k : TriggerKey) (task : Nat)
  | removeTrigger (k : TriggerKey)
  | removeTriggers (group : String)
  deriving DecidableEq, Repr

/-- What is answered to a request. -/
def Request.Answer : Request → Type
  | .store r => Except StoreError r.Value
  | .pick => Option Executor
  | .evict _ => Option Executor
  | .register _ _ => Unit
  | .report _ _ => Unit
  | .executors => List Executor
  | .push _ => Bool
  | .call _ => Except CallError Unit
  | .forget _ => Unit
  | .now => Instant
  | .pause _ => Unit
  | .spawnTrigger _ => Nat
  | .enterTrigger _ _ => Unit
  | .removeTrigger _ => Bool
  | .removeTriggers _ => Nat

/-- What the master does: an interaction by these requests. -/
abbrev Program := Interaction Request Request.Answer

/-- A single step of a program. -/
def Program.request (r : Request) : Program r.Answer :=
  Interaction.request r

/-- A program that may fail with an error. -/
abbrev Operation (α : Type) := ExceptT MasterError Program α

namespace Operation

/-- A request that cannot fail. -/
def request (r : Request) : Operation r.Answer :=
  ExceptT.lift (Program.request r)

/-- A request to the store; a store error is an error of the operation. -/
def store (r : StoreRequest) : Operation r.Value :=
  ExceptT.mk do
    match ← Program.request (.store r) with
    | .ok a => pure (.ok a)
    | .error e => pure (.error (.store e))

/-- A call to an executor; a failed call is an error of the operation. -/
def call (c : Call) : Operation Unit :=
  ExceptT.mk do
    match ← Program.request (.call c) with
    | .ok () => pure (.ok ())
    | .error e => pure (.error (.call e))

/-- A result that needs no request. -/
def ofExcept {α : Type} (r : Except MasterError α) : Operation α :=
  ExceptT.mk (pure r)

/-- Break off without a result. -/
def crash {α : Type} : Operation α :=
  ExceptT.mk Interaction.crash

end Operation

end WorkflowScheduler
