import WorkflowScheduler.Config
import WorkflowScheduler.Master.Registrar
import WorkflowScheduler.Master.Schedules

/-!
# The startup of a master

A master that starts binds its address, claims the master record, queues again what another master
left pending, and installs the triggers of the schedules that are in force. Each step must succeed
before the next one begins, and nothing is served before all have.

## Main definitions

* `bindFailure`: the error of a master or an agent whose address cannot be bound
* `Master.startUp`: the steps after binding
-/

namespace WorkflowScheduler

/-- An address that cannot be bound. -/
def bindFailure (listen : SocketAddress) (reason : String) : MasterError :=
  .internal ("failed to bind " ++ listen.display ++ ": " ++ reason)

/-- The reason why an address that is in use cannot be bound. -/
def addressInUse : String := "Address already in use (os error 98)"

/-- **What a master does before it serves.** The answer tells how many executions were queued again
and how many triggers were installed. -/
def Master.startUp (host : String) (port : UInt16) : Operation (Nat × Nat) := do
  let _ ← Registrar.register host port
  let pending ← Master.recoverPending
  let triggers ← Master.restore
  pure (pending, triggers)

end WorkflowScheduler
