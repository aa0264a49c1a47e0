import WorkflowScheduler.Error
import WorkflowScheduler.Executor.Registry
import WorkflowScheduler.Service.Message
import WorkflowScheduler.Text.Blank

/-!
# The inventory of an agent

An agent is an executor that holds executions. It answers the calls of the master; it does not run
anything, so that an execution stays with it until it is cancelled or taken away.

## Main definitions

* `Inventory`: the executions that an agent holds
* `Inventory.submit`, `Inventory.cancel`: how the calls of a master are answered
-/

namespace WorkflowScheduler

/-- The executions that an agent holds. -/
structure Inventory where
  held : IdSet
  deriving DecidableEq, Repr

namespace Inventory

/-- An inventory that holds nothing. -/
def empty : Inventory := ⟨.empty⟩

/-- The executions that are held, ascending. -/
def execIds (v : Inventory) : List Int :=
  v.held.ids

/-- Whether an execution is held. -/
def contains (v : Inventory) (id : Int) : Bool :=
  v.held.contains id

/-- Hold an execution. The answer says whether it was not held before. -/
def insert (v : Inventory) (id : Int) : Bool × Inventory :=
  (!v.contains id, ⟨v.held.insert id⟩)

/-- Let go of an execution. The answer says whether it was held. -/
def remove (v : Inventory) (id : Int) : Bool × Inventory :=
  (v.contains id, ⟨v.held.erase id⟩)

/-- The envelope of a call that is refused. -/
def refusal (e : MasterError) : Envelope := ⟨e.code, e.message⟩

/-- **Accept an execution**, of which the category must not be blank. One that is held already is
accepted again. -/
def submit (v : Inventory) (id : Int) (flowKind : String) : Envelope × Inventory :=
  if Text.allBlank flowKind then (refusal (.validation "flow type is empty"), v)
  else (.ok, (v.insert id).2)

/-- Accept an ad-hoc request. -/
def adHoc (v : Inventory) (_id : Int) : Envelope × Inventory :=
  (.ok, v)

/-- **Cancel an execution**, which must be held. -/
def cancel (v : Inventory) (id : Int) : Envelope × Inventory :=
  match v.remove id with
  | (true, v) => (.ok, v)
  | (false, v) => (refusal (.executionNotFound id), v)

end Inventory

end WorkflowScheduler
