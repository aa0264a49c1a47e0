/-!
# The status of an execution

The eight states an execution can be in, in the order of their ordinals, which is the order of its
life. The last four are terminal.

## Main definitions

* `Status`, `Status.name`, `Status.ordinal`, `Status.ofOrdinal?`
* `Status.isFinished`: the terminal states

## Main results

* `Status.ofOrdinal?_ordinal`: ordinals are read back
* `Status.isFinished_iff`: the terminal states are those from ordinal 4 on
-/

namespace WorkflowScheduler

/-- The state of an execution. -/
inductive Status where
  | init
  | waitingDep
  | waitingRes
  | running
  | success
  | kill
  | failed
  | depFailed
  deriving DecidableEq, Repr

namespace Status

/-- All states, in the order of their ordinals. -/
def all : List Status :=
  [.init, .waitingDep, .waitingRes, .running, .success, .kill, .failed, .depFailed]

/-- The place of a state in the life of an execution. -/
def ordinal : Status → Nat
  | .init => 0
  | .waitingDep => 1
  | .waitingRes => 2
  | .running => 3
  | .success => 4
  | .kill => 5
  | .failed => 6
  | .depFailed => 7

/-- The state with an ordinal. -/
def ofOrdinal? (n : Int) : Option Status :=
  all.find? fun s => (s.ordinal : Int) = n

/-- Whether a state is terminal. -/
def isFinished : Status → Bool
  | .success => true
  | .kill => true
  | .failed => true
  | .depFailed => true
  | _ => false

/-- The stored name of a state. -/
def name : Status → String
  | .init => "INIT"
  | .waitingDep => "WAITING_DEP"
  | .waitingRes => "WAITING_RES"
  | .running => "RUNNING"
  | .success => "SUCCESS"
  | .kill => "KILL"
  | .failed => "FAILED"
  | .depFailed => "DEP_FAILED"

/-- The states by name. -/
def named : List (String × Status) :=
  all.map fun s => (s.name, s)

/-- The order of the ordinals. -/
def cmp (a b : Status) : Ordering :=
  compare a.ordinal b.ordinal

theorem ofOrdinal?_ordinal (s : Status) : ofOrdinal? s.ordinal = some s := by
  cases s <;> rfl

theorem isFinished_iff (s : Status) : s.isFinished = true ↔ 4 ≤ s.ordinal := by
  cases s <;> decide

end Status

end WorkflowScheduler
