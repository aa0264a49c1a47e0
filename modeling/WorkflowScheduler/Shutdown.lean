import WorkflowScheduler.Timer

/-!
# Waiting for a task to end

At a shutdown a task gets some time to end by itself, and is aborted after that.

## Main definitions

* `TaskEnd`: when and how a task ends
* `joinWithGrace`: waiting for it
-/

namespace WorkflowScheduler

/-- How a task ends: by itself or by a panic, both after a timer that was set for a number of
milliseconds, or never. -/
inductive TaskEnd where
  | finishes (after : Nat)
  | panics (after : Nat)
  | never
  deriving DecidableEq, Repr

/-- What waiting for a task came to. -/
structure JoinReport where
  finished : Bool
  waitedMillis : Nat
  deriving DecidableEq, Repr

/-- When a task ends. -/
def TaskEnd.after? : TaskEnd → Option Nat
  | .finishes n => some (Timer.running n)
  | .panics n => some (Timer.running n)
  | .never => none

/-- **Wait for a task, less than `grace` milliseconds.** A panic is an end like any other, and a task
that ends just when the time is up comes too late. -/
def joinWithGrace (grace : Nat) (t : TaskEnd) : JoinReport :=
  match t.after? with
  | some n => if n < grace then ⟨true, n⟩ else ⟨false, grace⟩
  | none => ⟨false, grace⟩

end WorkflowScheduler
