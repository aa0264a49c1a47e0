import WorkflowScheduler.Cron.Search

/-!
# Fire times in a window

The first fire time that is not before an instant, and all fire times of a window that is closed at
its start and open at its end.

## Main definitions

* `CronExpression.nextAtOrAfter`
* `CronExpression.fireTimes`: the fire times of a window, unless they are too many
-/

namespace WorkflowScheduler.CronExpression

/-- **The first fire time that is not before an instant.** The first one after the second before may
lie in the same second as the instant and before it; the one after that does not. -/
def nextAtOrAfter (e : CronExpression) (t : Instant) : Except OutOfCalendar (Option Instant) := do
  let before ← oneEarlier t
  match ← e.nextAfter before with
  | none => .ok none
  | some first => if t ≤ first then .ok (some first) else e.nextAfter first

/-- Why a window has no list of fire times. -/
inductive WindowFault where
  | outOfCalendar
  | tooMany
  deriving DecidableEq, Repr

/-- A step within the calendar. -/
def inCalendar {α : Type} : Except OutOfCalendar α → Except WindowFault α
  | .ok a => .ok a
  | .error _ => .error .outOfCalendar

/-- The fire times before `stop`, from one of them on and each after the one before, of which there
may be at most `room`. -/
def chain (e : CronExpression) (stop : Instant) :
    Nat → Option Instant → Except WindowFault (List Instant)
  | _, none => .ok []
  | room, some t =>
    if stop ≤ t then .ok []
    else
      match room with
      | 0 => .error .tooMany
      | room + 1 => do
        let next ← inCalendar (e.nextAfter t)
        let ts ← chain e stop room next
        .ok (t :: ts)

/-- **The fire times from `start` up to but not including `stop`**, unless they are more than
`limit`. -/
def fireTimes (e : CronExpression) (start stop : Instant) (limit : Nat) :
    Except WindowFault (List Instant) := do
  if stop ≤ start then .ok []
  else
    let first ← inCalendar (e.nextAtOrAfter start)
    e.chain stop limit first

end WorkflowScheduler.CronExpression
