/-!
# Timers

A timer rings some time after it is set. Times are numbers of milliseconds. There is a longest time
that a timer runs; one that is set for a longer time rings at the end of that.

## Main definitions

* `Timer.running`: how long a timer runs that is set for some time
-/

namespace WorkflowScheduler.Timer

/-- The longest time that a timer runs: thirty years of 365 days. -/
def longest : Nat := 946080000000

/-- **How long a timer runs that is set for some time.** -/
def running (millis : Nat) : Nat := min millis longest

end WorkflowScheduler.Timer
