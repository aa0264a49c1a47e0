import WorkflowScheduler.Calendar.Instant
import WorkflowScheduler.Cron.Grammar
import WorkflowScheduler.Text.Blank

/-!
# Cron expressions

An expression has the fields second, minute, hour, day of month, month, day of week and perhaps
year, where `?` means the same as `*`. An expression with five fields lacks the second and fires at
second zero. All times are universal time.

## Main definitions

* `CronExpression`: a text with the values of its fields
* `CronExpression.parse`: reading one
* `CronExpression.Matches`: the instants that an expression names
-/

namespace WorkflowScheduler

/-- A cron expression: its text, as given, and the values of its fields. -/
structure CronExpression where
  source : String
  sets : Cron.Sets
  deriving DecidableEq, Repr

namespace CronExpression

/-- Why a text is no cron expression. -/
inductive Fault where
  | blank
  | unreadable
  deriving DecidableEq, Repr

/-- What a message says about a fault. -/
def Fault.reason : Fault → String
  | .blank => "empty expression"
  | .unreadable => "Invalid expression: Invalid cron expression."

/-- The text that is read: without blanks at its ends, with `*` for `?`, and with a zero in front of
five fields. -/
def normalize (cs : List Char) : List Char :=
  let cs := (Text.trim cs).map fun c => if c = '?' then '*' else c
  if Text.wordCount cs = 5 then '0' :: ' ' :: cs else cs

/-- **Reading a cron expression.** -/
def parse (source : String) : Except Fault CronExpression :=
  if Text.allBlank source then .error .blank
  else
    match Cron.Grammar.sets? (normalize source.toList) with
    | some sets => .ok ⟨source, sets⟩
    | none => .error .unreadable

/-- Whether a reading of the clock lies in all fields of an expression. -/
def MatchesClock (e : CronExpression) (c : Clock) : Prop :=
  c.second ∈ e.sets.seconds ∧ c.minute ∈ e.sets.minutes ∧ c.hour ∈ e.sets.hours
    ∧ c.date.day ∈ e.sets.days ∧ c.date.month ∈ e.sets.months
    ∧ c.date.weekday ∈ e.sets.weekdays ∧ ∃ y ∈ e.sets.years, c.date.year = (y : Int)

/-- **The instants that an expression names**: whole seconds whose clock lies in all fields. -/
def Matches (e : CronExpression) (t : Instant) : Prop :=
  t.nanos = 0 ∧ e.MatchesClock t.clock

end CronExpression

end WorkflowScheduler
