import WorkflowScheduler.Cron.Expression

/-!
# The next fire time

The search for the first fire time after an instant goes through years, months, days, hours, minutes
and seconds, each within the one before. The clock one second after the instant gives a lower bound
for each unit but the year. A bound holds for the first value of the unit that is tried and is used
up by it; where a unit has moved on from its bound, the bounds of all finer units fall away. A day
with the wrong weekday is left without touching the bounds, which are used up by then.

## Main definitions

* `Cron.Lower`: the lower bounds that are not used up
* `Cron.firstClock`: the search
* `CronExpression.nextAfter`: the next fire time after an instant
-/

namespace WorkflowScheduler

namespace Cron

/-- The lower bounds that are not used up. -/
structure Lower where
  month : Option Nat
  day : Option Nat
  hour : Option Nat
  minute : Option Nat
  second : Option Nat
  deriving DecidableEq, Repr

namespace Lower

/-- The bounds that a clock gives. -/
def ofClock (c : Clock) : Lower :=
  ⟨some c.date.month, some c.date.day, some c.hour, some c.minute, some c.second⟩

/-- No bounds for seconds. -/
def pastSecond (b : Lower) : Lower := { b with second := none }

/-- No bounds for minutes and finer units. -/
def pastMinute (b : Lower) : Lower := { b.pastSecond with minute := none }

/-- No bounds for hours and finer units. -/
def pastHour (b : Lower) : Lower := { b.pastMinute with hour := none }

/-- No bounds for days and finer units. -/
def pastDay (b : Lower) : Lower := { b.pastHour with day := none }

/-- No bounds for months and finer units. -/
def pastMonth (b : Lower) : Lower := { b.pastDay with month := none }

end Lower

/-- How the search within a unit ended: with a fire time; with nothing; or, within a day, with a
time on a day of the wrong weekday. The bounds that are left go on with the search. -/
inductive Trial where
  | found (c : Clock)
  | nothing (b : Lower)
  | wrongWeekday (b : Lower)
  deriving DecidableEq, Repr

/-- The values of a field that are not below a bound. -/
def fromBound (bound : Nat) (values : List Nat) : List Nat :=
  values.filter (bound ≤ ·)

variable (s : Sets)

/-- The seconds of a minute: the first one that is left decides. -/
def trySeconds (date : Date) (hour minute : Nat) (b : Lower) : Trial :=
  let bound := b.second.getD 0
  let b := b.pastSecond
  match fromBound bound s.seconds with
  | [] => .nothing b
  | second :: _ =>
    if date.weekday ∈ s.weekdays then .found ⟨date, hour, minute, second⟩ else .wrongWeekday b

/-- The minutes of an hour, from those that are left. -/
def tryMinutes (date : Date) (hour : Nat) (b : Lower) : List Nat → Trial
  | [] => .nothing b
  | minute :: rest =>
    match trySeconds s date hour minute b with
    | .nothing b => tryMinutes date hour b.pastMinute rest
    | other => other

/-- The hours of a day, from those that are left. -/
def tryHours (date : Date) (b : Lower) : List Nat → Trial
  | [] => .nothing b
  | hour :: rest =>
    let bound := b.minute.getD 0
    let b := if bound ∈ s.minutes then { b with minute := none } else b.pastMinute
    match tryMinutes s date hour b (fromBound bound s.minutes) with
    | .nothing b => tryHours date b.pastHour rest
    | other => other

/-- The days of a month, from those that are left. -/
def tryDays (year month : Nat) (b : Lower) : List Nat → Trial
  | [] => .nothing b
  | day :: rest =>
    let bound := b.hour.getD 0
    let b := if bound ∈ s.hours then { b with hour := none } else b.pastHour
    match tryHours s ⟨year, month, day⟩ b (fromBound bound s.hours) with
    | .nothing b => tryDays year month b.pastDay rest
    | .wrongWeekday b => tryDays year month b rest
    | other => other

/-- The days of a month that are not below a bound; a bound past the end of the month allows its
last day. -/
def daysFromBound (year month bound : Nat) : List Nat :=
  let last := Date.monthLength year month
  s.days.filter fun day => min bound last ≤ day ∧ day ≤ last

/-- The months of a year, from those that are left. -/
def tryMonths (year : Nat) (b : Lower) : List Nat → Trial
  | [] => .nothing b
  | month :: rest =>
    let bound := b.day.getD 1
    let b := if bound ∈ s.days then { b with day := none } else b.pastDay
    match tryDays s year month b (daysFromBound s year month bound) with
    | .nothing b => tryMonths year b.pastMonth rest
    | other => other

/-- The years that are left. -/
def tryYears (b : Lower) : List Nat → Option Clock
  | [] => none
  | year :: rest =>
    let bound := b.month.getD 1
    let b := if bound ∈ s.months then { b with month := none } else b.pastMonth
    match tryMonths s year b (fromBound bound s.months) with
    | .found c => some c
    | .nothing b => tryYears b rest
    | .wrongWeekday b => tryYears b rest

/-- **The first clock that the search finds** from a given clock on. -/
def firstClock (start : Clock) : Option Clock :=
  if start.date.year < 0 then none
  else tryYears s (Lower.ofClock start) (s.years.filter fun y => start.date.year ≤ (y : Int))

end Cron

/-- A step of one second has left the representable years. -/
inductive OutOfCalendar where
  | outOfCalendar
  deriving DecidableEq, Repr

namespace CronExpression

/-- One second later, where there is such a second. -/
def oneLater (t : Instant) : Except OutOfCalendar Instant :=
  match t.nextSecond? with
  | some t => .ok t
  | none => .error .outOfCalendar

/-- One second earlier, where there is such a second. -/
def oneEarlier (t : Instant) : Except OutOfCalendar Instant :=
  match t.previousSecond? with
  | some t => .ok t
  | none => .error .outOfCalendar

/-- **The next fire time after an instant**, if the search finds one. -/
def nextAfter (e : CronExpression) (t : Instant) : Except OutOfCalendar (Option Instant) := do
  let start ← oneLater t
  .ok ((Cron.firstClock e.sets start.clock).map Clock.instant)

end CronExpression

end WorkflowScheduler
