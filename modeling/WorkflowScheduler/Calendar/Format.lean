import WorkflowScheduler.Calendar.Instant
import WorkflowScheduler.Text.Decimal

/-!
# Written instants

The three ways an instant is written. They share date, time of day and fraction of the second, and
differ in the mark between date and time and in what follows the time.

## Main definitions

* `Instant.display`: in messages, `2024-03-01 10:00:00 UTC`
* `Instant.stamp`: in records, `2024-03-01T10:00:00Z`
* `Instant.offsetStamp`: for readers of tables, `2024-03-01T10:00:00+00:00`
-/

namespace WorkflowScheduler

open Text (padded)

/-- A year has four digits; outside the years 0 to 9999 it has a sign in front. -/
def Date.yearText (year : Int) : String :=
  if 0 ≤ year ∧ year ≤ 9999 then padded 4 year.toNat
  else (if year < 0 then "-" else "+") ++ padded 4 year.natAbs

/-- Year, month and day, with hyphens between. -/
def Date.text (d : Date) : String :=
  Date.yearText d.year ++ "-" ++ padded 2 d.month ++ "-" ++ padded 2 d.day

namespace Instant

/-- The fraction of a second with 3, 6 or 9 digits, the fewest that lose nothing; none for a whole
second. -/
def fractionText (nanos : Nat) : String :=
  if nanos = 0 then ""
  else if nanos % 1000000 = 0 then "." ++ padded 3 (nanos / 1000000)
  else if nanos % 1000 = 0 then "." ++ padded 6 (nanos / 1000)
  else "." ++ padded 9 nanos

/-- The time of day. A leap second is second 60 of its minute. -/
def timeText (t : Instant) : String :=
  let c := t.clock
  let leap := if t.InLeapSecond then 1 else 0
  padded 2 c.hour ++ ":" ++ padded 2 c.minute ++ ":" ++ padded 2 (c.second + leap)
    ++ fractionText (t.nanos - 1000000000 * leap)

/-- How an instant reads in a message. -/
def display (t : Instant) : String :=
  t.clock.date.text ++ " " ++ t.timeText ++ " UTC"

/-- How an instant is written in a record. -/
def stamp (t : Instant) : String :=
  t.clock.date.text ++ "T" ++ t.timeText ++ "Z"

/-- How an instant is written with its offset from universal time, which is zero. -/
def offsetStamp (t : Instant) : String :=
  t.clock.date.text ++ "T" ++ t.timeText ++ "+00:00"

end Instant

end WorkflowScheduler
