import WorkflowScheduler.Calendar.Date

/-!
# Instants

Points in time: whole seconds from 1970-01-01 00:00:00 and nanoseconds within the second. The
second before a leap second is followed by further nanoseconds from `10 ^ 9` on, so that a leap
second lies after its second and before the next one. Instants are limited to the years -262143 to
262142, and steps that leave them have no result.

## Main definitions

* `Instant`, with the order by seconds and then nanoseconds
* `Instant.ofMillis?`, `Instant.toMillis`: milliseconds from the epoch
* `Instant.nextSecond?`, `Instant.previousSecond?`: one second later and earlier
* `Clock`: date and time of day; `Instant.clock` and `Clock.instant`
-/

namespace WorkflowScheduler

/-- A point in time: seconds from 1970-01-01 00:00:00 and nanoseconds within the second, which
reach `10 ^ 9` and more within a leap second. -/
structure Instant where
  seconds : Int
  nanos : Nat
  deriving DecidableEq, Repr

namespace Instant

/-- The first second of the year -262143. -/
def firstSecond : Int := -8334601228800

/-- The last second of the year 262142. -/
def lastSecond : Int := 8210266876799

/-- Whether an instant lies within the representable years. -/
def InRange (t : Instant) : Prop :=
  firstSecond ≤ t.seconds ∧ t.seconds ≤ lastSecond

instance (t : Instant) : Decidable t.InRange :=
  inferInstanceAs (Decidable (_ ∧ _))

instance : LT Instant :=
  ⟨fun a b => a.seconds < b.seconds ∨ a.seconds = b.seconds ∧ a.nanos < b.nanos⟩

instance : LE Instant :=
  ⟨fun a b => a.seconds < b.seconds ∨ a.seconds = b.seconds ∧ a.nanos ≤ b.nanos⟩

instance (a b : Instant) : Decidable (a < b) :=
  inferInstanceAs (Decidable (_ ∨ _ ∧ _))

instance (a b : Instant) : Decidable (a ≤ b) :=
  inferInstanceAs (Decidable (_ ∨ _ ∧ _))

theorem lt_iff {a b : Instant} :
    a < b ↔ a.seconds < b.seconds ∨ a.seconds = b.seconds ∧ a.nanos < b.nanos :=
  Iff.rfl

theorem le_iff {a b : Instant} :
    a ≤ b ↔ a.seconds < b.seconds ∨ a.seconds = b.seconds ∧ a.nanos ≤ b.nanos :=
  Iff.rfl

theorem not_lt {a b : Instant} : ¬ a < b ↔ b ≤ a := by
  rw [lt_iff, le_iff]; omega

/-- The later of two instants. -/
def latest (a b : Instant) : Instant :=
  if a < b then b else a

/-- Keep an instant that is representable. -/
def inRange? (t : Instant) : Option Instant :=
  if t.InRange then some t else none

/-- The instant a number of milliseconds after the epoch. -/
def ofMillis (ms : Int) : Instant :=
  ⟨ms / 1000, (ms % 1000).toNat * 1000000⟩

/-- **The representable instant a number of milliseconds after the epoch.** -/
def ofMillis? (ms : Int) : Option Instant :=
  (ofMillis ms).inRange?

/-- **The milliseconds from the epoch**, with what is finer cut off towards the past. -/
def toMillis (t : Instant) : Int :=
  t.seconds * 1000 + (t.nanos / 1000000 : Nat)

theorem toMillis_ofMillis (ms : Int) : (ofMillis ms).toMillis = ms := by
  unfold ofMillis toMillis
  simp only
  omega

/-- Whether an instant lies within a leap second. -/
def InLeapSecond (t : Instant) : Prop :=
  1000000000 ≤ t.nanos

instance (t : Instant) : Decidable t.InLeapSecond :=
  inferInstanceAs (Decidable (_ ≤ _))

/-- One second later. From within a leap second it leads as far into the next second. -/
def nextSecond (t : Instant) : Instant :=
  if t.InLeapSecond then ⟨t.seconds + 1, t.nanos - 1000000000⟩ else ⟨t.seconds + 1, t.nanos⟩

/-- One second earlier. From within a leap second it leads as far into the second before it. -/
def previousSecond (t : Instant) : Instant :=
  if t.InLeapSecond then ⟨t.seconds, t.nanos - 1000000000⟩ else ⟨t.seconds - 1, t.nanos⟩

/-- One second later, if that is representable. -/
def nextSecond? (t : Instant) : Option Instant :=
  t.nextSecond.inRange?

/-- One second earlier, if that is representable. -/
def previousSecond? (t : Instant) : Option Instant :=
  t.previousSecond.inRange?

end Instant

/-- Date and time of day, to the second. -/
structure Clock where
  date : Date
  hour : Nat
  minute : Nat
  second : Nat
  deriving DecidableEq, Repr

/-- The reading of a clock at an instant, with the fraction of the second dropped. A leap second
reads as the second before it. -/
def Instant.clock (t : Instant) : Clock :=
  let inDay := (t.seconds % 86400).toNat
  ⟨Date.ofDayNumber (t.seconds / 86400), inDay / 3600, inDay / 60 % 60, inDay % 60⟩

/-- The instant at which a clock shows a reading. -/
def Clock.instant (c : Clock) : Instant :=
  ⟨c.date.dayNumber * 86400 + (3600 * c.hour + 60 * c.minute + c.second : Nat), 0⟩

end WorkflowScheduler
