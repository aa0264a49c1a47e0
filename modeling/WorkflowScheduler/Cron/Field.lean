/-!
# Fields of a cron expression

A field of an expression names some of the values of one unit of time. It is a list of items, and
each item stands for an arithmetic progression within the bounds of the unit: all values, one value,
a range, or every so many values of these. Months and days of the week may be named.

## Main definitions

* `Cron.Domain`: the bounds of a unit and the names of its values
* `Cron.Item`: an item as written
* `Cron.Progression`: what a valid item stands for
* `Cron.fieldValues?`: the values of a field, ascending
-/

namespace WorkflowScheduler.Cron

/-- The bounds of a unit of time, and the names that its values have, in lower case. -/
structure Domain where
  lo : Nat
  hi : Nat
  names : List (String × Nat)

namespace Domain

/-- Seconds, and likewise minutes. -/
def sixty : Domain := ⟨0, 59, []⟩

/-- Hours of the day. -/
def hours : Domain := ⟨0, 23, []⟩

/-- Days of the month. -/
def days : Domain := ⟨1, 31, []⟩

/-- Months. -/
def months : Domain where
  lo := 1
  hi := 12
  names :=
    [("jan", 1), ("january", 1), ("feb", 2), ("february", 2), ("mar", 3), ("march", 3), ("apr", 4),
      ("april", 4), ("may", 5), ("jun", 6), ("june", 6), ("jul", 7), ("july", 7), ("aug", 8),
      ("august", 8), ("sep", 9), ("september", 9), ("oct", 10), ("october", 10), ("nov", 11),
      ("november", 11), ("dec", 12), ("december", 12)]

/-- Days of the week, from Sunday. -/
def weekdays : Domain where
  lo := 1
  hi := 7
  names :=
    [("sun", 1), ("sunday", 1), ("mon", 2), ("monday", 2), ("tue", 3), ("tues", 3), ("tuesday", 3),
      ("wed", 4), ("wednesday", 4), ("thu", 5), ("thurs", 5), ("thursday", 5), ("fri", 6),
      ("friday", 6), ("sat", 7), ("saturday", 7)]

/-- Years. -/
def years : Domain := ⟨1970, 2100, []⟩

/-- All values of a unit, ascending. -/
def values (d : Domain) : List Nat :=
  List.range' d.lo (d.hi + 1 - d.lo)

/-- A value that lies within the bounds. -/
def bounded? (d : Domain) (n : Nat) : Option Nat :=
  if d.lo ≤ n ∧ n ≤ d.hi then some n else none

/-- The value with a name, in any case. -/
def named? (d : Domain) (name : List Char) : Option Nat :=
  d.names.lookup (String.ofList (name.map Char.toLower))

end Domain

/-- A set of values as written. -/
inductive Span where
  | all
  | point (n : Nat)
  | range (first last : Nat)
  | namedRange (first last : List Char)
  deriving DecidableEq, Repr

/-- An item of a field as written. -/
inductive Item where
  | span (s : Span)
  | every (s : Span) (step : Nat)
  | name (s : List Char)
  deriving DecidableEq, Repr

/-- The values `first`, `first + step`, … up to `last`. -/
structure Progression where
  first : Nat
  last : Nat
  step : Nat
  deriving DecidableEq, Repr

namespace Progression

/-- Whether a value belongs to a progression. -/
def contains (p : Progression) (n : Nat) : Bool :=
  p.first ≤ n && n ≤ p.last && (n - p.first) % p.step == 0

end Progression

/-- The first and last value of a span. A range must not run backwards. -/
def Span.ends? (d : Domain) : Span → Option (Nat × Nat)
  | .all => some (d.lo, d.hi)
  | .point n => do
    let n ← d.bounded? n
    some (n, n)
  | .range a b => do
    let a ← d.bounded? a
    let b ← d.bounded? b
    if a ≤ b then some (a, b) else none
  | .namedRange a b => do
    let a ← d.named? a
    let b ← d.named? b
    if a ≤ b then some (a, b) else none

/-- **What an item stands for**, if it is valid. A step from one value runs on to the end of the
unit. -/
def Item.progression? (d : Domain) : Item → Option Progression
  | .span s => do
    let (a, b) ← s.ends? d
    some ⟨a, b, 1⟩
  | .every s step => do
    let (a, b) ← s.ends? d
    if step = 0 then none
    else
      match s with
      | .point _ => some ⟨a, d.hi, step⟩
      | _ => some ⟨a, b, step⟩
  | .name s => do
    let n ← d.named? s
    some ⟨n, n, 1⟩

/-- **The values of a field**, ascending, if all its items are valid: the values that some item
stands for. -/
def fieldValues? (d : Domain) (items : List Item) : Option (List Nat) := do
  let ps ← items.mapM (Item.progression? d)
  some (d.values.filter fun n => ps.any (·.contains n))

end WorkflowScheduler.Cron
