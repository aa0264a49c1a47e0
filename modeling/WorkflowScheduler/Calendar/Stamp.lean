import WorkflowScheduler.Calendar.Instant
import WorkflowScheduler.Text.Blank
import WorkflowScheduler.Text.Bytes
import WorkflowScheduler.Text.Reader

/-!
# Reading time stamps

Two notations for an instant. The strict one has fields of fixed width and nothing around them. The
relaxed one allows blanks in front of its parts, shorter fields, years with a sign, and a run of
colons and blanks inside the offset. Both know second 60, a leap second, and fractions of which the
digits after the ninth are ignored.

## Main definitions

* `Stamp.Fields`: the parts of a time stamp, and `Stamp.Fields.instant?`, the instant they name
* `Stamp.strict`: the instant a strict stamp names, or `Stamp.Fault`, why it names none
* `Stamp.relaxed?`: the instant a relaxed stamp names
-/

namespace WorkflowScheduler.Stamp

open Text (Reader isDigit isBlank trimLeft ofDigits fixed upTo many oneOf)

/-- The parts of a time stamp; the offset is in minutes east of universal time. -/
structure Fields where
  year : Int
  month : Nat
  day : Nat
  hour : Nat
  minute : Nat
  second : Nat
  nanos : Nat
  offset : Int

/-- The first and the last representable year. -/
def firstYear : Int := -262143

/-- The last representable year. -/
def lastYear : Int := 262142

/-- **The instant that the parts name**, if they name one: the local date and the instant lie within
the representable years, and the offset is shorter than a day. -/
def Fields.instant? (f : Fields) : Option Instant :=
  let date : Date := ⟨f.year, f.month, f.day⟩
  if firstYear ≤ f.year ∧ f.year ≤ lastYear ∧ date.IsValid ∧ f.hour ≤ 23 ∧ f.minute ≤ 59
      ∧ f.second ≤ 60 ∧ f.offset.natAbs < 24 * 60 then
    let wall := (Clock.mk date f.hour f.minute (min f.second 59)).instant
    let leap := if f.second = 60 then 1000000000 else 0
    Instant.inRange? ⟨wall.seconds - 60 * f.offset, f.nanos + leap⟩
  else none

/-- An optional fraction of a second, in nanoseconds. A point needs a digit after it, and the digits
after the ninth are ignored. -/
def fraction : Reader Nat
  | '.' :: cs =>
    let ds := cs.takeWhile isDigit
    let kept := ds.take 9
    if ds.isEmpty then none
    else some (ofDigits kept * Nat.pow 10 (9 - kept.length), cs.drop ds.length)
  | cs => some (0, cs)

/-- The sign of an offset. -/
def sign : Reader Int
  | '+' :: cs => some (1, cs)
  | '-' :: cs => some (-1, cs)
  | '\u2212' :: cs => some (-1, cs)
  | _ => none

/-- Why a text is no strict time stamp. -/
inductive Fault where
  | tooShort
  | malformed
  | outOfRange
  | tooLong
  deriving DecidableEq, Repr

/-- The wording of a fault. -/
def Fault.message : Fault → String
  | .tooShort => "premature end of input"
  | .malformed => "input contains invalid characters"
  | .outOfRange => "input is out of range"
  | .tooLong => "trailing input"

/-- Takes a value off the front of a text, or tells why it cannot. -/
abbrev StrictReader (α : Type) := List Char → Except Fault (α × List Char)

/-- Exactly `n` digits of a number between bounds. A rest is too short by its bytes. -/
def strictDigits (n lo hi : Nat) : StrictReader Nat := fun cs =>
  if Text.byteCount cs < n then .error .tooShort
  else
    match fixed n cs with
    | none => .error .malformed
    | some (v, cs) => if lo ≤ v ∧ v ≤ hi then .ok (v, cs) else .error .outOfRange

/-- One character out of a list. -/
def strictMark (allowed : List Char) : StrictReader Unit
  | [] => .error .tooShort
  | c :: cs => if c ∈ allowed then .ok ((), cs) else .error .malformed

/-- An optional fraction of a second, in nanoseconds. -/
def strictFraction : StrictReader Nat
  | ['.'] => .error .tooShort
  | cs =>
    match fraction cs with
    | none => .error .malformed
    | some r => .ok r

/-- The offset of a strict stamp: `Z`, or a sign, hours, a colon and minutes. -/
def strictOffset : StrictReader Int
  | [] => .error .tooShort
  | 'Z' :: cs => .ok (0, cs)
  | 'z' :: cs => .ok (0, cs)
  | cs =>
    match sign cs with
    | none => .error .malformed
    | some (s, cs) => do
      let (h, cs) ← strictDigits 2 0 99 cs
      let (_, cs) ← strictMark [':'] cs
      let (m, cs) ← strictDigits 2 0 59 cs
      if h ≤ 23 then .ok (s * (60 * h + m : Nat), cs) else .error .outOfRange

/-- **The instant a strict time stamp names.** Of several faults the first one counts, from left to
right. -/
def strict (s : String) : Except Fault Instant := do
  let (year, cs) ← strictDigits 4 0 9999 s.toList
  let (_, cs) ← strictMark ['-'] cs
  let (month, cs) ← strictDigits 2 1 12 cs
  let (_, cs) ← strictMark ['-'] cs
  let (day, cs) ← strictDigits 2 1 31 cs
  let (_, cs) ← strictMark ['T', 't', ' '] cs
  let (hour, cs) ← strictDigits 2 0 23 cs
  let (_, cs) ← strictMark [':'] cs
  let (minute, cs) ← strictDigits 2 0 59 cs
  let (_, cs) ← strictMark [':'] cs
  let (second, cs) ← strictDigits 2 0 60 cs
  let (nanos, cs) ← strictFraction cs
  let (offset, cs) ← strictOffset cs
  if cs.isEmpty then
    match Fields.instant? ⟨year, month, day, hour, minute, second, nanos, offset⟩ with
    | some t => .ok t
    | none => .error .outOfRange
  else .error .tooLong

/-- Minutes of an offset. -/
def offsetMinutes : Reader Nat := fun cs => do
  let (m, cs) ← fixed 2 cs
  if m ≤ 59 then some (m, cs) else none

/-- The year of a relaxed stamp: up to four digits, or a sign and any number of digits. -/
def relaxedYear : Reader Int
  | '+' :: cs => (many cs).map fun (n, cs) => ((n : Int), cs)
  | '-' :: cs => (many cs).map fun (n, cs) => (-(n : Int), cs)
  | cs => (upTo 4 cs).map fun (n, cs) => ((n : Int), cs)

/-- The offset of a relaxed stamp: `Z` or `UTC` in any case, or a sign, two digits of hours, any run
of colons and blanks, and two digits of minutes. -/
def relaxedOffset : Reader Int
  | 'Z' :: cs => some (0, cs)
  | 'z' :: cs => some (0, cs)
  | cs =>
    if (cs.take 3).map Char.toUpper = ['U', 'T', 'C'] then some (0, cs.drop 3)
    else do
      let (s, cs) ← sign cs
      let (h, cs) ← fixed 2 cs
      let (m, cs) ← offsetMinutes (cs.dropWhile fun c => c = ':' || isBlank c)
      some (s * (60 * h + m : Nat), cs)

/-- **The instant a relaxed time stamp names.** -/
def relaxed? (s : String) : Option Instant := do
  let (year, cs) ← relaxedYear (trimLeft s.toList)
  let (_, cs) ← oneOf ['-'] (trimLeft cs)
  let (month, cs) ← upTo 2 (trimLeft cs)
  let (_, cs) ← oneOf ['-'] (trimLeft cs)
  let (day, cs) ← upTo 2 (trimLeft cs)
  let (_, cs) ← oneOf ['T', 't', ' '] cs
  let (hour, cs) ← upTo 2 (trimLeft cs)
  let (_, cs) ← oneOf [':'] (trimLeft cs)
  let (minute, cs) ← upTo 2 (trimLeft cs)
  let (_, cs) ← oneOf [':'] (trimLeft cs)
  let (second, cs) ← upTo 2 (trimLeft cs)
  let (nanos, cs) ← fraction cs
  let (offset, cs) ← relaxedOffset (trimLeft cs)
  if (trimLeft cs).isEmpty then
    Fields.instant? ⟨year, month, day, hour, minute, second, nanos, offset⟩
  else none

end WorkflowScheduler.Stamp
