import WorkflowScheduler.Text.Decimal

/-!
# Readers

A reader takes a value off the front of a text and says what is left, or fails. The grammars of this
library are readers put together by hand, so that each can be stepped through in a proof.

## Main definitions

* `Text.Reader`
* `Text.fixed`, `Text.upTo`, `Text.many`: digits, by how many there are
* `Text.oneOf`: a character out of a list
-/

namespace WorkflowScheduler.Text

/-- Takes a value off the front of a text. -/
abbrev Reader (α : Type) := List Char → Option (α × List Char)

/-- Exactly `n` digits. -/
def fixed (n : Nat) : Reader Nat := fun cs =>
  let ds := cs.take n
  if ds.length = n ∧ ds.all isDigit then some (ofDigits ds, cs.drop n) else none

/-- From one to `n` digits, as many as there are. -/
def upTo (n : Nat) : Reader Nat := fun cs =>
  let ds := (cs.take n).takeWhile isDigit
  if ds.isEmpty then none else some (ofDigits ds, cs.drop ds.length)

/-- One or more digits, as many as there are. -/
def many : Reader Nat := fun cs =>
  let ds := cs.takeWhile isDigit
  if ds.isEmpty then none else some (ofDigits ds, cs.drop ds.length)

/-- One character out of a list. -/
def oneOf (allowed : List Char) : Reader Unit
  | c :: cs => if c ∈ allowed then some ((), cs) else none
  | [] => none

end WorkflowScheduler.Text
