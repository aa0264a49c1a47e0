import WorkflowScheduler.Cron.Field
import WorkflowScheduler.Text.Reader

/-!
# Grammar of cron expressions

An expression has six fields and perhaps a seventh, or is one of five keywords. Blanks are allowed
around every number and name, so a range may be written `10 - 20`; between fields they are not
needed. A field that has been read is never read again in another way.

## Main definitions

* `Cron.Grammar.field`: the items of a field
* `Cron.Sets`: the values of the seven fields
* `Cron.Grammar.sets?`: the fields of a whole expression
-/

namespace WorkflowScheduler.Cron

/-- The values of the seven fields of an expression, each ascending. -/
structure Sets where
  seconds : List Nat
  minutes : List Nat
  hours : List Nat
  days : List Nat
  months : List Nat
  weekdays : List Nat
  years : List Nat
  deriving DecidableEq, Repr

namespace Grammar

open Text (Reader many oneOf)

/-- The blanks of the grammar. -/
def isGap (c : Char) : Bool :=
  c = ' ' || c = '\t' || c = '\r' || c = '\n'

/-- The text without the blanks in front. -/
def skipGap (cs : List Char) : List Char :=
  cs.dropWhile isGap

/-- A number of at most 32 bits, with blanks around it. -/
def ordinal : Reader Nat := fun cs => do
  let (n, cs) ← many (skipGap cs)
  if n ≤ Text.maxUnsigned32 then some (n, skipGap cs) else none

/-- Whether a character is a letter of a name. -/
def isLetter (c : Char) : Bool :=
  ('a' ≤ c && c ≤ 'z') || ('A' ≤ c && c ≤ 'Z')

/-- A name, with blanks around it. -/
def name : Reader (List Char) := fun cs =>
  let cs := skipGap cs
  let letters := cs.takeWhile isLetter
  if letters.isEmpty then none else some (letters, skipGap (cs.drop letters.length))

/-- Everything. -/
def star : Reader Span := fun cs => do
  let (_, cs) ← oneOf ['*'] cs
  some (.all, cs)

/-- Two numbers with a hyphen between. -/
def range : Reader Span := fun cs => do
  let (a, cs) ← ordinal cs
  let (_, cs) ← oneOf ['-'] cs
  let (b, cs) ← ordinal cs
  some (.range a b, cs)

/-- One number. -/
def point : Reader Span := fun cs => do
  let (n, cs) ← ordinal cs
  some (.point n, cs)

/-- Two names with a hyphen between. -/
def namedRange : Reader Span := fun cs => do
  let (a, cs) ← name cs
  let (_, cs) ← oneOf ['-'] cs
  let (b, cs) ← name cs
  some (.namedRange a b, cs)

/-- A set of values: the first way to read it that succeeds. -/
def span : Reader Span := fun cs =>
  (star cs).or ((range cs).or ((point cs).or (namedRange cs)))

/-- A set of values with a step. -/
def stepped : Reader Item := fun cs => do
  let (s, cs) ← span cs
  let (_, cs) ← oneOf ['/'] cs
  let (n, cs) ← ordinal cs
  some (.every s n, cs)

/-- An item: the first way to read it that succeeds. -/
def item : Reader Item := fun cs =>
  (stepped cs).or (((span cs).map fun (s, cs) => (.span s, cs)).or
    ((name cs).map fun (s, cs) => (.name s, cs)))

/-- Further items after an item. A comma is taken only together with the item after it. The first
argument bounds the number of items. -/
def moreItems : Nat → List Char → List Item × List Char
  | 0, cs => ([], cs)
  | fuel + 1, cs =>
    match cs with
    | ',' :: rest =>
      match item rest with
      | some (i, rest) =>
        let (is, rest) := moreItems fuel rest
        (i :: is, rest)
      | none => ([], cs)
    | cs => ([], cs)

/-- **The items of a field**, with blanks around them. -/
def field : Reader (List Item) := fun cs => do
  let (i, cs) ← item (skipGap cs)
  let (is, cs) := moreItems cs.length cs
  some (i :: is, skipGap cs)

/-- The values of a field. -/
def values (d : Domain) : Reader (List Nat) := fun cs => do
  let (is, cs) ← field cs
  let ns ← fieldValues? d is
  some (ns, cs)

/-- Six fields, and a seventh if it can be read. -/
def fields? (cs : List Char) : Option Sets := do
  let (seconds, cs) ← values .sixty cs
  let (minutes, cs) ← values .sixty cs
  let (hours, cs) ← values .hours cs
  let (days, cs) ← values .days cs
  let (months, cs) ← values .months cs
  let (weekdays, cs) ← values .weekdays cs
  let (years, cs) := (values .years cs).getD (Domain.years.values, cs)
  if cs.isEmpty then some ⟨seconds, minutes, hours, days, months, weekdays, years⟩ else none

/-- The expression that a keyword stands for. -/
def keyword? (cs : List Char) : Option Sets :=
  let all := Sets.mk [0] [0] [0] [1] [1] Domain.weekdays.values Domain.years.values
  if cs = "@yearly".toList then some all
  else if cs = "@monthly".toList then some { all with months := Domain.months.values }
  else if cs = "@weekly".toList then
    some { all with days := Domain.days.values, months := Domain.months.values, weekdays := [1] }
  else if cs = "@daily".toList then
    some { all with days := Domain.days.values, months := Domain.months.values }
  else if cs = "@hourly".toList then
    some
      { all with
        hours := Domain.hours.values, days := Domain.days.values, months := Domain.months.values }
  else none

/-- **The fields of a whole expression.** -/
def sets? (cs : List Char) : Option Sets :=
  let trimmed := (skipGap (skipGap cs).reverse).reverse
  (keyword? trimmed).or (fields? cs)

end Grammar

end WorkflowScheduler.Cron
