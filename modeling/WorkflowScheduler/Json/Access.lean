import WorkflowScheduler.Json.Draft

/-!
# Lenient access

Where a sender may leave members out, a missing one stands for zero, for the empty text, for the
empty list or for nothing, as its type suggests. So does one of another type.

## Main definitions

* `Draft.member`: the member of an object with a name
* `Draft.intAt`, `Draft.textAt`, `Draft.intsAt`, …: what a member stands for
* `Draft.lastWins`: objects without repeated names
-/

namespace WorkflowScheduler.Json.Draft

/-- The member with a name, the last one if there are several. -/
def member (d : Draft) (name : String) : Draft :=
  match d with
  | .object members _ =>
    members.foldl
      (fun found m =>
        match m.1 with
        | .text k => if k == name then m.2 else found
        | _ => found)
      .null
  | _ => .null

/-- The text that a draft is. -/
def asText? : Draft → Option String
  | .text s => some s
  | _ => none

/-- The whole number that a draft is. -/
def asInt? : Draft → Option Int
  | .int n => some n
  | _ => none

/-- The items of a draft. -/
def asItems : Draft → List Draft
  | .array ds _ => ds
  | _ => []

/-- The text with a name, if there is one. -/
def textAt? (d : Draft) (name : String) : Option String :=
  (d.member name).asText?

/-- The text with a name. -/
def textAt (d : Draft) (name : String) : String :=
  (d.textAt? name).getD ""

/-- The whole number with a name, if there is one. -/
def intAt? (d : Draft) (name : String) : Option Int :=
  (d.member name).asInt?

/-- The whole number with a name. -/
def intAt (d : Draft) (name : String) : Int :=
  (d.intAt? name).getD 0

/-- The items with a name. -/
def itemsAt (d : Draft) (name : String) : List Draft :=
  (d.member name).asItems

/-- The texts with a name. -/
def textsAt (d : Draft) (name : String) : List String :=
  (d.itemsAt name).map fun i => i.asText?.getD ""

/-- The whole numbers with a name. -/
def intsAt (d : Draft) (name : String) : List Int :=
  (d.itemsAt name).map fun i => i.asInt?.getD 0

/-- What a part with a name stands for, if the part is an object. -/
def partAt? {α : Type} (d : Draft) (name : String) (f : Draft → α) : Option α :=
  match d.member name with
  | .object members stop => some (f (.object members stop))
  | _ => none

/-! ## Repeated names -/

/-- Of several members with one name the last one; a member whose name is no text is dropped. -/
def lastOnes (members : List (Draft × Draft)) : List (Draft × Draft) :=
  members.foldr
    (fun m later =>
      match m.1 with
      | .text k => if later.any fun l => l.1.asText? == some k then later else m :: later
      | _ => later)
    []

mutual

/-- **A draft in which of several members with one name the last one counts.** -/
def lastWins : Draft → Draft
  | .array ds stop => .array (lastWinsItems ds) stop
  | .object members stop => .object (lastOnes (lastWinsMembers members)) stop
  | d => d

/-- The same for items. -/
def lastWinsItems : List Draft → List Draft
  | [] => []
  | d :: ds => lastWins d :: lastWinsItems ds

/-- The same for the values of members. -/
def lastWinsMembers : List (Draft × Draft) → List (Draft × Draft)
  | [] => []
  | (k, d) :: ms => (k, lastWins d) :: lastWinsMembers ms

end

end WorkflowScheduler.Json.Draft
