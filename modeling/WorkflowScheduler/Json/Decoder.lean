import WorkflowScheduler.Json.Draft
import WorkflowScheduler.Calendar.Stamp

/-!
# Decoding drafts

A decoder reads a value of one type out of a draft, or finds the first problem in it. Records are
read from an object, whose members may come in any order and whose unknown members are passed over,
or from an array of the field values in the order of the record.

## Main definitions

* `Decoder`, with decoders for numbers, strings, instants, lists and names
* `Fields`: a description of a record, built up field by field with `required`, `optional` and
  `withDefault`
* `record`: the decoder of a described record
* `decodeText`: a decoder applied to a whole text
-/

namespace WorkflowScheduler.Json

/-- How a value of a type is read, or the first problem found. -/
abbrev Decoder (α : Type) := Draft → Except Problem α

namespace Decoder

/-- The problem of a draft that is not what was asked for. -/
def mismatch : Draft → Problem
  | .absent => .truncated
  | .flawedText reading _ => reading
  | .flawed reading _ => reading
  | _ => .unfit

/-- A whole number between bounds. -/
def int (lo hi : Int) : Decoder Int
  | .int n => if lo ≤ n ∧ n ≤ hi then .ok n else .error .unfit
  | d => .error (mismatch d)

/-- A whole number of 32 bits with a sign. -/
def int32 : Decoder Int := int Text.minSigned32 Text.maxSigned32

/-- A whole number of 64 bits with a sign. -/
def int64 : Decoder Int := int Text.minSigned64 Text.maxSigned64

/-- A port number. -/
def port : Decoder Nat := fun d => (int 0 Text.maxUnsigned16 d).map Int.toNat

/-- A string. -/
def text : Decoder String
  | .text s => .ok s
  | d => .error (mismatch d)

/-- An instant, written as a relaxed time stamp. -/
def instant : Decoder Instant := fun d => do
  match Stamp.relaxed? (← text d) with
  | some t => .ok t
  | none => .error .unfit

/-- A value that may be `null`. -/
def nullable {α : Type} (dec : Decoder α) : Decoder (Option α)
  | .null => .ok none
  | d => (dec d).map some

/-- The elements of an array from one of them on. -/
def items {α : Type} (dec : Decoder α) (stop : Option Problem) :
    List Draft → Except Problem (List α)
  | [] =>
    match stop with
    | none => .ok []
    | some p => .error p
  | d :: ds => do
    let a ← dec d
    let as ← items dec stop ds
    .ok (a :: as)

/-- An array of values. -/
def list {α : Type} (dec : Decoder α) : Decoder (List α)
  | .array ds stop => items dec stop ds
  | d => .error (mismatch d)

/-- The value with a name. -/
def lookUp {α : Type} (names : List (String × α)) (name : String) : Except Problem α :=
  match names.lookup name with
  | some a => .ok a
  | none => .error .unfit

/-- The name of an object's member. -/
def memberName : Decoder String
  | .text s => .ok s
  | .flawedText reading _ => .error reading
  | .absent => .error .truncated
  | _ => .error .malformed

/-- **One of several named values**: the name as a string, or an object whose only member has that
name and the value `null`. -/
def named {α : Type} (names : List (String × α)) : Decoder α
  | .text s => lookUp names s
  | .flawedText reading _ => .error reading
  | .absent => .error .truncated
  | .object [] (some p) => .error p
  | .object [] none => .error .malformed
  | .object ((key, value) :: members) stop => do
    let a ← lookUp names (← memberName key)
    match value with
    | .null => pure ()
    | d => .error (mismatch d)
    if members.isEmpty then
      match stop with
      | none => .ok a
      | some p => .error p
    else .error .malformed
  | _ => .error .malformed

end Decoder

/-! ## Records -/

/-- What is asked of one field: its name, how its value is checked, whether an object may leave it
out, and whether an array may end before it. -/
structure FieldRule where
  name : String
  check : Draft → Except Problem Unit
  objectMayOmit : Bool
  arrayMayOmit : Bool

/-- The drafts found for the fields of a record, by name. -/
abbrev Found := List (String × Draft)

/-- **A description of a record**: the rules of its fields, in order, and how the record is built
from the drafts found for them. -/
structure Fields (α : Type) where
  rules : List FieldRule
  build : Found → Except Problem α

namespace Fields

instance : Functor Fields where
  map f r := ⟨r.rules, fun found => (r.build found).map f⟩

instance : Seq Fields where
  seq f r :=
    ⟨f.rules ++ (r ()).rules, fun found => do
      let g ← f.build found
      let a ← (r ()).build found
      .ok (g a)⟩

/-- A field that must be there. -/
def required {α : Type} (name : String) (dec : Decoder α) : Fields α where
  rules := [⟨name, fun d => (dec d).map fun _ => (), false, false⟩]
  build found :=
    match found.lookup name with
    | some d => dec d
    | none => .error .unfit

/-- A field with a value for the case that it is left out; it must not be `null`. -/
def withDefault {α : Type} (name : String) (dec : Decoder α) (default : α) : Fields α where
  rules := [⟨name, fun d => (dec d).map fun _ => (), true, true⟩]
  build found :=
    match found.lookup name with
    | some d => dec d
    | none => .ok default

/-- A field that may be `null`, and that an object may leave out. -/
def optional {α : Type} (name : String) (dec : Decoder α) (arrayMayOmit : Bool := false) :
    Fields (Option α) where
  rules := [⟨name, fun d => (dec.nullable d).map fun _ => (), true, arrayMayOmit⟩]
  build found :=
    match found.lookup name with
    | some d => dec.nullable d
    | none => .ok none

/-- The drafts for the fields among the members of an object, each field at most once. -/
def ofMembers (rules : List FieldRule) (stop : Option Problem) (found : Found) :
    List (Draft × Draft) → Except Problem Found
  | [] =>
    match stop with
    | some p => .error p
    | none =>
      if rules.all fun r => r.objectMayOmit || (found.lookup r.name).isSome then .ok found
      else .error .unfit
  | (key, value) :: members =>
    match key with
    | .text name =>
      match rules.find? fun r => r.name == name with
      | some r =>
        if (found.lookup name).isSome then .error .unfit
        else do
          r.check value
          ofMembers rules stop ((name, value) :: found) members
      | none =>
        match value.passOver with
        | some p => .error p
        | none => ofMembers rules stop found members
    | .flawedText reading _ => .error reading
    | .absent => .error .truncated
    | _ => .error .malformed

/-- The drafts for the fields among the elements of an array, in the order of the record. -/
def ofItems (stop : Option Problem) : List FieldRule → List Draft → Except Problem Found
  | [], [] =>
    match stop with
    | some p => .error p
    | none => .ok []
  | [], _ :: _ => .error .malformed
  | r :: rs, [] =>
    match stop with
    | some p => .error p
    | none => if (r :: rs).all (·.arrayMayOmit) then .ok [] else .error .unfit
  | r :: rs, d :: ds => do
    r.check d
    let found ← ofItems stop rs ds
    .ok ((r.name, d) :: found)

end Fields

/-- **The decoder of a described record.** -/
def record {α : Type} (fields : Fields α) : Decoder α
  | .object members stop => do fields.build (← Fields.ofMembers fields.rules stop [] members)
  | .array ds stop => do fields.build (← Fields.ofItems stop fields.rules ds)
  | d => .error (Decoder.mismatch d)

/-- **A decoder applied to a whole text**, which must hold nothing after the value. -/
def decodeText {α : Type} (dec : Decoder α) (s : String) : Except Problem α :=
  let (d, after) := Draft.ofText s
  match dec d, after with
  | .error p, _ => .error p
  | .ok _, some p => .error p
  | .ok a, none => .ok a

end WorkflowScheduler.Json
