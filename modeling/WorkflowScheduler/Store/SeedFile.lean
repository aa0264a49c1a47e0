import WorkflowScheduler.Catalog.Json
import WorkflowScheduler.Store.Basic

/-!
# Seed files

A store can be filled from a file that holds a seed as JSON in UTF-8.

## Main definitions

* `SeedFault`: why a file gives no seed
* `Store.ofSeedFile`: a store filled from the content of a file
-/

namespace WorkflowScheduler

/-- Why a file gives no seed: there is no such file, it holds no text, or the text holds no seed. -/
inductive SeedFault where
  | noFile
  | notText
  | unreadable (p : Json.Problem)
  deriving DecidableEq, Repr

/-- The wording of a fault of the file itself. -/
def SeedFault.message? : SeedFault → Option String
  | .noFile => some "Failed to read seed file: No such file or directory (os error 2)"
  | .notText => some "Failed to read seed file: stream did not contain valid UTF-8"
  | .unreadable _ => none

/-- **A store filled from the content of a file**, if there is such a file. -/
def Store.ofSeedFile (content : Option ByteArray) : Except SeedFault Store :=
  match content with
  | none => .error .noFile
  | some bytes =>
    match String.fromUTF8? bytes with
    | none => .error .notText
    | some text =>
      match Seed.read text with
      | .ok seed => .ok (Store.empty.load seed)
      | .error p => .error (.unreadable p)

end WorkflowScheduler
