import WorkflowScheduler.Program

/-!
# One master at a time

The master record of the store says which address is in charge. It is no lease: the record of a
master that died stays until someone clears it.

## Main definitions

* `Registrar.register`: claim the master record for an address
-/

namespace WorkflowScheduler.Registrar

/-- Renew a record that names the address; any other record is a conflict. -/
def judge (existing : MasterRecord) (host : String) (port : UInt16) : Operation MasterRecord :=
  if existing.isAt host port then Operation.store (.touchMasterRecord host port)
  else throw (.masterConflict existing)

/-- **Claim the master record for an address.** A claim that comes too late is judged by the record
of the one that came first. -/
def register (host : String) (port : UInt16) : Operation MasterRecord := do
  let found : Option MasterRecord ← Operation.store .masterRecord
  match found with
  | some existing => judge existing host port
  | none => do
    let claim : MasterClaim ← Operation.store (.insertMasterRecord host port)
    match claim with
    | .inserted r => pure r
    | .existing existing => judge existing host port

end WorkflowScheduler.Registrar
