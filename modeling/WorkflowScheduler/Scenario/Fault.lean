import WorkflowScheduler.Store.Request

/-!
# A store that fails as planned

A plan says how the next requests of each kind fare: they fail, they find nothing, or they are
answered by the store behind. A request for which nothing is planned is answered by the store.

## Main definitions

* `StoreMethod`: the kinds of requests
* `Fault`, `FaultPlan`: what is planned
* `FaultPlan.answer`: the answers of a store under a plan
-/

namespace WorkflowScheduler

/-- The kinds of requests to a store. -/
inductive StoreMethod where
  | masterRecord
  | insertMasterRecord
  | touchMasterRecord
  | workflow
  | adHoc
  | schedule
  | onlineSchedules
  | createExecution
  | execution
  | executionsInStatus
  | transition
  deriving DecidableEq, Repr

/-- The kind of a request. -/
def StoreRequest.method : StoreRequest → StoreMethod
  | .masterRecord => .masterRecord
  | .insertMasterRecord _ _ => .insertMasterRecord
  | .touchMasterRecord _ _ => .touchMasterRecord
  | .workflow _ => .workflow
  | .adHoc _ => .adHoc
  | .schedule _ => .schedule
  | .onlineSchedules => .onlineSchedules
  | .createExecution _ => .createExecution
  | .execution _ => .execution
  | .executionsInStatus _ => .executionsInStatus
  | .transition _ _ _ => .transition

/-- How a request fares: it fails, it finds nothing, or the store answers it. -/
inductive Fault where
  | error (reason : String)
  | nothing
  | pass
  deriving DecidableEq, Repr

/-- The faults that are planned, the next one first for each kind of request. -/
abbrev FaultPlan := List (StoreMethod × Fault)

namespace FaultPlan

/-- The next fault for a kind of request, and the plan without it. -/
def next (m : StoreMethod) : FaultPlan → Fault × FaultPlan
  | [] => (.pass, [])
  | (n, f) :: plan =>
    if n = m then (f, plan)
    else
      let (g, plan) := next m plan
      (g, (n, f) :: plan)

/-- **The answer of a store under a plan.** A request that cannot find nothing is answered by the
store. -/
def answer (now : Instant) (r : StoreRequest) (plan : FaultPlan) (s : Store) :
    Except StoreError r.Value × FaultPlan × Store :=
  let real (plan : FaultPlan) :=
    let (a, s) := Store.answer now r s
    (a, plan, s)
  match next r.method plan with
  | (.error reason, plan) => (.error (.unavailable reason), plan, s)
  | (.pass, plan) => real plan
  | (.nothing, plan) =>
    match r.nothing? with
    | some a => (.ok a, plan, s)
    | none => real plan

end FaultPlan

end WorkflowScheduler
