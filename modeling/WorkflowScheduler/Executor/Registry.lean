import WorkflowScheduler.Calendar.Instant
import WorkflowScheduler.Execution.IdSet
import WorkflowScheduler.Executor.Address

/-!
# The registry of executors

The executors that are believed to be alive, in the order of their addresses. An executor comes in
by registering or by its first heartbeat, and goes only when it is evicted; there is no time limit.
Executors are picked in rotation: a counter that wraps at 64 bits, taken modulo the number of
executors.

## Main definitions

* `Heartbeat`: what an executor reported last
* `Executor`: an entry of the registry
* `Registry`, with `register`, `report`, `pick`, `evict`, `get?`

## Main results

* `Registry.Ordered.upsert`: a list of executors stays in the order of their addresses
-/

namespace WorkflowScheduler

/-- The executions that an executor reported to hold, and when. -/
structure Heartbeat where
  reportedAt : Instant
  execIds : IdSet
  deriving DecidableEq, Repr

/-- A report of held executions, in any order. -/
def Heartbeat.of (reportedAt : Instant) (execIds : List Int) : Heartbeat :=
  ⟨reportedAt, .ofList execIds⟩

/-- An executor that is believed to be alive. -/
structure Executor where
  address : Address
  registeredAt : Instant
  heartbeat : Option Heartbeat
  deriving DecidableEq, Repr

/-- The executions that an executor reported last, ascending. -/
def Executor.execIds (e : Executor) : List Int :=
  match e.heartbeat with
  | none => []
  | some h => h.execIds.ids

/-- What an executor reported last ascends. -/
theorem Executor.ascending (e : Executor) : e.execIds.Pairwise (· < ·) := by
  unfold execIds
  split
  · exact .nil
  · next h _ => exact h.execIds.ascending

/-- Executors in the order of their addresses. -/
def Registry.Ordered (es : List Executor) : Prop :=
  es.Pairwise fun x y => x.address.Precedes y.address

/-- **The executors that are believed to be alive**, ascending by address, so that each address has
one entry; and the counter of picks. -/
structure Registry where
  executors : List Executor
  cursor : UInt64
  ordered : Registry.Ordered executors
  deriving DecidableEq, Repr

namespace Registry

/-- A registry without executors. -/
def empty : Registry := ⟨[], 0, .nil⟩

/-- The entry of an address. -/
def get? (r : Registry) (a : Address) : Option Executor :=
  r.executors.find? fun e => e.address = a

/-- Change the entry of an address, or put a new one at its place. -/
def upsert (a : Address) (change : Executor → Executor) (new : Executor) :
    List Executor → List Executor
  | [] => [new]
  | e :: es =>
    if e.address = a then change e :: es
    else if a.Precedes e.address then new :: e :: es
    else e :: upsert a change new es

section Upsert

variable {a : Address} {change : Executor → Executor} {new : Executor} {es : List Executor}

/-- What holds of the entry that comes in, and of the others before and after a change, holds of
all. -/
theorem forall_mem_upsert {P : Executor → Prop} (hchange : ∀ e, P e → P (change e)) (hnew : P new)
    (hes : ∀ e ∈ es, P e) : ∀ x ∈ upsert a change new es, P x := by
  induction es with
  | nil => simpa [upsert] using hnew
  | cons e es ih =>
    obtain ⟨he, hes⟩ := List.forall_mem_cons.mp hes
    unfold upsert
    split
    · exact List.forall_mem_cons.mpr ⟨hchange e he, hes⟩
    · split
      · exact List.forall_mem_cons.mpr ⟨hnew, List.forall_mem_cons.mpr ⟨he, hes⟩⟩
      · exact List.forall_mem_cons.mpr ⟨he, ih hes⟩

theorem Ordered.upsert (h : Ordered es) (hchange : ∀ e, (change e).address = e.address)
    (hnew : new.address = a) : Ordered (upsert a change new es) := by
  induction h with
  | nil => simp [Registry.upsert, Ordered]
  | cons he hes ih =>
    next e es =>
    unfold Registry.upsert
    split
    · exact .cons (fun x hx => hchange e ▸ he x hx) hes
    · next hne =>
      split
      · next hlt =>
        refine .cons (fun x hx => ?_) (.cons he hes)
        rw [hnew]
        rcases List.mem_cons.mp hx with rfl | hx
        · exact hlt
        · exact hlt.trans (he x hx)
      · next hle =>
        -- the entry goes behind this one
        refine .cons (forall_mem_upsert (fun x hx => hchange x ▸ hx) ?_ he) ih
        rw [hnew]
        exact Address.precedes_of_not_precedes (Ne.symm hne) hle

end Upsert

/-- **Register an executor**, or renew the registration time of a known one. -/
def register (r : Registry) (a : Address) (at_ : Instant) : Registry :=
  { r with
    executors := upsert a (fun e => { e with registeredAt := at_ }) ⟨a, at_, none⟩ r.executors
    ordered := r.ordered.upsert (fun _ => rfl) rfl }

/-- **Take a heartbeat.** An unknown executor is registered by it. -/
def report (r : Registry) (a : Address) (h : Heartbeat) : Registry :=
  { r with
    executors :=
      upsert a (fun e => { e with heartbeat := some h }) ⟨a, h.reportedAt, some h⟩ r.executors
    ordered := r.ordered.upsert (fun _ => rfl) rfl }

/-- **The next executor in rotation.** The counter moves only if there is one. -/
def pick (r : Registry) : Option Executor × Registry :=
  if r.executors.isEmpty then (none, r)
  else
    (r.executors[r.cursor.toNat % r.executors.length]?, { r with cursor := r.cursor + 1 })

/-- The next `n` executors in rotation. -/
def pickMany : Nat → Registry → List (Option Executor) × Registry
  | 0, r => ([], r)
  | n + 1, r =>
    let (e, r) := r.pick
    let (es, r) := pickMany n r
    (e :: es, r)

/-- **Remove an executor**, and hand out its entry. -/
def evict (r : Registry) (a : Address) : Option Executor × Registry :=
  (r.get? a,
    { r with
      executors := r.executors.filter fun e => e.address ≠ a
      ordered := r.ordered.filter _ })

end Registry

end WorkflowScheduler
