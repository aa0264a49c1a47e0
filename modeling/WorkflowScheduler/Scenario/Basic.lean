import WorkflowScheduler.Dispatch
import WorkflowScheduler.Queue.Basic
import WorkflowScheduler.Scenario.Fault
import WorkflowScheduler.Service.Basic
import WorkflowScheduler.Timer

/-!
# Scenarios

A scenario is a master with everything around it, step by step under control: a store that fails as
planned, executors that answer as scripted, a wall clock that stands still, and a timer that moves
only while something waits. Triggers fire when the timer reaches the time they wait for. Programs are
run in it, and it keeps a log of the calls to executors.

## Main definitions

* `Scenario`, `Scenario.start`
* `Scenario.advance`: letting the timer run, with the triggers that fire on the way
* `Scenario.answer`: how the scenario answers a request of a program
* `Scenario.perform`, `Scenario.operate`: running programs
* `Scenario.dispatchNext`, `Scenario.dispatchAll`, `Scenario.runWorker`: dispatch
* `Scenario.runTrigger`: letting a trigger fire until it is finished
-/

namespace WorkflowScheduler

/-- What the log keeps of the calls to executors. -/
inductive LoggedCall where
  | call (c : Call)
  | forget (a : Address)
  deriving DecidableEq, Repr

/-- A master with everything around it. -/
structure Scenario where
  limits : DispatchLimits
  /-- How many executions one window may start. -/
  maxWindow : Nat
  now : Instant
  store : Store
  plan : FaultPlan
  registry : Registry
  queue : Queue
  triggers : TriggerTable
  /-- When the tasks of triggers wake, on the timer, by the ids of the tasks. -/
  wakes : List (Nat × Nat)
  /-- What the next calls to an executor are answered, in order, by the address as it is shown. -/
  scripts : List (String × Except CallError Unit)
  /-- The status that an execution gets when it is next submitted. -/
  moves : List (Int × Status)
  /-- The executions whose next submission evicts the executor first. -/
  evictions : List Int
  /-- Copies of rows by name. -/
  copies : List (String × Execution)
  isShutDown : Bool
  /-- When the master will shut down, on the timer. -/
  deadline : Option Nat
  /-- What the timer shows, in milliseconds. -/
  timer : Nat
  /-- The calls to executors, the last one first. -/
  log : List LoggedCall

namespace Scenario

/-- A scenario in which nothing has happened. -/
def start (limits : DispatchLimits) (maxWindow : Nat) (now : Instant) : Scenario where
  limits := limits
  maxWindow := maxWindow
  now := now
  store := .empty
  plan := []
  registry := .empty
  queue := .empty
  triggers := .empty
  wakes := []
  scripts := []
  moves := []
  evictions := []
  copies := []
  isShutDown := false
  deadline := none
  timer := 0
  log := []

/-! ## Answering requests -/

/-- Take the first entry for a key out of a list. -/
def takeFirst {κ α : Type} [DecidableEq κ] (k : κ) : List (κ × α) → Option α × List (κ × α)
  | [] => (none, [])
  | (l, a) :: rest =>
    if l = k then (some a, rest)
    else
      let (b, rest) := takeFirst k rest
      (b, (l, a) :: rest)

/-- What happens just before a call reaches an executor: the row of a submitted execution may move,
and the executor may be evicted. -/
def beforeCall (sc : Scenario) : Call → Scenario
  | .submit a _ id _ =>
    let (move, moves) := takeFirst id sc.moves
    let sc :=
      match move with
      | none => sc
      | some status => { sc with moves := moves, store := (sc.store.setStatus sc.now id status).2 }
    if id ∈ sc.evictions then
      { sc with
        evictions := sc.evictions.filter (· ≠ id)
        registry := (sc.registry.evict a).2 }
    else sc
  | _ => sc

/-- A call to an executor, answered as scripted; without a script it succeeds. -/
def call (sc : Scenario) (c : Call) : Except CallError Unit × Scenario :=
  let sc := { sc with log := .call c :: sc.log }.beforeCall c
  let (reply, scripts) := takeFirst c.address.display sc.scripts
  (reply.getD (.ok ()), { sc with scripts := scripts })

/-- Set the timer of a task that waits for a fire time. -/
def setWake (sc : Scenario) (id : Nat) : Scenario :=
  match (sc.triggers.task? id).map Task.state with
  | some (.waiting due) =>
    let millis := Timer.running (due.toMillis - sc.now.toMillis).toNat
    { sc with wakes := sc.wakes ++ [(id, sc.timer + millis)] }
  | _ => sc

/-- How the scenario answers a request while its timer stands still. A pause is over at once. -/
def answerAtOnce : (r : Request) → Scenario → r.Answer × Scenario
  | .store r, sc =>
    let (a, plan, store) := FaultPlan.answer sc.now r sc.plan sc.store
    (a, { sc with plan := plan, store := store })
  | .pick, sc =>
    let (e, registry) := sc.registry.pick
    (e, { sc with registry := registry })
  | .evict a, sc =>
    let (e, registry) := sc.registry.evict a
    (e, { sc with registry := registry })
  | .register a registeredAt, sc => ((), { sc with registry := sc.registry.register a registeredAt })
  | .report a h, sc => ((), { sc with registry := sc.registry.report a h })
  | .executors, sc => (sc.registry.executors, sc)
  | .push e, sc =>
    let (sent, queue) := sc.queue.push e
    (sent, { sc with queue := queue })
  | .call c, sc => sc.call c
  | .forget a, sc => ((), { sc with log := .forget a :: sc.log })
  | .now, sc => (sc.now, sc)
  | .pause _, sc => ((), sc)
  | .spawnTrigger t, sc =>
    let (id, triggers) := sc.triggers.spawn sc.now t
    (id, { sc with triggers := triggers }.setWake id)
  | .enterTrigger k task, sc => ((), { sc with triggers := sc.triggers.enter k task })
  | .removeTrigger k, sc =>
    let (found, triggers) := sc.triggers.remove k
    (found, { sc with triggers := triggers })
  | .removeTriggers group, sc =>
    let (n, triggers) := sc.triggers.removeGroup group
    (n, { sc with triggers := triggers })

/-! ## Time -/

/-- Let a task that waits for a fire time fire. A fire that fails is dropped. -/
def fire (sc : Scenario) (id : Nat) : Scenario :=
  match sc.triggers.task? id with
  | none => sc
  | some k =>
    match k.state with
    | .waiting due =>
      let (_, sc) := (Master.materialize k.trigger.schedule due).run.run answerAtOnce sc
      { sc with
        triggers := sc.triggers.modifyTask id (·.fired due sc.now)
          (fun k => k.fired_id due sc.now) (fun k => k.fired_trigger due sc.now)
        wakes := sc.wakes.filter (·.1 ≠ id) }.setWake id
    | _ => sc

/-- The earlier of two wakes; the first one if they are at the same time. -/
def earlier (w : Option (Nat × Nat)) (v : Nat × Nat) : Option (Nat × Nat) :=
  match w with
  | none => some v
  | some w => if v.2 < w.2 then some v else some w

/-- The task that wakes next, and when. -/
def nextWake? (sc : Scenario) : Option (Nat × Nat) :=
  (sc.wakes.filter fun w => (sc.triggers.task? w.1).any Task.isLive).foldl earlier none

/-- How often all tasks together can fire at most: fire times are whole seconds, so that a task has no
more of them than seconds. -/
def fireBound (sc : Scenario) : Nat :=
  (sc.triggers.tasks.filter Task.isLive).foldl
    (fun n k => n + 1 + (k.trigger.schedule.endDate.seconds - sc.now.seconds).toNat) 0

/-- Let the tasks fire that wake before the timer shows `stop`, at most `n` times. -/
def fireBefore (stop : Nat) : Nat → Scenario → Scenario
  | 0, sc => sc
  | n + 1, sc =>
    match sc.nextWake? with
    | none => sc
    | some (id, time) =>
      if time < stop then fireBefore stop n ({ sc with timer := max sc.timer time }.fire id) else sc

/-- **Let the timer run to `stop`**, with the triggers that fire on the way. -/
def advance (sc : Scenario) (stop : Nat) : Scenario :=
  { fireBefore stop sc.fireBound sc with timer := stop }

/-- Let the triggers fire whose time has come. -/
def catchUp (sc : Scenario) : Scenario :=
  fireBefore (sc.timer + 1) sc.fireBound sc

/-- Wait for a timer. There is no wait after a shutdown, and a shutdown on the way ends the wait. -/
def wait (sc : Scenario) (millis : Nat) : Scenario :=
  if sc.isShutDown then sc
  else
    let stop := sc.timer + Timer.running millis
    match sc.deadline with
    | none => sc.advance stop
    | some d =>
      if stop < d then sc.advance stop
      else { sc.advance d with isShutDown := true, deadline := none }

/-- **How the scenario answers a request.** -/
def answer : (r : Request) → Scenario → r.Answer × Scenario
  | .pause millis, sc => ((), sc.wait millis)
  | r, sc => answerAtOnce r sc

/-- **Run a program.** There is no result if it breaks off. -/
def perform {α : Type} (sc : Scenario) (p : Program α) : Option α × Scenario :=
  p.run answer sc

/-- **Run an operation.** -/
def operate {α : Type} (sc : Scenario) (op : Operation α) :
    Option (Except MasterError α) × Scenario :=
  sc.perform op.run

/-- A single request to the store. -/
def ask (sc : Scenario) (r : StoreRequest) : Except StoreError r.Value × Scenario :=
  answer (.store r) sc

/-- The reply of the master to a request. -/
def serve (sc : Scenario) (r : MasterRequest) : Option r.Reply × Scenario :=
  sc.perform (Service.handle sc.maxWindow r)

/-! ## Setting the scene -/

/-- Plan a fault for the next `count` requests of a kind. -/
def planFault (sc : Scenario) (m : StoreMethod) (f : Fault) (count : Nat) : Scenario :=
  { sc with plan := sc.plan ++ List.replicate count (m, f) }

/-- Script the next answers of the executor whose address is shown as `shown`. -/
def script (sc : Scenario) (shown : String) (replies : List (Except CallError Unit)) : Scenario :=
  { sc with scripts := sc.scripts ++ replies.map fun r => (shown, r) }

/-- Move the row of an execution when it is next submitted. -/
def moveOnSubmit (sc : Scenario) (id : Int) (s : Status) : Scenario :=
  { sc with moves := (id, s) :: sc.moves.filter fun m => m.1 ≠ id }

/-- Evict the executor to which an execution is next submitted. The answer says whether this was not
planned already. -/
def evictOnSubmit (sc : Scenario) (id : Int) : Bool × Scenario :=
  if id ∈ sc.evictions then (false, sc) else (true, { sc with evictions := id :: sc.evictions })

/-- Store an execution of a stored workflow for a past window, without queueing it. -/
def create (sc : Scenario) (flowId : Int) (t : Instant) :
    Option (Except StoreError Execution) × Scenario :=
  match sc.store.workflow? flowId with
  | none => (none, sc)
  | some w =>
    let (row, sc) := sc.ask (.createExecution (.backfill w t))
    (some row, sc)

/-- Keep a copy of a row under a name. The answer says whether there is such a row. -/
def keepCopy (sc : Scenario) (id : Int) (name : String) : Bool × Scenario :=
  match sc.store.execution? id with
  | none => (false, sc)
  | some e => (true, { sc with copies := (name, e) :: sc.copies })

/-- Queue the copy with a name. -/
def pushCopy (sc : Scenario) (name : String) : Option Bool × Scenario :=
  match sc.copies.lookup name with
  | none => (none, sc)
  | some e =>
    let (sent, queue) := sc.queue.push e
    (some sent, { sc with queue := queue })

/-- The log of the calls to executors, and the scenario with an empty log. -/
def takeLog (sc : Scenario) : List LoggedCall × Scenario :=
  (sc.log.reverse, { sc with log := [] })

/-! ## Dispatch -/

/-- What the dispatch of one execution came to. -/
structure DispatchReport where
  execId : Int
  queuedStatus : Status
  outcome : DispatchOutcome
  waitedMillis : Nat
  deriving DecidableEq, Repr

/-- **Dispatch the oldest execution of the queue.** -/
def dispatchNext (sc : Scenario) : Option DispatchReport × Scenario :=
  match sc.queue.receive with
  | (none, _) => (none, sc)
  | (some e, queue) =>
    let before := sc.timer
    let (outcome, sc) := { sc with queue := queue }.perform (Dispatch.run sc.limits e)
    let report (o : DispatchOutcome) : DispatchReport := ⟨e.id, e.status, o, sc.timer - before⟩
    (outcome.map report, sc.catchUp)

/-- **Dispatch until the queue is empty**, at most `n` times. -/
def dispatchAll : Nat → Scenario → List DispatchReport × Scenario
  | 0, sc => ([], sc)
  | n + 1, sc =>
    match sc.dispatchNext with
    | (none, sc) => ([], sc)
    | (some r, sc) =>
      let (rs, sc) := dispatchAll n sc
      (r :: rs, sc)

/-- Work until the master shuts down, or until the queue is empty and no trigger fires any more before
that; at most `n` steps. -/
def work : Nat → Scenario → Scenario
  | 0, sc => sc
  | n + 1, sc => if sc.isShutDown then sc else
    match sc.dispatchNext with
    | (some _, sc) => work n sc
    | (none, sc) =>
      match sc.deadline, sc.nextWake? with
      | some d, some (_, time) => if time < d then work n (sc.advance time).catchUp else sc
      | _, _ => sc

/-- How many steps the worker takes at most while it waits at least a millisecond whenever there is
no executor: for what is queued, for each executor that can be lost with what it holds, for each
wait, and for each fire of a trigger. -/
def workBound (sc : Scenario) (forMillis : Nat) : Nat :=
  sc.queue.waiting.length + forMillis + 1 + 2 * sc.fireBound
    + sc.registry.executors.foldl (fun n e => n + 1 + e.execIds.length) 0

/-- **Let the worker have the queue for some time**, then shut down and wait for it. The answer says
whether the worker had ended before; afterwards the queue has no consumer. A worker without any time
does not come to begin. -/
def runWorker (sc : Scenario) (forMillis : Nat) : Option Bool × Scenario :=
  if !sc.queue.hasConsumer then (none, sc)
  else
    let millis := Timer.running forMillis
    let endedBefore := sc.isShutDown && 0 < millis
    let stop := sc.timer + millis
    let sc :=
      if millis = 0 then sc
      else work (sc.workBound millis) { sc with deadline := some stop }
    let sc := if sc.isShutDown then sc else sc.advance stop
    (some endedBefore,
      { sc with isShutDown := true, deadline := none, queue := sc.queue.close })

/-! ## Triggers -/

/-- Let the timer run from wake to wake until a task is finished, at most `n` times. -/
def runUntilFinished (task : Nat) : Nat → Scenario → Scenario
  | 0, sc => sc
  | n + 1, sc =>
    if (sc.triggers.task? task).any Task.isLive then
      match sc.nextWake? with
      | none => sc
      | some (_, time) => runUntilFinished task n (sc.advance (max sc.timer time)).catchUp
    else sc

/-- **Let the timer run until the trigger of a key has no fire time left.** The answer says whether it
is still active. -/
def runTrigger (sc : Scenario) (k : TriggerKey) : Bool × Scenario :=
  match sc.triggers.heldBy? k with
  | none => (false, sc)
  | some task =>
    let sc := runUntilFinished task sc.fireBound sc
    (sc.triggers.isActive k, sc)

end Scenario

end WorkflowScheduler
