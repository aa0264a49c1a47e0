import WorkflowScheduler.Agent.Inventory
import WorkflowScheduler.Scenario.Launch

/-!
# Clusters

Masters that come one after the other on one store, and agents, in a network in which nothing can be
reached: an agent that runs is never registered, and so no master has an executor.

## Main definitions

* `ClusterAgent`, `Cluster`
* `Cluster.startMaster`, `Cluster.stopMaster`, `Cluster.startAgent`
* `Cluster.hasHeard`, `Cluster.worksOn`, `Cluster.hasStatus`: what one may wait for
-/

namespace WorkflowScheduler

/-- An agent: where it listens, and what it holds. -/
structure ClusterAgent where
  listen : SocketAddress
  inventory : Inventory

/-- The address of an agent as masters know it. -/
def ClusterAgent.address (a : ClusterAgent) : Address := ⟨a.listen.ip.display, a.listen.port⟩

/-- The master that started last, on the store that all masters share; the addresses of the masters
that came to serve, and of those that still do; and the agents. The first one of each comes first. -/
structure Cluster where
  scenario : Scenario
  masters : List SocketAddress
  serving : List SocketAddress
  agents : List ClusterAgent

namespace Cluster

/-- A cluster of which only the store is there. -/
def start (c : MasterConfig) (seed : Seed) (now : Instant) : Cluster :=
  ⟨{ Scenario.start c.dispatch c.maxWindow now with store := Store.empty.load seed }, [], [], []⟩

/-- **Start a master** at an address that others may have taken. One that fails leaves no trace but in
the store. -/
def startMaster (cl : Cluster) (c : MasterConfig) (isFree : Bool) :
    Option (Except MasterError Unit) × Cluster :=
  if !isFree || cl.serving.contains c.listen then
    (some (.error (bindFailure c.listen addressInUse)), cl)
  else
    match Scenario.launch c cl.scenario.store cl.scenario.now with
    | (some (.ok _), sc) =>
      let masters := if c.listen ∈ cl.masters then cl.masters else cl.masters ++ [c.listen]
      (some (.ok ()),
        { cl with scenario := sc, masters := masters, serving := cl.serving ++ [c.listen] })
    | (r, sc) =>
      (r.map (Except.map fun _ => ()),
        { cl with scenario := { cl.scenario with store := sc.store } })

/-- Stop the master that started last. Its triggers end; its record stays. -/
def stopMaster (cl : Cluster) : Cluster :=
  { cl with
    scenario := { cl.scenario with triggers := cl.scenario.triggers.clear }
    serving := cl.serving.dropLast }

/-- **Start an agent.** The fault, if there is one, is that the address is taken. -/
def startAgent (cl : Cluster) (listen : SocketAddress) (isFree : Bool) :
    Except MasterError Unit × Cluster :=
  (if isFree then .ok () else .error (bindFailure listen addressInUse),
    { cl with agents := cl.agents ++ [⟨listen, .empty⟩] })

/-- What an agent holds. -/
def held (cl : Cluster) (agent : Nat) : List Int :=
  match cl.agents[agent]? with
  | none => []
  | some a => a.inventory.execIds

/-- Take an execution away from an agent. The answer says whether it was held. -/
def complete (cl : Cluster) (agent : Nat) (id : Int) : Bool × Cluster :=
  match cl.agents[agent]? with
  | none => (false, cl)
  | some a =>
    let (found, v) := a.inventory.remove id
    (found, { cl with agents := cl.agents.set agent { a with inventory := v } })

/-! ## What one may wait for

Nothing of it comes about by waiting, so that it is there at once or never. -/

/-- Whether the master has heard from an agent what it holds. -/
def hasHeard (cl : Cluster) (agent : Nat) : Bool :=
  match cl.agents[agent]? with
  | none => false
  | some a =>
    match cl.scenario.registry.get? a.address with
    | none => false
    | some e => e.heartbeat.isSome && e.execIds == a.inventory.execIds

/-- Whether an execution is recorded on an agent. -/
def worksOn (cl : Cluster) (agent : Nat) (id : Int) : Bool :=
  match cl.agents[agent]?, cl.scenario.store.execution? id with
  | some a, some e => e.worker == some a.address.display
  | _, _ => false

/-- Whether an execution has a status. -/
def hasStatus (cl : Cluster) (id : Int) (s : Status) : Bool :=
  match cl.scenario.store.execution? id with
  | none => false
  | some e => e.status == s

/-- Whether some master has taken the store. -/
def hasMaster (cl : Cluster) : Bool := cl.scenario.store.master.isSome

end Cluster

end WorkflowScheduler
