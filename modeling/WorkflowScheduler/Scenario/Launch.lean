import WorkflowScheduler.CommandLine.Settings
import WorkflowScheduler.Master.Startup
import WorkflowScheduler.Scenario.Basic
import WorkflowScheduler.Store.SeedFile

/-!
# Launching the program

A master is launched on a store, at an address that may be taken. The scenario around it is fresh:
nothing is registered, queued or installed but what the startup puts there.

## Main definitions

* `Scenario.launch`: a master on a store
* `Machine`: what a launch finds on its machine
* `Outcome`, `outcomeOf`: what a call of the program comes to
-/

namespace WorkflowScheduler

/-- **Start a master on a store.** The result is missing if the startup breaks off. -/
def Scenario.launch (c : MasterConfig) (store : Store) (now : Instant) :
    Option (Except MasterError (Nat × Nat)) × Scenario :=
  { Scenario.start c.dispatch c.maxWindow now with store := store }.operate
    (Master.startUp c.advertisedHost c.listen.port)

/-- What a launch finds on its machine: the content of its files, the ports in use, and the time. -/
structure Machine where
  content : String → Option ByteArray
  usedPorts : List UInt16
  now : Instant

/-- Whether an address can be bound: it belongs to the machine itself, and its port is free. -/
def Machine.canBind (m : Machine) (a : SocketAddress) : Bool :=
  let isOwn :=
    match a.ip with
    | .v4 (127 :: _) => true
    | .v6 [0, 0, 0, 0, 0, 0, 0, 1] => true
    | ip => ip.isUnspecified
  isOwn && !m.usedPorts.contains a.port

/-- Why a master that a command line asks for does not serve. -/
inductive LaunchFault where
  | noAddress
  | seed (f : SeedFault)
  | refused (e : MasterError)
  | brokenOff
  deriving DecidableEq, Repr

/-- **Start a master as a command line asks for it**: read the address, fill the store, bind the
address, and start up. -/
def Machine.launch (m : Machine) (o : CommandLine.ServerOptions) :
    Except LaunchFault (MasterConfig × Scenario) := do
  let c ←
    match o.config? with
    | some c => .ok c
    | none => .error .noAddress
  let store ←
    match o.seed with
    | none => .ok .empty
    | some path =>
      match Store.ofSeedFile (m.content path) with
      | .ok s => .ok s
      | .error f => .error (.seed f)
  if !m.canBind c.listen then .error (.refused (bindFailure c.listen addressInUse))
  else
    match Scenario.launch c store m.now with
    | (none, _) => .error .brokenOff
    | (some (.error e), _) => .error (.refused e)
    | (some (.ok _), sc) => .ok (c, sc)

/-- What a call of the program comes to: it ends, with an exit code and with what it shows, or it
serves. -/
inductive Outcome where
  | ends (code : Nat) (output : String)
  | serves (c : MasterConfig) (sc : Scenario)
  | executes (c : AgentConfig)

/-- **What a call of the program comes to** on a machine from which no other one can be reached. A
client fails there, whatever it asks for. -/
def outcomeOf (m : Machine) (words : List String) : Outcome :=
  match CommandLine.Command.ofWords words with
  | .error f => .ends f.exitCode f.output
  | .ok (.client _ _) => .ends 1 ""
  | .ok (.server o) =>
    match m.launch o with
    | .ok (c, sc) => .serves c sc
    | .error _ => .ends 1 ""
  | .ok (.executor o) =>
    match o.config? with
    | none => .ends 1 ""
    | some c => if m.canBind c.listen then .executes c else .ends 1 ""

end WorkflowScheduler
