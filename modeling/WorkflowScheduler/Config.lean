import WorkflowScheduler.Dispatch
import WorkflowScheduler.Net.SocketAddress

/-!
# Configuration

The settings of a master and of an agent, with their defaults. Times are in milliseconds.

## Main definitions

* `CallTimeouts`, `MasterConfig`, `AgentConfig`
* `MasterConfig.at`, `AgentConfig.at`: the configuration for a listening address
-/

namespace WorkflowScheduler

/-- How often and how soon to dispatch by default. -/
def DispatchLimits.standard : DispatchLimits := ⟨3, 5000⟩

/-- How long a master waits for executors: to connect, and to answer. -/
structure CallTimeouts where
  connectMillis : Nat
  requestMillis : Nat
  deriving DecidableEq, Repr

/-- The waits by default. -/
def CallTimeouts.standard : CallTimeouts := ⟨3000, 10000⟩

/-- The settings of a master. -/
structure MasterConfig where
  listen : SocketAddress
  /-- The host that goes into the master record. -/
  advertisedHost : String
  dispatch : DispatchLimits
  timeouts : CallTimeouts
  /-- How long a shutdown waits for the dispatch at hand. -/
  graceMillis : Nat
  /-- How many executions one window may start. -/
  maxWindow : Nat
  deriving DecidableEq, Repr

/-- The address of the own machine, by four octets. -/
def IpAddress.loopback : IpAddress := .v4 [127, 0, 0, 1]

/-- The configuration of a master for a listening address, which is also the advertised one. -/
def MasterConfig.at (listen : SocketAddress) : MasterConfig :=
  ⟨listen, listen.ip.display, .standard, .standard, 10000, 10000⟩

/-- The configuration of a master by default. -/
def MasterConfig.standard : MasterConfig := .at ⟨.loopback, 8090, 0⟩

/-- The settings of an agent. -/
structure AgentConfig where
  listen : SocketAddress
  /-- The host by which the master reaches the agent. -/
  advertisedHost : String
  /-- Where the master is reached. -/
  master : String
  heartbeatMillis : Nat
  deriving DecidableEq, Repr

/-- The configuration of an agent for a listening address and a master. -/
def AgentConfig.at (listen : SocketAddress) (master : String) : AgentConfig :=
  ⟨listen, listen.ip.display, master, 3000⟩

/-- The configuration of an agent by default. -/
def AgentConfig.standard : AgentConfig :=
  .at ⟨.loopback, 9000, 0⟩ "http://127.0.0.1:8090"

/-- The port by which the master reaches the agent. -/
def AgentConfig.advertisedPort (c : AgentConfig) : UInt16 := c.listen.port

end WorkflowScheduler
