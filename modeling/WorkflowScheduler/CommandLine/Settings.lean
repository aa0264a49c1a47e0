import WorkflowScheduler.CommandLine.Command
import WorkflowScheduler.Config

/-!
# Settings out of a command line

The configuration of the master or executor that a command line asks for, and what the program says
and returns when there is nothing to run.

## Main definitions

* `ServerOptions.config?`, `ExecutorOptions.config?`: the configuration, if the bound address is one
* `UsageFault.output`: what the program shows for a fault
-/

namespace WorkflowScheduler.CommandLine

/-- The name of the program. -/
def programName : String := "flowmaster"

/-- The version of the program. -/
def programVersion : String := "0.1.0"

/-- **What the program shows for a fault**: the version with the path that led to the wish for it. The
help text is free. -/
def UsageFault.output : UsageFault → String
  | .versionAsked path =>
    String.intercalate "-" (programName :: path) ++ " " ++ programVersion ++ "\n"
  | _ => ""

/-- The address that is bound, if the text is one. -/
def boundAddress? (bind : String) (port : UInt16) : Option SocketAddress :=
  SocketAddress.parse? (bind ++ ":" ++ toString port.toNat)

/-- **The configuration of a master.** A master that is bound to all addresses of its machine is
advertised as the machine itself, unless it says otherwise. -/
def ServerOptions.config? (o : ServerOptions) : Option MasterConfig :=
  (boundAddress? o.bind o.port).map fun listen =>
    let standard :=
      if listen.ip.isUnspecified then IpAddress.loopback.display else listen.ip.display
    { MasterConfig.at listen with
      advertisedHost := o.advertisedHost.getD standard
      dispatch := ⟨o.retryCount, o.backoffMillis⟩
      graceMillis := 1000 * o.graceSeconds }

/-- **The configuration of an executor.** -/
def ExecutorOptions.config? (o : ExecutorOptions) : Option AgentConfig :=
  (boundAddress? o.bind o.port).map fun listen =>
    { AgentConfig.at listen o.master with
      advertisedHost := o.advertisedHost
      heartbeatMillis := o.heartbeatMillis }

end WorkflowScheduler.CommandLine
