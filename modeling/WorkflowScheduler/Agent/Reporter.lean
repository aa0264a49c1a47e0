import WorkflowScheduler.Agent.Inventory
import WorkflowScheduler.Interaction

/-!
# The reporter of an agent

An agent keeps itself known to its master: at every tick it reports what it holds, and before its
first report it registers, until that has succeeded once. After a tick that failed it connects
anew.

## Main definitions

* `Reporter`: what a reporter remembers between ticks
* `LineRequest`: what it asks of the line to the master and of its surroundings
* `Reporter.tick`: one tick
-/

namespace WorkflowScheduler

/-- What a reporter remembers between ticks, and the address that it reports. -/
structure Reporter where
  host : String
  port : UInt16
  isConnected : Bool
  isRegistered : Bool
  deriving DecidableEq, Repr

/-- What a reporter asks of the line to the master and of its surroundings. -/
inductive LineRequest where
  | connect
  | register (host : String) (port registerTime : Int)
  | report (host : String) (port : Int) (info : ReportInfo)
  | held
  | now
  deriving DecidableEq, Repr

/-- What is answered to a reporter; nothing where the line fails. -/
def LineRequest.Answer : LineRequest → Type
  | .connect => Bool
  | .register _ _ _ => Option Envelope
  | .report _ _ _ => Option Envelope
  | .held => List Int
  | .now => Instant

namespace Reporter

/-- The reporter of an address before its first tick. -/
def start (host : String) (port : UInt16) : Reporter := ⟨host, port, false, false⟩

/-- What a reporter does. -/
abbrev Doing := Interaction LineRequest LineRequest.Answer

/-- A single step. -/
def step (r : LineRequest) : Doing r.Answer := Interaction.request r

/-- Whether a call got through and was answered with success. -/
def succeeded : Option Envelope → Bool
  | some e => e.status == 0
  | none => false

/-- Have a connection. The answer says whether there is one. -/
def connect (r : Reporter) : Doing Bool :=
  if r.isConnected then pure true else step .connect

/-- Be registered. The answer says whether the agent has registered at some time. -/
def beRegistered (r : Reporter) : Doing Bool :=
  if r.isRegistered then pure true
  else do
    let t : Instant ← step .now
    let reply : Option Envelope ← step (.register r.host r.port.toNat t.toMillis)
    pure (succeeded reply)

/-- Report what is held. The answer says whether the master took it. -/
def report (r : Reporter) : Doing Bool := do
  let ids : List Int ← step .held
  let t : Instant ← step .now
  let reply : Option Envelope ← step (.report r.host r.port.toNat ⟨t.toMillis, ids⟩)
  pure (succeeded reply)

/-- **One tick.** The answer says whether it succeeded, and what the reporter remembers of it: a
registration for good, and the connection only if the whole tick succeeded. -/
def tick (r : Reporter) : Doing (Bool × Reporter) := do
  if ← r.connect then
    let registered ← r.beRegistered
    if registered then
      let reported ← r.report
      pure (reported, { r with isConnected := reported, isRegistered := true })
    else pure (false, { r with isConnected := false })
  else pure (false, { r with isConnected := false })

end Reporter

end WorkflowScheduler
