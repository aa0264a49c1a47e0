import WorkflowScheduler.Net.Endpoint
import WorkflowScheduler.Program
import WorkflowScheduler.Service.Message

/-!
# Links to executors

How the calls of a master reach executors. A connection is made at the first call to an executor and
kept for the calls after it. A call that does not get through drops its connection, so that the next
call connects anew; one that is answered, even by a refusal, keeps it.

## Main definitions

* `ReplyCode`, `ReplyFault`: the answers that are no replies
* `CallError.ofFault`: which of them tell that an executor may be gone
* `Network`: what a call meets on its way
* `Links`, `Links.call`, `Links.forget`: the connections that are kept, and calls over them
-/

namespace WorkflowScheduler

/-- The codes of an answer that is no reply. -/
inductive ReplyCode where
  | ok
  | cancelled
  | unknown
  | invalidArgument
  | deadlineExceeded
  | notFound
  | alreadyExists
  | permissionDenied
  | resourceExhausted
  | failedPrecondition
  | aborted
  | outOfRange
  | unimplemented
  | internal
  | unavailable
  | dataLoss
  | unauthenticated
  deriving DecidableEq, Repr

namespace ReplyCode

/-- All codes, in the order of their numbers. -/
def all : List ReplyCode :=
  [.ok, .cancelled, .unknown, .invalidArgument, .deadlineExceeded, .notFound, .alreadyExists,
    .permissionDenied, .resourceExhausted, .failedPrecondition, .aborted, .outOfRange,
    .unimplemented, .internal, .unavailable, .dataLoss, .unauthenticated]

/-- The code with a number. A number without a code stands for an unknown one. -/
def ofNumber (n : Int) : ReplyCode :=
  if n < 0 then .unknown else all.getD n.toNat .unknown

/-- The name of a code. -/
def name : ReplyCode → String
  | .ok => "Ok"
  | .cancelled => "Cancelled"
  | .unknown => "Unknown"
  | .invalidArgument => "InvalidArgument"
  | .deadlineExceeded => "DeadlineExceeded"
  | .notFound => "NotFound"
  | .alreadyExists => "AlreadyExists"
  | .permissionDenied => "PermissionDenied"
  | .resourceExhausted => "ResourceExhausted"
  | .failedPrecondition => "FailedPrecondition"
  | .aborted => "Aborted"
  | .outOfRange => "OutOfRange"
  | .unimplemented => "Unimplemented"
  | .internal => "Internal"
  | .unavailable => "Unavailable"
  | .dataLoss => "DataLoss"
  | .unauthenticated => "Unauthenticated"

/-- Whether a code tells that a call did not get through in time. -/
def isTransport : ReplyCode → Bool
  | .unavailable => true
  | .deadlineExceeded => true
  | .cancelled => true
  | _ => false

end ReplyCode

/-- An answer that is no reply. -/
structure ReplyFault where
  code : ReplyCode
  message : String
  deriving DecidableEq, Repr

/-- **What an answer that is no reply tells about a call.** -/
def CallError.ofFault (f : ReplyFault) : CallError :=
  if f.code.isTransport then .transport f.message
  else .rejected (f.code.name ++ ": " ++ f.message)

/-- The outcome of a call that was replied to. -/
def CallError.ofEnvelope (e : Envelope) : Except CallError Unit :=
  if e.status = 0 then .ok ()
  else .error (.rejected ("status " ++ toString e.status ++ ": " ++ e.msg))

/-- What a call meets on its way: whether an executor can be connected to, and how it answers. -/
structure Network where
  connects : Address → Bool
  exchange : Call → Except ReplyFault Envelope

/-- A network in which nothing can be reached. -/
def Network.unreachable : Network where
  connects := fun _ => false
  exchange := fun _ => .error ⟨.unavailable, "tcp connect error"⟩

/-- The connections that are kept. -/
structure Links where
  connected : List Address
  deriving DecidableEq, Repr

namespace Links

/-- No connection is kept. -/
def none : Links := ⟨[]⟩

/-- Drop the connection to an executor. -/
def forget (l : Links) (a : Address) : Links :=
  ⟨l.connected.filter (· ≠ a)⟩

/-- Connect to an executor, unless a connection is kept. -/
def connect (network : Network) (l : Links) (a : Address) : Except CallError Links :=
  if a ∈ l.connected then .ok l
  else if !Endpoint.isTarget a.display then .error (.rejected "Invalid endpoint: invalid URI")
  else if network.connects a then .ok ⟨a :: l.connected⟩
  else .error (.transport ("Failed to connect to " ++ a.display ++ ": transport error"))

/-- **Call an executor.** -/
def call (network : Network) (l : Links) (c : Call) : Except CallError Unit × Links :=
  match l.connect network c.address with
  | .error e => (.error e, l)
  | .ok l =>
    match network.exchange c with
    | .ok e => (CallError.ofEnvelope e, l)
    | .error f =>
      (.error (CallError.ofFault f), if f.code.isTransport then l.forget c.address else l)

end Links

end WorkflowScheduler
