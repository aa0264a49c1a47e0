/-!
# Kinds of executions and of their settings

The small enumerations that a workflow, a schedule or an execution carries, with the names under
which they are stored. Two of them also have numbers in requests; a number that means nothing there
stands for the first value.

## Main definitions

* `RunKind`: how an execution came about
* `FlowKind`: the category of a workflow, which executors are told
* `NodeScope`: which part of a workflow runs around one node
* `Notification`: when mail is sent
* `ScheduleState`: whether a schedule is in force
-/

namespace WorkflowScheduler

/-- How an execution came about: on request, by its schedule, or for a past window. -/
inductive RunKind where
  | direct
  | scheduled
  | backfill
  deriving DecidableEq, Repr

/-- The stored name of a run kind. -/
def RunKind.name : RunKind → String
  | .direct => "DIRECT"
  | .scheduled => "SCHEDULED"
  | .backfill => "BACKFILL"

/-- The run kinds by name. -/
def RunKind.named : List (String × RunKind) :=
  [RunKind.direct, .scheduled, .backfill].map fun k => (k.name, k)

/-- The category of a workflow. -/
inductive FlowKind where
  | short
  | long
  | etl
  deriving DecidableEq, Repr

/-- The stored name of a category. -/
def FlowKind.name : FlowKind → String
  | .short => "SHORT"
  | .long => "LONG"
  | .etl => "ETL"

/-- The categories by name. -/
def FlowKind.named : List (String × FlowKind) :=
  [FlowKind.short, .long, .etl].map fun k => (k.name, k)

/-- Which part of a workflow runs around one node: the node alone, with those before it, or with
those after it. -/
inductive NodeScope where
  | nodeOnly
  | nodePre
  | nodePost
  deriving DecidableEq, Repr

namespace NodeScope

/-- The stored name of a scope. -/
def name : NodeScope → String
  | .nodeOnly => "NODE_ONLY"
  | .nodePre => "NODE_PRE"
  | .nodePost => "NODE_POST"

/-- The scopes by name. -/
def named : List (String × NodeScope) :=
  [NodeScope.nodeOnly, .nodePre, .nodePost].map fun k => (k.name, k)

/-- The number of a scope in a request. -/
def toWire : NodeScope → Int
  | .nodeOnly => 0
  | .nodePre => 1
  | .nodePost => 2

/-- The scope that a number in a request stands for. -/
def ofWire (n : Int) : NodeScope :=
  if n = 1 then .nodePre else if n = 2 then .nodePost else .nodeOnly

end NodeScope

/-- When mail is sent about an execution. -/
inductive Notification where
  | never
  | success
  | failure
  | always
  deriving DecidableEq, Repr

namespace Notification

/-- The stored name of a notification rule. -/
def name : Notification → String
  | .never => "NONE"
  | .success => "SUCCESS"
  | .failure => "FAILURE"
  | .always => "ALL"

/-- The notification rules by name. -/
def named : List (String × Notification) :=
  [Notification.never, .success, .failure, .always].map fun k => (k.name, k)

/-- The number of a notification rule in a request. -/
def toWire : Notification → Int
  | .never => 0
  | .success => 1
  | .failure => 2
  | .always => 3

/-- The notification rule that a number in a request stands for. -/
def ofWire (n : Int) : Notification :=
  if n = 1 then .success else if n = 2 then .failure else if n = 3 then .always else .never

end Notification

/-- Whether a schedule is in force. -/
inductive ScheduleState where
  | online
  | offline
  deriving DecidableEq, Repr

/-- The stored name of a schedule's state. -/
def ScheduleState.name : ScheduleState → String
  | .online => "ONLINE"
  | .offline => "OFFLINE"

/-- The states of a schedule by name. -/
def ScheduleState.named : List (String × ScheduleState) :=
  [ScheduleState.online, .offline].map fun k => (k.name, k)

end WorkflowScheduler
