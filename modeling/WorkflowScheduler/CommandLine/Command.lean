import WorkflowScheduler.CommandLine.Reading
import WorkflowScheduler.Execution.Kind

/-!
# Commands

What the program can be called for: to run a master, to run an executor, or to send one request to a
master. Each command has its level, and what was read of the level becomes a typed command.

## Main definitions

* `Command`, `ClientCommand`: the commands
* `topLevel`: the levels of the command line
* `Command.ofWords`: the command that a command line stands for
-/

namespace WorkflowScheduler.CommandLine

/-- How a client shows a reply. -/
inductive OutputFormat where
  | table
  | json
  deriving DecidableEq, Repr

/-- The formats by name. -/
def OutputFormat.named : List (String × OutputFormat) :=
  [("table", .table), ("json", .json)]

/-- What is common to all requests of a client. -/
structure ClientOptions where
  address : String
  output : OutputFormat
  deriving DecidableEq, Repr

/-- How a master is run. -/
structure ServerOptions where
  bind : String
  port : UInt16
  advertisedHost : Option String
  seed : Option String
  retryCount : Nat
  backoffMillis : Nat
  graceSeconds : Nat
  deriving DecidableEq, Repr

/-- How an executor is run. -/
structure ExecutorOptions where
  bind : String
  port : UInt16
  advertisedHost : String
  master : String
  heartbeatMillis : Nat
  deriving DecidableEq, Repr

/-- A single run, as a client asks for it. The time is still a text. -/
structure RunWish where
  scheduleDate : Option String
  nodeName : Option String
  nodeScope : NodeScope
  notification : Notification
  timeout : Int
  notifyMails : List String
  deriving DecidableEq, Repr

/-- The requests of a client. -/
inductive ClientCommand where
  | execFlow (projectId flowId : Int) (wish : RunWish)
  | appendFlow (projectId flowId : Int) (cron start stop : String)
  | flowStatus (execId : Int)
  | cancelFlow (execId : Int)
  | setSchedule (projectId flowId : Int)
  | deleteSchedule (projectId flowId : Int)
  | deleteSchedules (projectId : Int)
  | executors
  deriving DecidableEq, Repr

/-- What the program is called for. -/
inductive Command where
  | server (o : ServerOptions)
  | executor (o : ExecutorOptions)
  | client (o : ClientOptions) (c : ClientCommand)
  deriving DecidableEq, Repr

/-! ## Levels -/

/-- A port number. A number with a sign may be read, but must be in range. -/
def portRule : ValueRule := .signed 0 Text.maxUnsigned16

/-- A count. -/
def countRule : ValueRule := .signed 0 Text.maxUnsigned32

/-- A duration. -/
def durationRule : ValueRule := .unsigned Text.maxUnsigned64

/-- The id of a project, workflow or request. -/
def idRule : ValueRule := .signed Text.minSigned32 Text.maxSigned32

/-- The id of an execution. -/
def execIdRule : ValueRule := .signed Text.minSigned64 Text.maxSigned64

/-- The words for the scope of a node. -/
def scopeWords : List (String × NodeScope) :=
  [("node-only", .nodeOnly), ("node-pre", .nodePre), ("node-post", .nodePost)]

/-- The words for a notification rule. -/
def notificationWords : List (String × Notification) :=
  [("none", .never), ("success", .success), ("failure", .failure), ("all", .always)]

/-- One of the words of a table. -/
def wordRule {α : Type} (table : List (String × α)) : ValueRule :=
  .oneOf (table.map Prod.fst)

/-- Where a master is run. -/
def serverLevel : Level :=
  .mk
    [.plain "bind" .anyText, .plain "port" portRule, .plain "advertise-host" .anyText,
      .plain "seed" .someText, .plain "retry-count" countRule,
      .plain "no-executor-backoff-ms" durationRule, .plain "shutdown-grace-secs" durationRule]
    [] []

/-- Where an executor is run. -/
def executorLevel : Level :=
  .mk
    [.plain "bind" .anyText, .plain "port" portRule, .plain "advertise-host" .anyText,
      .lettered "master" 'm' .anyText, .plain "heartbeat-interval-ms" durationRule]
    [] []

/-- A level of requests, which have the options of a client in common. -/
def clientLevel (commands : List (String × Level)) : Level :=
  .mk [.lettered "addr" 'a' .anyText, .lettered "output" 'o' (wordRule OutputFormat.named)] []
    commands

/-- The argument that names a project. -/
def projectArgument : Parameter := ⟨"project-id", idRule⟩

/-- The argument that names a workflow. -/
def flowArgument : Parameter := ⟨"flow-id", idRule⟩

/-- The argument that names an execution. -/
def execArgument : Parameter := ⟨"exec-id", execIdRule⟩

/-- Where a workflow is run once. -/
def execLevel : Level :=
  .mk
    [.plain "schedule-date" .anyText, .plain "node-name" .anyText,
      .plain "node-dep" (wordRule scopeWords), .plain "notify-type" (wordRule notificationWords),
      .plain "timeout" idRule, .repeated "notify-mail" .anyText]
    [projectArgument, flowArgument] []

/-- Where a past window is filled. -/
def appendLevel : Level :=
  .mk [.required "cron" .anyText, .required "start" .anyText, .required "end" .anyText]
    [projectArgument, flowArgument] []

/-- A level that has arguments only. -/
def argumentsLevel (arguments : List Parameter) : Level :=
  .mk [] arguments []

/-- **The first level.** -/
def topLevel : Level :=
  .mk [] []
    [("server", serverLevel), ("executor", executorLevel),
      ("flow",
        clientLevel
          [("exec", execLevel), ("append", appendLevel),
            ("status", argumentsLevel [execArgument]), ("cancel", argumentsLevel [execArgument])]),
      ("schedule",
        clientLevel
          [("set", argumentsLevel [projectArgument, flowArgument]),
            ("delete", argumentsLevel [projectArgument, flowArgument]),
            ("delete-all", argumentsLevel [projectArgument])]),
      ("cluster", clientLevel [("executors", argumentsLevel [])])]

/-! ## Commands out of values -/

namespace Found

/-- The text with a name. -/
def text? (f : Found) (name : String) : Option String :=
  match f.lookup name with
  | some (.text s) => some s
  | _ => none

/-- All texts with a name. -/
def texts (f : Found) (name : String) : List String :=
  f.filterMap fun
    | (n, .text s) => if n == name then some s else none
    | _ => none

/-- The number with a name. -/
def number? (f : Found) (name : String) : Option Int :=
  match f.lookup name with
  | some (.number n) => some n
  | _ => none

/-- The natural number with a name. -/
def count (f : Found) (name : String) (standard : Nat) : Nat :=
  match f.number? name with
  | some n => n.toNat
  | none => standard

/-- The entry of a table that is named. -/
def entry {α : Type} (f : Found) (name : String) (table : List (String × α)) (standard : α) : α :=
  match f.text? name with
  | some s => (table.lookup s).getD standard
  | none => standard

/-- How a master is run. -/
def serverOptions (f : Found) : ServerOptions where
  bind := (f.text? "bind").getD "0.0.0.0"
  port := UInt16.ofNat (f.count "port" 8090)
  advertisedHost := f.text? "advertise-host"
  seed := f.text? "seed"
  retryCount := f.count "retry-count" 3
  backoffMillis := f.count "no-executor-backoff-ms" 5000
  graceSeconds := f.count "shutdown-grace-secs" 10

/-- How an executor is run. -/
def executorOptions (f : Found) : ExecutorOptions where
  bind := (f.text? "bind").getD "0.0.0.0"
  port := UInt16.ofNat (f.count "port" 9000)
  advertisedHost := (f.text? "advertise-host").getD "127.0.0.1"
  master := (f.text? "master").getD "http://127.0.0.1:8090"
  heartbeatMillis := f.count "heartbeat-interval-ms" 3000

/-- What is common to all requests of a client. -/
def clientOptions (f : Found) : ClientOptions where
  address := (f.text? "addr").getD "http://127.0.0.1:8090"
  output := f.entry "output" OutputFormat.named .table

/-- A single run. -/
def runWish (f : Found) : RunWish where
  scheduleDate := f.text? "schedule-date"
  nodeName := f.text? "node-name"
  nodeScope := f.entry "node-dep" scopeWords .nodeOnly
  notification := f.entry "notify-type" notificationWords .never
  timeout := (f.number? "timeout").getD 0
  notifyMails := f.texts "notify-mail"

end Found

/-- The request of a client, by its commands, out of its values. -/
def ClientCommand.of? (group name : String) (f : Found) : Option ClientCommand := do
  match group, name with
  | "flow", "exec" =>
    some (.execFlow (← f.number? "project-id") (← f.number? "flow-id") f.runWish)
  | "flow", "append" =>
    some
      (.appendFlow (← f.number? "project-id") (← f.number? "flow-id") (← f.text? "cron")
        (← f.text? "start") (← f.text? "end"))
  | "flow", "status" => some (.flowStatus (← f.number? "exec-id"))
  | "flow", "cancel" => some (.cancelFlow (← f.number? "exec-id"))
  | "schedule", "set" =>
    some (.setSchedule (← f.number? "project-id") (← f.number? "flow-id"))
  | "schedule", "delete" =>
    some (.deleteSchedule (← f.number? "project-id") (← f.number? "flow-id"))
  | "schedule", "delete-all" => some (.deleteSchedules (← f.number? "project-id"))
  | "cluster", "executors" => some .executors
  | _, _ => none

/-- The command that an invocation stands for. -/
def Command.of? (i : Invocation) : Option Command :=
  match i.path with
  | ["server"] => some (.server i.found.serverOptions)
  | ["executor"] => some (.executor i.found.executorOptions)
  | [group, name] =>
    (ClientCommand.of? group name i.found).map fun c => .client i.found.clientOptions c
  | _ => none

/-- **The command that a command line stands for**, or why it stands for none. -/
def Command.ofWords (words : List String) : Except UsageFault Command := do
  let i ← read topLevel words
  match Command.of? i with
  | some c => .ok c
  | none => .error .argumentMissing

end WorkflowScheduler.CommandLine
