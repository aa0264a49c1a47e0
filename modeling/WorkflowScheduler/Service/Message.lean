import WorkflowScheduler.Execution.Basic

/-!
# Messages of the master's service

The requests that clients and executors send to a master, and the replies. Numbers, texts and lists
that a sender leaves out are zero or empty; parts of a message may be missing. Times are
milliseconds from the epoch.

## Main definitions

* `Envelope`: the status of a reply, zero for success, with a message
* `MasterRequest`, `MasterRequest.Reply`: the requests, each with its type of reply
-/

namespace WorkflowScheduler

/-- The status of a reply, zero for success, and what to say about it. -/
structure Envelope where
  status : Int
  msg : String
  deriving DecidableEq, Repr

/-- The envelope of a request that succeeded. -/
def Envelope.ok : Envelope := ⟨0, ""⟩

/-- What a request for a single run can ask for. -/
structure RunInfo where
  nodeName : String
  nodeScope : Int
  notification : Int
  notifyMails : List String
  timeout : Int
  deriving DecidableEq, Repr

/-- The window of a backfill. -/
structure WindowInfo where
  cron : String
  startDate : Int
  endDate : Int
  deriving DecidableEq, Repr

/-- What an executor reports. -/
structure ReportInfo where
  reportDate : Int
  execIds : List Int
  deriving DecidableEq, Repr

/-- A reply that may list executions. -/
structure IdsReply where
  ret : Envelope
  execIds : List Int
  deriving DecidableEq, Repr

/-- A reply about one execution. -/
structure ExecutionReply where
  ret : Envelope
  execId : Int
  projectId : Int
  flowId : Int
  status : String
  runKind : String
  worker : String
  submitTime : Int
  scheduleTime : Int
  startTime : Option Int
  endTime : Option Int
  deriving DecidableEq, Repr

/-- A reply about one executor. -/
structure ExecutorReply where
  host : String
  port : Int
  registerTime : Int
  lastReportTime : Option Int
  execIds : List Int
  deriving DecidableEq, Repr

/-- The requests to a master. -/
inductive MasterRequest where
  | setSchedule (projectId flowId : Int)
  | deleteSchedule (projectId flowId : Int)
  | deleteSchedules (projectId : Int)
  | execFlow (projectId flowId scheduleDate : Int) (info : Option RunInfo)
  | execAdHoc (id : Int)
  | appendWorkFlow (projectId flowId : Int) (info : Option WindowInfo)
  | cancelExecFlow (id : Int)
  | registerExecutor (host : String) (port registerTime : Int)
  | executorReport (host : String) (port : Int) (info : Option ReportInfo)
  | getExecFlow (id : Int)
  | listExecutors
  deriving DecidableEq, Repr

/-- The type of the reply to a request. -/
def MasterRequest.Reply : MasterRequest → Type
  | .setSchedule _ _ => Envelope
  | .deleteSchedule _ _ => Envelope
  | .deleteSchedules _ => Envelope
  | .execFlow _ _ _ _ => IdsReply
  | .execAdHoc _ => Envelope
  | .appendWorkFlow _ _ _ => IdsReply
  | .cancelExecFlow _ => Envelope
  | .registerExecutor _ _ _ => Envelope
  | .executorReport _ _ _ => Envelope
  | .getExecFlow _ => ExecutionReply
  | .listExecutors => List ExecutorReply

end WorkflowScheduler
