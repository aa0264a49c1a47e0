import WorkflowScheduler.Calendar.Format
import WorkflowScheduler.Execution.Basic
import WorkflowScheduler.Json.Decoder
import WorkflowScheduler.Json.Value

/-!
# Stored records as JSON

How the catalog and executions are written as JSON and read again. Every field is written; what a
reader may leave out is part of the description of each record.

## Main definitions

* `Workflow.json`, `Workflow.decoder`, and likewise for the other records
* `Seed.read`: a store's filling out of a text
-/

namespace WorkflowScheduler

open Json (Value Decoder Fields record)
open Json.Fields (required optional withDefault)

/-- A port number, read from JSON. -/
def portDecoder : Decoder UInt16 := fun d => (Decoder.port d).map UInt16.ofNat

/-! ## Workflows -/

/-- The fields of a workflow. -/
def Workflow.fields : Fields Workflow :=
  Workflow.mk <$> required "id" Decoder.int32
    <*> required "project_id" Decoder.int32
    <*> required "name" Decoder.text
    <*> required "owner_id" Decoder.int32
    <*> withDefault "flow_type" (Decoder.named FlowKind.named) .short
    <*> withDefault "timeout" Decoder.int32 1800
    <*> withDefault "workflow_data" Decoder.text ""

/-- How a workflow is read. -/
def Workflow.decoder : Decoder Workflow := record Workflow.fields

/-- How a workflow is written. -/
def Workflow.json (w : Workflow) : Value :=
  .object
    [("id", .int w.id), ("project_id", .int w.projectId), ("name", .text w.name),
      ("owner_id", .int w.ownerId), ("flow_type", .text w.flowKind.name),
      ("timeout", .int w.timeout), ("workflow_data", .text w.workflowData)]

/-! ## Schedules -/

/-- The fields of a schedule. -/
def Schedule.fields : Fields Schedule :=
  Schedule.mk <$> required "flow_id" Decoder.int32
    <*> required "project_id" Decoder.int32
    <*> required "crontab" Decoder.text
    <*> required "start_date" Decoder.instant
    <*> required "end_date" Decoder.instant
    <*> withDefault "status" (Decoder.named ScheduleState.named) .online
    <*> withDefault "notify_type" (Decoder.named Notification.named) .never
    <*> withDefault "notify_mails" (Decoder.list Decoder.text) []
    <*> withDefault "max_try_times" Decoder.int32 1
    <*> withDefault "timeout" Decoder.int32 0

/-- How a schedule is read. -/
def Schedule.decoder : Decoder Schedule := record Schedule.fields

/-- How a schedule is written. -/
def Schedule.json (s : Schedule) : Value :=
  .object
    [("flow_id", .int s.flowId), ("project_id", .int s.projectId), ("crontab", .text s.crontab),
      ("start_date", .text s.startDate.stamp), ("end_date", .text s.endDate.stamp),
      ("status", .text s.state.name), ("notify_type", .text s.notification.name),
      ("notify_mails", .texts s.notifyMails), ("max_try_times", .int s.maxTryTimes),
      ("timeout", .int s.timeout)]

/-! ## Ad-hoc requests -/

/-- The fields of an ad-hoc request. -/
def AdHoc.fields : Fields AdHoc :=
  AdHoc.mk <$> required "id" Decoder.int32
    <*> required "project_id" Decoder.int32
    <*> required "owner_id" Decoder.int32
    <*> withDefault "statement" Decoder.text ""

/-- How an ad-hoc request is read. -/
def AdHoc.decoder : Decoder AdHoc := record AdHoc.fields

/-- How an ad-hoc request is written. -/
def AdHoc.json (a : AdHoc) : Value :=
  .object
    [("id", .int a.id), ("project_id", .int a.projectId), ("owner_id", .int a.ownerId),
      ("statement", .text a.statement)]

/-! ## The master record -/

/-- The fields of the master record. -/
def MasterRecord.fields : Fields MasterRecord :=
  MasterRecord.mk <$> required "host" Decoder.text
    <*> required "port" portDecoder
    <*> required "create_time" Decoder.instant
    <*> required "modify_time" Decoder.instant

/-- How the master record is read. -/
def MasterRecord.decoder : Decoder MasterRecord := record MasterRecord.fields

/-- How the master record is written. -/
def MasterRecord.json (r : MasterRecord) : Value :=
  .object
    [("host", .text r.host), ("port", .int r.port.toNat), ("create_time", .text r.createTime.stamp),
      ("modify_time", .text r.modifyTime.stamp)]

/-! ## Executions -/

/-- The fields of an execution. -/
def Execution.fields : Fields Execution :=
  Execution.mk <$> required "id" Decoder.int64
    <*> required "project_id" Decoder.int32
    <*> required "flow_id" Decoder.int32
    <*> required "flow_type" (Decoder.named FlowKind.named)
    <*> required "exec_type" (Decoder.named RunKind.named)
    <*> required "status" (Decoder.named Status.named)
    <*> optional "worker" Decoder.text
    <*> required "submit_user_id" Decoder.int32
    <*> required "submit_time" Decoder.instant
    <*> required "schedule_time" Decoder.instant
    <*> optional "start_time" Decoder.instant
    <*> optional "end_time" Decoder.instant
    <*> required "max_try_times" Decoder.int32
    <*> required "timeout" Decoder.int32
    <*> optional "node_name" Decoder.text
    <*> required "node_dep" (Decoder.named NodeScope.named)
    <*> required "notify_type" (Decoder.named Notification.named)
    <*> required "notify_mails" (Decoder.list Decoder.text)
    <*> required "workflow_data" Decoder.text

/-- How an execution is read. -/
def Execution.decoder : Decoder Execution := record Execution.fields

/-- How an execution is written. -/
def Execution.json (e : Execution) : Value :=
  .object
    [("id", .int e.id), ("project_id", .int e.projectId), ("flow_id", .int e.flowId),
      ("flow_type", .text e.flowKind.name), ("exec_type", .text e.runKind.name),
      ("status", .text e.status.name), ("worker", .option .text e.worker),
      ("submit_user_id", .int e.submitUserId), ("submit_time", .text e.submitTime.stamp),
      ("schedule_time", .text e.scheduleTime.stamp),
      ("start_time", .option (fun t => .text t.stamp) e.startTime),
      ("end_time", .option (fun t => .text t.stamp) e.endTime),
      ("max_try_times", .int e.maxTryTimes), ("timeout", .int e.timeout),
      ("node_name", .option .text e.nodeName), ("node_dep", .text e.nodeScope.name),
      ("notify_type", .text e.notification.name), ("notify_mails", .texts e.notifyMails),
      ("workflow_data", .text e.workflowData)]

/-! ## Seeds -/

/-- The fields of a seed, all of which may be left out. -/
def Seed.fields : Fields Seed :=
  Seed.mk <$> optional "master" MasterRecord.decoder true
    <*> withDefault "workflows" (Decoder.list Workflow.decoder) []
    <*> withDefault "schedules" (Decoder.list Schedule.decoder) []
    <*> withDefault "ad_hocs" (Decoder.list AdHoc.decoder) []

/-- How a seed is read. -/
def Seed.decoder : Decoder Seed := record Seed.fields

/-- How a seed is written. -/
def Seed.json (s : Seed) : Value :=
  .object
    [("master", .option MasterRecord.json s.master),
      ("workflows", .array (s.workflows.map Workflow.json)),
      ("schedules", .array (s.schedules.map Schedule.json)),
      ("ad_hocs", .array (s.adHocs.map AdHoc.json))]

/-- **A seed out of a text.** -/
def Seed.read (s : String) : Except Json.Problem Seed :=
  Json.decodeText Seed.decoder s

end WorkflowScheduler
