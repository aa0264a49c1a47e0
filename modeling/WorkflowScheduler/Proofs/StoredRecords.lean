import WorkflowScheduler.Catalog.Json
import WorkflowScheduler.Proofs.Json.Records
import WorkflowScheduler.Proofs.Stamps
import WorkflowScheduler.Store.SeedFile

/-!
# Stored records are read back

Whatever the catalog and the executions hold comes back from the text that is written for it. The
fields of a record may come in any order there, those that hold their default may be missing, and
there may be blanks wherever the format allows them.

## Main definitions

* `Workflow.slots`, and likewise for the other records: what a record says of its fields
* `Workflow.IsRepresentable`, and likewise: the records whose numbers and times fit their types

## Main results

* `Workflow.reads`, and likewise: every form of a record is read as the record
* `Workflow.isForm_json`, and likewise: a record is written in one of its forms
* `StoredRecords.read_back`: a seed and an execution are read back from every text for a form
-/

namespace WorkflowScheduler

open Json
open Json.Fields (reads_required reads_withDefault reads_optional)

/-! ## Numbers, times and names -/

/-- A whole number of 32 bits with a sign. -/
def IsSigned32 (n : Int) : Prop :=
  Text.minSigned32 ≤ n ∧ n ≤ Text.maxSigned32

instance (n : Int) : Decidable (IsSigned32 n) :=
  inferInstanceAs (Decidable (_ ∧ _))

/-- A whole number of 64 bits with a sign. -/
def IsSigned64 (n : Int) : Prop :=
  Text.minSigned64 ≤ n ∧ n ≤ Text.maxSigned64

instance (n : Int) : Decidable (IsSigned64 n) :=
  inferInstanceAs (Decidable (_ ∧ _))

theorem reads_int64 {n : Int} (h : IsSigned64 n) : Decoder.int64.Reads (· = .int n) n := by
  obtain ⟨hlo, hhi⟩ := h
  refine Decoder.reads_int hlo hhi ?_
  simp only [Text.minSigned64, Text.maxSigned64, Text.maxUnsigned64] at hlo hhi ⊢
  omega

theorem reads_int32 {n : Int} (h : IsSigned32 n) : Decoder.int32.Reads (· = .int n) n := by
  obtain ⟨hlo, hhi⟩ := h
  refine Decoder.reads_int hlo hhi ?_
  simp only [Text.minSigned32, Text.maxSigned32, Text.maxUnsigned64] at hlo hhi ⊢
  omega

theorem reads_port (p : UInt16) : portDecoder.Reads (· = .int p.toNat) p := by
  rintro v rfl
  have hlt := p.toNat_lt
  have hread : Decoder.int 0 Text.maxUnsigned16 (.int p.toNat) = .ok (p.toNat : Int) :=
    if_pos ⟨by omega, by simp only [Text.maxUnsigned16]; omega⟩
  refine ⟨.int (by simp only [Text.maxUnsigned64]; omega), ?_⟩
  change ((Decoder.int 0 Text.maxUnsigned16 (.int p.toNat)).map Int.toNat).map UInt16.ofNat = _
  rw [hread]
  exact congrArg Except.ok p.ofNat_toNat

theorem instant_text (s : String) : Decoder.instant (.text s) =
    match Stamp.relaxed? s with
    | some t => .ok t
    | none => .error .unfit :=
  rfl

/-- **An instant is read back from its stamp.** -/
theorem reads_instant {t : Instant} (h : t.IsRepresentable) :
    Decoder.instant.Reads (· = .text t.stamp) t := by
  rintro v rfl
  refine ⟨.text _, ?_⟩
  rw [Value.draft, instant_text, Stamp.relaxed?_stamp h]

theorem FlowKind.lookup_named (k : FlowKind) : named.lookup k.name = some k := by
  cases k <;> rfl

theorem RunKind.lookup_named (k : RunKind) : named.lookup k.name = some k := by
  cases k <;> rfl

theorem Status.lookup_named (s : Status) : named.lookup s.name = some s := by
  cases s <;> rfl

theorem NodeScope.lookup_named (s : NodeScope) : named.lookup s.name = some s := by
  cases s <;> rfl

theorem Notification.lookup_named (n : Notification) : named.lookup n.name = some n := by
  cases n <;> rfl

theorem ScheduleState.lookup_named (s : ScheduleState) : named.lookup s.name = some s := by
  cases s <;> rfl

/-- An array of strings. -/
def IsTexts : List String → Value → Prop :=
  IsList fun s v => v = .text s

theorem reads_texts (ss : List String) : (Decoder.list Decoder.text).Reads (IsTexts ss) ss :=
  Decoder.reads_list fun s _ => Decoder.reads_text s

theorem isTexts_texts (ss : List String) : IsTexts ss (.texts ss) :=
  isList_map fun _ _ => rfl

/-- A string that may be missing. -/
theorem reads_optionalText (o : Option String) :
    Decoder.text.nullable.Reads (IsOption (fun s v => v = .text s) o) o :=
  Decoder.reads_nullable nofun fun s _ => Decoder.reads_text s

/-- An instant that may be missing. -/
theorem reads_optionalInstant {o : Option Instant} (h : ∀ t, o = some t → t.IsRepresentable) :
    Decoder.instant.nullable.Reads (IsOption (fun t v => v = .text t.stamp) o) o :=
  Decoder.reads_nullable nofun fun t ht => reads_instant (h t ht)

/-! ## Workflows -/

namespace Workflow

/-- A workflow whose numbers fit their types. -/
structure IsRepresentable (w : Workflow) : Prop where
  id : IsSigned32 w.id
  projectId : IsSigned32 w.projectId
  ownerId : IsSigned32 w.ownerId
  timeout : IsSigned32 w.timeout

/-- What a workflow says of its fields. -/
def slots (w : Workflow) : List Slot :=
  [⟨"id", (· = .int w.id), False⟩, ⟨"project_id", (· = .int w.projectId), False⟩,
    ⟨"name", (· = .text w.name), False⟩, ⟨"owner_id", (· = .int w.ownerId), False⟩,
    ⟨"flow_type", (· = .text w.flowKind.name), w.flowKind = .short⟩,
    ⟨"timeout", (· = .int w.timeout), w.timeout = 1800⟩,
    ⟨"workflow_data", (· = .text w.workflowData), w.workflowData = ""⟩]

theorem fields_reads {w : Workflow} (h : w.IsRepresentable) : fields.Reads w.slots w :=
  reads_required "id" (reads_int32 h.id) |>.map mk
    |>.seq (reads_required "project_id" (reads_int32 h.projectId))
    |>.seq (reads_required "name" (Decoder.reads_text w.name))
    |>.seq (reads_required "owner_id" (reads_int32 h.ownerId))
    |>.seq (reads_withDefault "flow_type" (Decoder.reads_named w.flowKind.lookup_named) .short)
    |>.seq (reads_withDefault "timeout" (reads_int32 h.timeout) 1800)
    |>.seq (reads_withDefault "workflow_data" (Decoder.reads_text w.workflowData) "")

theorem reads {w : Workflow} (h : w.IsRepresentable) : decoder.Reads (IsForm w.slots) w :=
  (fields_reads h).record (by decide)

theorem isForm_json (w : Workflow) : IsForm w.slots w.json :=
  isForm_object (by simp [slots]) (by simp [slots])

end Workflow

/-! ## Schedules -/

namespace Schedule

/-- A schedule whose numbers and dates fit their types. -/
structure IsRepresentable (s : Schedule) : Prop where
  flowId : IsSigned32 s.flowId
  projectId : IsSigned32 s.projectId
  startDate : s.startDate.IsRepresentable
  endDate : s.endDate.IsRepresentable
  maxTryTimes : IsSigned32 s.maxTryTimes
  timeout : IsSigned32 s.timeout

/-- What a schedule says of its fields. -/
def slots (s : Schedule) : List Slot :=
  [⟨"flow_id", (· = .int s.flowId), False⟩, ⟨"project_id", (· = .int s.projectId), False⟩,
    ⟨"crontab", (· = .text s.crontab), False⟩,
    ⟨"start_date", (· = .text s.startDate.stamp), False⟩,
    ⟨"end_date", (· = .text s.endDate.stamp), False⟩,
    ⟨"status", (· = .text s.state.name), s.state = .online⟩,
    ⟨"notify_type", (· = .text s.notification.name), s.notification = .never⟩,
    ⟨"notify_mails", IsTexts s.notifyMails, s.notifyMails = []⟩,
    ⟨"max_try_times", (· = .int s.maxTryTimes), s.maxTryTimes = 1⟩,
    ⟨"timeout", (· = .int s.timeout), s.timeout = 0⟩]

theorem fields_reads {s : Schedule} (h : s.IsRepresentable) : fields.Reads s.slots s :=
  reads_required "flow_id" (reads_int32 h.flowId) |>.map mk
    |>.seq (reads_required "project_id" (reads_int32 h.projectId))
    |>.seq (reads_required "crontab" (Decoder.reads_text s.crontab))
    |>.seq (reads_required "start_date" (reads_instant h.startDate))
    |>.seq (reads_required "end_date" (reads_instant h.endDate))
    |>.seq (reads_withDefault "status" (Decoder.reads_named s.state.lookup_named) .online)
    |>.seq (reads_withDefault "notify_type" (Decoder.reads_named s.notification.lookup_named) .never)
    |>.seq (reads_withDefault "notify_mails" (reads_texts s.notifyMails) [])
    |>.seq (reads_withDefault "max_try_times" (reads_int32 h.maxTryTimes) 1)
    |>.seq (reads_withDefault "timeout" (reads_int32 h.timeout) 0)

theorem reads {s : Schedule} (h : s.IsRepresentable) : decoder.Reads (IsForm s.slots) s :=
  (fields_reads h).record (by decide)

theorem isForm_json (s : Schedule) : IsForm s.slots s.json :=
  isForm_object (by simp [slots]) (by simp [slots, isTexts_texts])

end Schedule

/-! ## Ad-hoc requests -/

namespace AdHoc

/-- An ad-hoc request whose numbers fit their types. -/
structure IsRepresentable (a : AdHoc) : Prop where
  id : IsSigned32 a.id
  projectId : IsSigned32 a.projectId
  ownerId : IsSigned32 a.ownerId

/-- What an ad-hoc request says of its fields. -/
def slots (a : AdHoc) : List Slot :=
  [⟨"id", (· = .int a.id), False⟩, ⟨"project_id", (· = .int a.projectId), False⟩,
    ⟨"owner_id", (· = .int a.ownerId), False⟩,
    ⟨"statement", (· = .text a.statement), a.statement = ""⟩]

theorem fields_reads {a : AdHoc} (h : a.IsRepresentable) : fields.Reads a.slots a :=
  reads_required "id" (reads_int32 h.id) |>.map mk
    |>.seq (reads_required "project_id" (reads_int32 h.projectId))
    |>.seq (reads_required "owner_id" (reads_int32 h.ownerId))
    |>.seq (reads_withDefault "statement" (Decoder.reads_text a.statement) "")

theorem reads {a : AdHoc} (h : a.IsRepresentable) : decoder.Reads (IsForm a.slots) a :=
  (fields_reads h).record (by decide)

theorem isForm_json (a : AdHoc) : IsForm a.slots a.json :=
  isForm_object (by simp [slots]) (by simp [slots])

end AdHoc

/-! ## The master record -/

namespace MasterRecord

/-- A master record whose times fit their types. -/
structure IsRepresentable (r : MasterRecord) : Prop where
  createTime : r.createTime.IsRepresentable
  modifyTime : r.modifyTime.IsRepresentable

/-- What the master record says of its fields. -/
def slots (r : MasterRecord) : List Slot :=
  [⟨"host", (· = .text r.host), False⟩, ⟨"port", (· = .int r.port.toNat), False⟩,
    ⟨"create_time", (· = .text r.createTime.stamp), False⟩,
    ⟨"modify_time", (· = .text r.modifyTime.stamp), False⟩]

theorem fields_reads {r : MasterRecord} (h : r.IsRepresentable) : fields.Reads r.slots r :=
  reads_required "host" (Decoder.reads_text r.host) |>.map mk
    |>.seq (reads_required "port" (reads_port r.port))
    |>.seq (reads_required "create_time" (reads_instant h.createTime))
    |>.seq (reads_required "modify_time" (reads_instant h.modifyTime))

theorem reads {r : MasterRecord} (h : r.IsRepresentable) : decoder.Reads (IsForm r.slots) r :=
  (fields_reads h).record (by decide)

theorem isForm_json (r : MasterRecord) : IsForm r.slots r.json :=
  isForm_object (by simp [slots]) (by simp [slots])

end MasterRecord

/-! ## Executions -/

namespace Execution

/-- An execution whose numbers and times fit their types. -/
structure IsRepresentable (e : Execution) : Prop where
  id : IsSigned64 e.id
  projectId : IsSigned32 e.projectId
  flowId : IsSigned32 e.flowId
  submitUserId : IsSigned32 e.submitUserId
  submitTime : e.submitTime.IsRepresentable
  scheduleTime : e.scheduleTime.IsRepresentable
  startTime : ∀ t, e.startTime = some t → t.IsRepresentable
  endTime : ∀ t, e.endTime = some t → t.IsRepresentable
  maxTryTimes : IsSigned32 e.maxTryTimes
  timeout : IsSigned32 e.timeout

/-- What an execution says of its fields. -/
def slots (e : Execution) : List Slot :=
  [⟨"id", (· = .int e.id), False⟩, ⟨"project_id", (· = .int e.projectId), False⟩,
    ⟨"flow_id", (· = .int e.flowId), False⟩, ⟨"flow_type", (· = .text e.flowKind.name), False⟩,
    ⟨"exec_type", (· = .text e.runKind.name), False⟩, ⟨"status", (· = .text e.status.name), False⟩,
    ⟨"worker", IsOption (fun s v => v = .text s) e.worker, e.worker = none⟩,
    ⟨"submit_user_id", (· = .int e.submitUserId), False⟩,
    ⟨"submit_time", (· = .text e.submitTime.stamp), False⟩,
    ⟨"schedule_time", (· = .text e.scheduleTime.stamp), False⟩,
    ⟨"start_time", IsOption (fun t v => v = .text t.stamp) e.startTime, e.startTime = none⟩,
    ⟨"end_time", IsOption (fun t v => v = .text t.stamp) e.endTime, e.endTime = none⟩,
    ⟨"max_try_times", (· = .int e.maxTryTimes), False⟩, ⟨"timeout", (· = .int e.timeout), False⟩,
    ⟨"node_name", IsOption (fun s v => v = .text s) e.nodeName, e.nodeName = none⟩,
    ⟨"node_dep", (· = .text e.nodeScope.name), False⟩,
    ⟨"notify_type", (· = .text e.notification.name), False⟩,
    ⟨"notify_mails", IsTexts e.notifyMails, False⟩,
    ⟨"workflow_data", (· = .text e.workflowData), False⟩]

theorem fields_reads {e : Execution} (h : e.IsRepresentable) : fields.Reads e.slots e := by
  have hreads := reads_required "id" (reads_int64 h.id) |>.map mk
    |>.seq (reads_required "project_id" (reads_int32 h.projectId))
    |>.seq (reads_required "flow_id" (reads_int32 h.flowId))
    |>.seq (reads_required "flow_type" (Decoder.reads_named e.flowKind.lookup_named))
    |>.seq (reads_required "exec_type" (Decoder.reads_named e.runKind.lookup_named))
    |>.seq (reads_required "status" (Decoder.reads_named e.status.lookup_named))
    |>.seq (reads_optional "worker" (reads_optionalText e.worker) false)
    |>.seq (reads_required "submit_user_id" (reads_int32 h.submitUserId))
    |>.seq (reads_required "submit_time" (reads_instant h.submitTime))
    |>.seq (reads_required "schedule_time" (reads_instant h.scheduleTime))
    |>.seq (reads_optional "start_time" (reads_optionalInstant h.startTime) false)
    |>.seq (reads_optional "end_time" (reads_optionalInstant h.endTime) false)
    |>.seq (reads_required "max_try_times" (reads_int32 h.maxTryTimes))
    |>.seq (reads_required "timeout" (reads_int32 h.timeout))
    |>.seq (reads_optional "node_name" (reads_optionalText e.nodeName) false)
    |>.seq (reads_required "node_dep" (Decoder.reads_named e.nodeScope.lookup_named))
    |>.seq (reads_required "notify_type" (Decoder.reads_named e.notification.lookup_named))
    |>.seq (reads_required "notify_mails" (reads_texts e.notifyMails))
    |>.seq (reads_required "workflow_data" (Decoder.reads_text e.workflowData))
  -- to compare so many slots, they are put into one list first
  simp only [List.cons_append, List.nil_append] at hreads
  exact hreads

theorem reads {e : Execution} (h : e.IsRepresentable) : decoder.Reads (IsForm e.slots) e :=
  (fields_reads h).record (by decide)

theorem isForm_json (e : Execution) : IsForm e.slots e.json :=
  isForm_object (by simp [slots]) (by simp [slots, isTexts_texts, isOption_option])

end Execution

/-! ## Seeds -/

namespace Seed

/-- A seed of records that fit their types. -/
structure IsRepresentable (s : Seed) : Prop where
  master : ∀ r, s.master = some r → r.IsRepresentable
  workflows : ∀ w ∈ s.workflows, w.IsRepresentable
  schedules : ∀ c ∈ s.schedules, c.IsRepresentable
  adHocs : ∀ a ∈ s.adHocs, a.IsRepresentable

/-- **What a seed says of its fields**: each record in them may have any of its forms. -/
def slots (s : Seed) : List Slot :=
  [⟨"master", IsOption (fun r => IsForm r.slots) s.master, s.master = none⟩,
    ⟨"workflows", IsList (fun w => IsForm w.slots) s.workflows, s.workflows = []⟩,
    ⟨"schedules", IsList (fun c => IsForm c.slots) s.schedules, s.schedules = []⟩,
    ⟨"ad_hocs", IsList (fun a => IsForm a.slots) s.adHocs, s.adHocs = []⟩]

theorem fields_reads {s : Seed} (h : s.IsRepresentable) : fields.Reads s.slots s :=
  reads_optional "master" (Decoder.reads_nullable nofun fun r hr => MasterRecord.reads (h.master r hr)) true |>.map mk
    |>.seq (reads_withDefault "workflows" (Decoder.reads_list fun w hw => Workflow.reads (h.workflows w hw)) [])
    |>.seq (reads_withDefault "schedules" (Decoder.reads_list fun c hc => Schedule.reads (h.schedules c hc)) [])
    |>.seq (reads_withDefault "ad_hocs" (Decoder.reads_list fun a ha => AdHoc.reads (h.adHocs a ha)) [])

theorem reads {s : Seed} (h : s.IsRepresentable) : decoder.Reads (IsForm s.slots) s :=
  (fields_reads h).record (by decide)

theorem isForm_json (s : Seed) : IsForm s.slots s.json :=
  isForm_object (by simp [slots]) (by
    simp [slots, isOption_option, isList_map, MasterRecord.isForm_json, Workflow.isForm_json,
      Schedule.isForm_json, AdHoc.isForm_json])

end Seed

/-! ## Reading stored records back -/

/-- **A store is filled with the seed** that its file is read as. -/
theorem Store.ofSeedFile_toUTF8 {text : String} {s : Seed} (h : Seed.read text = .ok s) :
    ofSeedFile (some text.toUTF8) = .ok (empty.load s) := by
  have hbytes : String.fromUTF8? text.toUTF8 = some text := dif_pos text.isValidUTF8
  simp only [ofSeedFile, hbytes, h]

namespace StoredRecords

/-- **Stored records are read back.** A seed and an execution come back from the text that is written
for them, with or without line breaks, and from every other text for one of their forms: the members
of each object may be in any order, those that hold a default may be missing, and there may be blanks
between the parts. A store is filled with the seed when the text is that of its file. -/
theorem read_back :
    (∀ s : Seed, s.IsRepresentable →
      (Seed.read s.json.compact = .ok s ∧ Seed.read s.json.pretty = .ok s) ∧
        ∀ v, IsForm s.slots v → (v.IsSpelled v.compact ∧ v.IsSpelled v.pretty) ∧
          ∀ text, v.IsSpelled text → Seed.read text = .ok s ∧
            Store.ofSeedFile (some text.toUTF8) = .ok (Store.empty.load s)) ∧
      ∀ e : Execution, e.IsRepresentable →
        (decodeText Execution.decoder e.json.compact = .ok e ∧
          decodeText Execution.decoder e.json.pretty = .ok e) ∧
          ∀ v, IsForm e.slots v → (v.IsSpelled v.compact ∧ v.IsSpelled v.pretty) ∧
            ∀ text, v.IsSpelled text → decodeText Execution.decoder text = .ok e := by
  refine ⟨fun s hs => ?_, fun e he => ?_⟩
  · have hreads := Seed.reads hs
    refine ⟨hreads.decodeText_written s.isForm_json,
      fun v hv => ⟨(hreads v hv).1.isSpelled, fun text htext => ?_⟩⟩
    have hread : Seed.read text = .ok s := hreads.decodeText hv htext
    exact ⟨hread, Store.ofSeedFile_toUTF8 hread⟩
  · have hreads := Execution.reads he
    exact ⟨hreads.decodeText_written e.isForm_json,
      fun v hv => ⟨(hreads v hv).1.isSpelled, fun _ => hreads.decodeText hv⟩⟩

/-- A workflow with a name that has to be escaped, and with defaults. -/
def oddWorkflow : Workflow :=
  ⟨-2147483648, 7, "say \"hi\" \\ \x01 in Zürich", 2147483647, .short, 1800, ""⟩

/-- A master from the first second of all years to the last one, and into the leap second after. -/
def oldMaster : MasterRecord :=
  ⟨"", 65535, ⟨Instant.firstSecond, 999999999⟩, ⟨Instant.lastSecond, 1500000000⟩⟩

/-- A seed with both. -/
def oddSeed : Seed := ⟨some oldMaster, [oddWorkflow], [], []⟩

/-- The workflow with its members in another order, and without those that hold defaults. -/
def oddWorkflowForm : Value :=
  .object
    [("owner_id", .int 2147483647), ("name", .text oddWorkflow.name), ("project_id", .int 7),
      ("id", .int (-2147483648))]

/-- The seed likewise. -/
def oddForm : Value :=
  .object [("workflows", .array [oddWorkflowForm]), ("master", oldMaster.json)]

/-- An execution that has ended but never had a worker. -/
def oddExecution : Execution where
  id := -9223372036854775808
  projectId := 1
  flowId := 2
  flowKind := .etl
  runKind := .backfill
  status := .kill
  worker := none
  submitUserId := 3
  submitTime := ⟨-62167219201, 1000⟩
  scheduleTime := ⟨253402300800, 0⟩
  startTime := none
  endTime := some ⟨0, 1000000⟩
  maxTryTimes := 4
  timeout := 5
  nodeName := some "\t"
  nodeScope := .nodePre
  notification := .failure
  notifyMails := ["a@b", ""]
  workflowData := "\x7b\x7d"

theorem isForm_oddForm : IsForm oddSeed.slots oddForm := by
  have hworkflow : IsForm oddWorkflow.slots oddWorkflowForm := by
    refine oddWorkflow.isForm_json.of_subperm ⟨_, List.reverse_perm _, ?_⟩ ?_
    · simp [oddWorkflow]
    · simp [Workflow.slots, oddWorkflow]
  have hseed : IsForm oddSeed.slots (.object [("master", oldMaster.json),
      ("workflows", .array [oddWorkflowForm]), ("schedules", .array []), ("ad_hocs", .array [])]) :=
    isForm_object (by simp [Seed.slots]) (.cons ⟨rfl, oldMaster.isForm_json⟩
      (.cons ⟨rfl, _, rfl, .cons hworkflow .nil⟩
        (.cons ⟨rfl, _, rfl, .nil⟩ (.cons ⟨rfl, _, rfl, .nil⟩ .nil))))
  refine hseed.of_subperm ⟨_, List.reverse_perm _, ?_⟩ ?_
  · simp
  · simp [Seed.slots, oddSeed]

theorem isRepresentable_oddSeed : oddSeed.IsRepresentable where
  master r hr := by
    cases hr
    exact ⟨⟨by decide, .inl (by decide)⟩, ⟨by decide, .inr (by decide)⟩⟩
  workflows w hw := by
    obtain rfl := List.mem_singleton.mp hw
    constructor <;> decide
  schedules := nofun
  adHocs := nofun

theorem isRepresentable_oddExecution : oddExecution.IsRepresentable where
  id := by decide
  projectId := by decide
  flowId := by decide
  submitUserId := by decide
  submitTime := ⟨by decide, .inl (by decide)⟩
  scheduleTime := ⟨by decide, .inl (by decide)⟩
  startTime := nofun
  endTime t ht := by
    cases ht
    exact ⟨by decide, .inl (by decide)⟩
  maxTryTimes := by decide
  timeout := by decide

/-- The odd seed is read back from its other form, and the odd execution from its own. -/
theorem read_back_odd :
    Seed.read oddForm.pretty = .ok oddSeed ∧
      decodeText Execution.decoder oddExecution.json.compact = .ok oddExecution :=
  have hform := (read_back.1 oddSeed isRepresentable_oddSeed).2 oddForm isForm_oddForm
  ⟨(hform.2 _ hform.1.2).1, (read_back.2 oddExecution isRepresentable_oddExecution).1.1⟩

end StoredRecords

end WorkflowScheduler
