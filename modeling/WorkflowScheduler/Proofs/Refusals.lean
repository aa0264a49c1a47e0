import WorkflowScheduler.Proofs.Serving
import WorkflowScheduler.Service.Basic

/-!
# Requests that fail

Every request is checked before it changes anything for good. So one that fails has changed nothing,
whatever the executors answer and whatever others do meanwhile: it has asked only what leaves a site
as it is, and has called an executor only if the failure of that call is what it failed with. An
ad-hoc request has picked the executor that it called, which moves the rotation on.

## Main definitions

* `Exchange.IsIdle`: an exchange that leaves a site as it is
* `Request.IsOrdinary`: what operations ask, wherever they are carried on
* `Operation.Meets`: a condition on what an operation asks, and on how it ends
* `Service.operation`, `MasterRequest.reply`: a request taken apart into what is done and the reply
* `Service.Refusal`: what a request has asked that fails with an error

## Main results

* `Service.handle_eq`: a request is handled by its operation
* `Service.operation_answers`: a request that fails has asked only for a refusal
* `Service.failed_request`: a request that fails has changed nothing
-/

namespace WorkflowScheduler

/-! ## Exchanges that change nothing -/

/-- **An exchange that leaves a site as it is**, apart from calls. -/
def Exchange.IsIdle (x : Exchange Request.Answer) : Prop :=
  match x with
  | ⟨.store (.insertMasterRecord _ _), _⟩ => False
  | ⟨.store (.touchMasterRecord _ _), _⟩ => False
  | ⟨.store (.createExecution _), _⟩ => False
  | ⟨.store (.transition _ _ _), a⟩ => a ≠ .ok true
  | ⟨.store _, _⟩ => True
  | ⟨.pick, a⟩ => a = none
  | ⟨.executors, _⟩ => True
  | ⟨.now, _⟩ => True
  | _ => False

/-- A change of status that is not granted leaves a store as it is. -/
theorem Store.transition_eq_self {s : Store} {now : Instant} {id : Int} {expected : Status}
    {u : StatusUpdate} (h : (s.transition now id expected u).1 ≠ .ok true) :
    (s.transition now id expected u).2 = s := by
  unfold transition at h ⊢
  cases he : s.execution? id with
  | none => rfl
  | some e =>
    simp only [he] at h ⊢
    by_cases hs : e.status = expected
    · simp [hs] at h
    · simp [hs]

/-- An idle exchange leaves a site as it is. -/
theorem Exchange.IsIdle.eq_of_answer {x : Exchange Request.Answer} {s t : Site} {o : Outside}
    (h : IsIdle x) (hx : s.answer o x.1 = (x.2, t)) : t = s := by
  obtain ⟨r, a⟩ := x
  have ha : a = (s.answer o r).1 := (congrArg Prod.fst hx).symm
  have ht : t = (s.answer o r).2 := (congrArg Prod.snd hx).symm
  subst ha ht
  cases r with
  | store q =>
    cases q with
    | transition id expected u =>
      show ({ s with store := (s.store.transition o.now id expected u).2 } : Site) = s
      rw [Store.transition_eq_self h]
    | insertMasterRecord host port => exact h.elim
    | touchMasterRecord host port => exact h.elim
    | createExecution n => exact h.elim
    | _ => rfl
  | pick =>
    show ({ s with registry := s.registry.pick.2 } : Site) = s
    rcases s.registry.pick_cases with ⟨-, hp⟩ | ⟨y, -, hp⟩
    · rw [hp]
    · -- an executor has been picked, so the rotation has moved on
      have hnone : s.registry.pick.1 = none := h
      rw [hp] at hnone
      cases hnone
  | executors => rfl
  | now => rfl
  | _ => exact h.elim

/-- Two sites that differ at most in the rotation of the executors. -/
structure Site.Agrees (s t : Site) : Prop where
  store : t.store = s.store
  queue : t.queue = s.queue
  executors : t.registry.executors = s.registry.executors
  triggers : t.triggers = s.triggers

/-! ## Operations, whatever others do -/

/-- **What operations ask, wherever they are carried on**: they leave it to the dispatch to submit
executions and to give up executors, and they change a status only to `KILL`. -/
def Request.IsOrdinary : Request → Prop
  | .store (.transition _ _ u) => u = .toStatus .kill
  | .call (.submit _ _ _ _) => False
  | .evict _ => False
  | .forget _ => False
  | .pause _ => False
  | _ => True

/-- **The terms of an operation among others who may do anything.** -/
def Master.anyhow : Terms Request.Answer Site Outside where
  answer := Site.answer
  rely _ _ := True
  may _ r _ := r.IsOrdinary
  rely_trans _ _ := trivial
  rely_self _ := trivial

namespace Operation

variable {α β : Type}

/-- **An operation meets a condition** on what it asks and how it ends, whatever others do. -/
def Meets (op : Operation α) (P : History → Option (Except MasterError α) → Prop) : Prop :=
  ∀ h s, Interaction.Keeps Master.anyhow (fun k r _ => ∃ l, k = h ++ l ∧ P l r) op.run h s

variable {op : Operation α} {P : History → Option (Except MasterError α) → Prop}

namespace Meets

theorem imp {Q : History → Option (Except MasterError α) → Prop} (hop : op.Meets P)
    (hPQ : ∀ l r, P l r → Q l r) : op.Meets Q := by
  intro h s
  refine Interaction.Keeps.imp (hop h s) ?_
  rintro k r t ⟨l, hk, hl⟩
  exact ⟨l, hk, hPQ l r hl⟩

theorem pure {a : α} (ha : P [] (some (.ok a))) : (Pure.pure a : Operation α).Meets P :=
  fun h _ _ _ => ⟨[], (List.append_nil h).symm, ha⟩

theorem throw {e : MasterError} (he : P [] (some (.error e))) :
    (MonadExcept.throw e : Operation α).Meets P :=
  fun h _ _ _ => ⟨[], (List.append_nil h).symm, he⟩

theorem crash (hc : P [] none) : (Operation.crash : Operation α).Meets P :=
  fun h _ _ _ => ⟨[], (List.append_nil h).symm, hc⟩

theorem request {r : Request} {P : History → Option (Except MasterError r.Answer) → Prop}
    (hr : r.IsOrdinary) (hP : ∀ a, P [⟨r, a⟩] (some (.ok a))) : (Operation.request r).Meets P :=
  fun _ _ _ _ => ⟨hr, fun _ _ _ => ⟨_, rfl, hP _⟩⟩

theorem store {r : StoreRequest} {P : History → Option (Except MasterError r.Value) → Prop}
    (hr : (Request.store r).IsOrdinary)
    (hP : ∀ o s, P [⟨.store r, (Site.answer o (.store r) s).1⟩]
      (some (Except.mapError .store (Site.answer o (.store r) s).1))) :
    (Operation.store r).Meets P := by
  intro h s
  rw [store_run]
  exact fun t _ => ⟨hr, fun o _ _ => ⟨_, rfl, hP o t⟩⟩

theorem call {c : Call} {P : History → Option (Except MasterError Unit) → Prop}
    (hc : (Request.call c).IsOrdinary)
    (hP : ∀ reply, P [⟨.call c, reply⟩] (some (Except.mapError .call reply))) :
    (Operation.call c).Meets P := by
  intro h s
  rw [call_run]
  exact fun t _ => ⟨hc, fun o _ _ => ⟨_, rfl, hP o.reply⟩⟩

/-- **One operation after another.** -/
theorem bind {f : α → Operation β} {Q : α → History → Option (Except MasterError β) → Prop}
    {Q' : History → Option (Except MasterError β) → Prop}
    (hop : op.Meets P) (hf : ∀ a, (f a).Meets (Q a))
    (hok : ∀ a k l r, P k (some (.ok a)) → Q a l r → Q' (k ++ l) r)
    (herror : ∀ e k, P k (some (.error e)) → Q' k (some (.error e)))
    (hcrash : ∀ k, P k none → Q' k none) : (op >>= f).Meets Q' := by
  intro h s
  refine keeps_bind (hop h s) ?_ ?_ ?_
  · intro a k t hk
    obtain ⟨l, rfl, hl⟩ := hk t trivial
    refine Interaction.Keeps.imp (hf a (h ++ l) t) ?_
    rintro m r u ⟨l', rfl, hl'⟩
    exact ⟨l ++ l', List.append_assoc .., hok a l l' r hl hl'⟩
  · rintro e k t ⟨l, rfl, hl⟩
    exact ⟨l, rfl, herror e l hl⟩
  · rintro k t ⟨l, rfl, hl⟩
    exact ⟨l, rfl, hcrash l hl⟩

end Meets

/-- **A check**: it asks only what changes nothing. -/
def IsCheck (op : Operation α) : Prop :=
  op.Meets fun l _ => ∀ x ∈ l, Exchange.IsIdle x

/-- An operation that never fails, and never breaks off. -/
def Succeeds (op : Operation α) : Prop :=
  op.Meets fun _ r => ∃ a, r = some (.ok a)

/-- **An operation that is guarded by its checks**: unless it succeeds it has only checked. -/
def IsGuarded (op : Operation α) : Prop :=
  op.Meets fun l r => (∃ a, r = some (.ok a)) ∨ ∀ x ∈ l, Exchange.IsIdle x

theorem IsCheck.isGuarded (h : op.IsCheck) : op.IsGuarded :=
  h.imp fun _ _ hl => .inr hl

theorem Succeeds.isGuarded (h : op.Succeeds) : op.IsGuarded :=
  h.imp fun _ _ hr => .inl hr

namespace IsCheck

theorem pure (a : α) : (Pure.pure a : Operation α).IsCheck :=
  Meets.pure fun _ hx => absurd hx List.not_mem_nil

theorem throw (e : MasterError) : (MonadExcept.throw e : Operation α).IsCheck :=
  Meets.throw fun _ hx => absurd hx List.not_mem_nil

theorem crash : (Operation.crash : Operation α).IsCheck :=
  Meets.crash fun _ hx => absurd hx List.not_mem_nil

theorem bind {f : α → Operation β} (hop : op.IsCheck) (hf : ∀ a, (f a).IsCheck) :
    (op >>= f).IsCheck := by
  refine Meets.bind hop hf ?_ (fun _ _ hk => hk) fun _ hk => hk
  exact fun _ _ _ _ hk hl => List.forall_mem_append.mpr ⟨hk, hl⟩

/-- What is checked before an operation that is guarded belongs to its checks. -/
theorem bind_isGuarded {f : α → Operation β} (hop : op.IsCheck) (hf : ∀ a, (f a).IsGuarded) :
    (op >>= f).IsGuarded := by
  refine Meets.bind hop hf ?_ (fun _ _ hk => .inr hk) fun _ hk => .inr hk
  rintro a k l r hk (hr | hl)
  · exact .inl hr
  · exact .inr (List.forall_mem_append.mpr ⟨hk, hl⟩)

theorem request {r : Request} (hr : r.IsOrdinary) (hidle : ∀ a, Exchange.IsIdle ⟨r, a⟩) :
    (Operation.request r).IsCheck :=
  Meets.request hr fun a => List.forall_mem_singleton.mpr (hidle a)

theorem store {r : StoreRequest} (hr : (Request.store r).IsOrdinary)
    (hidle : ∀ a, Exchange.IsIdle ⟨.store r, a⟩) : (Operation.store r).IsCheck :=
  Meets.store hr fun _ _ => List.forall_mem_singleton.mpr (hidle _)

end IsCheck

namespace Succeeds

theorem pure (a : α) : (Pure.pure a : Operation α).Succeeds :=
  Meets.pure ⟨a, rfl⟩

theorem request {r : Request} (hr : r.IsOrdinary) : (Operation.request r).Succeeds :=
  Meets.request hr fun a => ⟨a, rfl⟩

theorem bind {f : α → Operation β} (hop : op.Succeeds) (hf : ∀ a, (f a).Succeeds) :
    (op >>= f).Succeeds := by
  refine Meets.bind hop hf (fun _ _ _ _ _ hr => hr) ?_ ?_
  · rintro e k ⟨a, ha⟩
    cases ha
  · rintro k ⟨a, ha⟩
    cases ha

end Succeeds

/-- A guarded operation whose result is only put into another form. -/
theorem IsGuarded.map (h : op.IsGuarded) (f : α → β) :
    (do let a ← op; Pure.pure (f a) : Operation β).IsGuarded := by
  refine Meets.bind h (fun a => .pure (P := fun l r => l = [] ∧ ∃ b, r = some (.ok b))
    ⟨rfl, f a, rfl⟩) ?_ ?_ ?_
  · rintro a k l r - ⟨-, hr⟩
    exact .inl hr
  · rintro e k (⟨a, ha⟩ | hk)
    · cases ha
    · exact .inr hk
  · rintro k (⟨a, ha⟩ | hk)
    · cases ha
    · exact .inr hk

end Operation

/-! ## The operations of a master -/

namespace Master

open Operation

theorem workflow_isCheck (projectId flowId : Int) : (workflow projectId flowId).IsCheck := by
  refine IsCheck.bind (.store trivial fun _ => trivial) fun found => ?_
  cases found with
  | none => exact .throw _
  | some w =>
    simp only
    split
    · exact .pure _
    · exact .throw _

theorem cronExpression_isCheck (text : String) : (cronExpression text).IsCheck := by
  unfold cronExpression
  split
  · exact .pure _
  · exact .throw _

theorem window_isCheck (e : CronExpression) (start stop : Instant) (limit : Nat) :
    (window e start stop limit).IsCheck := by
  unfold window
  split
  · exact .pure _
  · exact .throw _
  · exact .crash

theorem execution_isCheck (id : Int) : (execution id).IsCheck := by
  refine IsCheck.bind (.store trivial fun _ => trivial) fun found => ?_
  cases found with
  | none => exact .throw _
  | some e => exact .pure _

/-- **A submission never fails**: the store in memory takes every execution. -/
theorem submit_succeeds (e : NewExecution) : (submit e).Succeeds := by
  apply Succeeds.bind
  · exact Meets.store trivial fun o s => ⟨(s.store.createExecution o.now e).1, rfl⟩
  · intro row
    exact .bind (.request trivial) fun _ => .pure _

theorem submitEach_succeeds (w : Workflow) (ts : List Instant) : (submitEach w ts).Succeeds := by
  induction ts with
  | nil => exact .pure _
  | cons t ts ih => exact .bind (submit_succeeds _) fun _ => .bind ih fun _ => .pure _

theorem execFlow_isGuarded (projectId flowId : Int) (t : Instant) (set : Settings) :
    (execFlow projectId flowId t set).IsGuarded :=
  (workflow_isCheck projectId flowId).bind_isGuarded fun _ => (submit_succeeds _).isGuarded

/-- **A backfill fails only before its first execution is stored.** -/
theorem backfill_isGuarded (limit : Nat) (projectId flowId : Int) (cron : String)
    (start stop : Instant) : (backfill limit projectId flowId cron start stop).IsGuarded := by
  apply (workflow_isCheck projectId flowId).bind_isGuarded
  intro w
  apply (cronExpression_isCheck cron).bind_isGuarded
  intro e
  split
  · exact (IsCheck.throw _).isGuarded
  · apply (window_isCheck e start stop limit).bind_isGuarded
    exact fun ts => (submitEach_succeeds w ts).isGuarded

theorem materialize_isGuarded (c : Schedule) (t : Instant) : (materialize c t).IsGuarded := by
  refine IsCheck.bind_isGuarded (.store trivial fun _ => trivial) fun found => ?_
  cases found with
  | none => exact (IsCheck.throw _).isGuarded
  | some w => exact (submit_succeeds _).isGuarded

theorem executorAddress_isCheck (host : String) (port : Int) :
    (Operation.ofExcept (executorAddress host port)).IsCheck := by
  cases executorAddress host port with
  | ok a => exact .pure a
  | error e => exact .throw e

theorem registerExecutor_isGuarded (host : String) (port : Int) (t : Instant) :
    (registerExecutor host port t).IsGuarded :=
  (executorAddress_isCheck host port).bind_isGuarded fun _ =>
    Succeeds.isGuarded (.request trivial)

theorem reportExecutor_isGuarded (host : String) (port : Int) (t : Instant) (ids : List Int) :
    (reportExecutor host port t ids).IsGuarded :=
  (executorAddress_isCheck host port).bind_isGuarded fun _ =>
    Succeeds.isGuarded (.request trivial)

theorem install_succeeds (k : TriggerKey) (c : Schedule) (cron : CronExpression) :
    (install k c cron).Succeeds :=
  .bind (.request trivial) fun _ => .request trivial

/-- **A schedule is installed only once its expression has been read.** -/
theorem setSchedule_isGuarded (projectId flowId : Int) :
    (setSchedule projectId flowId).IsGuarded := by
  refine IsCheck.bind_isGuarded (.store trivial fun _ => trivial) fun found => ?_
  cases found with
  | none => exact (IsCheck.throw _).isGuarded
  | some c =>
    apply (cronExpression_isCheck c.crontab).bind_isGuarded
    exact fun cron => (install_succeeds _ c cron).isGuarded

theorem deleteSchedule_succeeds (projectId flowId : Int) :
    (deleteSchedule projectId flowId).Succeeds :=
  .request trivial

theorem deleteSchedules_succeeds (projectId : Int) : (deleteSchedules projectId).Succeeds :=
  .request trivial

theorem installEach_succeeds (cs : List Schedule) : (installEach cs).Succeeds := by
  induction cs with
  | nil => exact .pure _
  | cons c cs ih =>
    unfold installEach
    split
    · exact ih
    · exact .bind (install_succeeds _ _ _) fun _ => .bind ih fun _ => .pure _

end Master

/-! ## Requests and their replies -/

namespace MasterRequest

/-- The type of what is found or done for a request. -/
def Result : MasterRequest → Type
  | .setSchedule _ _ => Unit
  | .deleteSchedule _ _ => Bool
  | .deleteSchedules _ => Nat
  | .execFlow _ _ _ _ => List Int
  | .execAdHoc _ => Address
  | .appendWorkFlow _ _ _ => List Int
  | .cancelExecFlow _ => Unit
  | .registerExecutor _ _ _ => Unit
  | .executorReport _ _ _ => Unit
  | .getExecFlow _ => Execution
  | .listExecutors => List Executor

/-- The envelope of a reply; the list of the executors goes without one. -/
def envelope? : (r : MasterRequest) → r.Reply → Option Envelope
  | .setSchedule _ _, env => some env
  | .deleteSchedule _ _, env => some env
  | .deleteSchedules _, env => some env
  | .execFlow _ _ _ _, a => some (IdsReply.ret a)
  | .execAdHoc _, env => some env
  | .appendWorkFlow _ _ _, a => some (IdsReply.ret a)
  | .cancelExecFlow _, env => some env
  | .registerExecutor _ _ _, env => some env
  | .executorReport _ _ _, env => some env
  | .getExecFlow _, a => some (ExecutionReply.ret a)
  | .listExecutors, _ => none

/-- The executions that a reply lists as started. -/
def execIds : (r : MasterRequest) → r.Reply → List Int
  | .execFlow _ _ _ _, a => IdsReply.execIds a
  | .appendWorkFlow _ _ _, a => IdsReply.execIds a
  | _, _ => []

end MasterRequest

namespace Service

/-- **What is done for a request**, its times and parts read first. -/
def operation (limit : Nat) : (r : MasterRequest) → Operation r.Result
  | .setSchedule projectId flowId => Master.setSchedule projectId flowId
  | .deleteSchedule projectId flowId => Master.deleteSchedule projectId flowId
  | .deleteSchedules projectId => Master.deleteSchedules projectId
  | .execFlow projectId flowId scheduleDate info => show Operation (List Int) from do
    let t ← instantOf "schedule_date" scheduleDate
    let id ← Master.execFlow projectId flowId t (settings info)
    pure [id]
  | .execAdHoc id => Master.execAdHoc id
  | .appendWorkFlow projectId flowId info => backfill limit projectId flowId info
  | .cancelExecFlow id => Master.cancel id
  | .registerExecutor host port registerTime => show Operation Unit from do
    let t ← instantOf "register_time" registerTime
    Master.registerExecutor host port t
  | .executorReport host port info => show Operation Unit from do
    let i := info.getD ⟨0, []⟩
    let t ← instantOf "report_date" i.reportDate
    Master.reportExecutor host port t i.execIds
  | .getExecFlow id => Master.execution id
  | .listExecutors => Operation.request .executors

/-- **The reply that tells of an outcome.** That to a backfill does not list its executions. -/
def reply : (r : MasterRequest) → Except MasterError r.Result → r.Reply
  | .setSchedule _ _, x => envelope x
  | .deleteSchedule _ _, x => envelope x
  | .deleteSchedules _, x => envelope x
  | .execFlow _ _ _ _, .ok ids => (⟨.ok, ids⟩ : IdsReply)
  | .execFlow _ _ _ _, .error e => (⟨⟨e.code, e.message⟩, []⟩ : IdsReply)
  | .execAdHoc _, x => envelope x
  | .appendWorkFlow _ _ _, x => (⟨envelope x, []⟩ : IdsReply)
  | .cancelExecFlow _, x => envelope x
  | .registerExecutor _ _ _, x => envelope x
  | .executorReport _ _ _, x => envelope x
  | .getExecFlow _, .ok e => executionReply e
  | .getExecFlow id, .error e => noExecutionReply id e
  | .listExecutors, .ok es => List.map executorReply es
  | .listExecutors, .error _ => ([] : List ExecutorReply)

/-- **A request is handled by its operation**, and the reply tells of the outcome. -/
theorem handle_eq (limit : Nat) (r : MasterRequest) :
    handle limit r = (operation limit r).run.bind fun x => .done (reply r x) := by
  cases r with
  | execFlow projectId flowId date info =>
    refine congrArg (Interaction.bind _) (funext fun x => ?_)
    cases x <;> rfl
  | appendWorkFlow projectId flowId info =>
    -- the executions of a backfill are dropped before the reply is made
    refine (Interaction.bind_bind _ _ _).trans ?_
    refine congrArg (Interaction.bind _) (funext fun x => ?_)
    cases x <;> rfl
  | getExecFlow id =>
    refine congrArg (Interaction.bind _) (funext fun x => ?_)
    cases x <;> rfl
  | listExecutors => rfl
  | _ => rfl

/-- The envelope of a reply tells whether the request succeeded, and if not, why. -/
theorem envelope?_reply {r : MasterRequest} {x : Except MasterError r.Result} {env : Envelope}
    (h : r.envelope? (reply r x) = some env) :
    (∃ b, x = .ok b ∧ env = .ok) ∨ ∃ e, x = .error e ∧ env = ⟨e.code, e.message⟩ := by
  cases x with
  | ok b =>
    refine .inl ⟨b, rfl, ?_⟩
    cases r <;> cases h <;> rfl
  | error e =>
    refine .inr ⟨e, rfl, ?_⟩
    cases r <;> cases h <;> rfl

/-- A reply that tells of an error lists no executions. -/
theorem execIds_reply_error (r : MasterRequest) (e : MasterError) :
    r.execIds (reply r (.error e)) = [] := by
  cases r <;> rfl

/-! ## What has been asked when a request fails -/

/-- **What a request has asked that fails with an error**: only checks; or, after checks, a call
that has failed with that error, which passes on a cancel or hands over an ad-hoc request to the
executor picked for it. -/
inductive Refusal : MasterRequest → History → MasterError → Prop
  | check {r : MasterRequest} {h : History} {e : MasterError} (hh : ∀ x ∈ h, Exchange.IsIdle x) :
      Refusal r h e
  | cancel {id : Int} {h : History} {f : CallError} (a : Address)
      (hh : ∀ x ∈ h, Exchange.IsIdle x) :
      Refusal (.cancelExecFlow id) (h ++ [⟨.call (.cancel a id), .error f⟩]) (.call f)
  | handOver {id : Int} {h : History} {f : CallError} (x : Executor)
      (hh : ∀ x ∈ h, Exchange.IsIdle x) :
      Refusal (.execAdHoc id) (h ++ [⟨.pick, some x⟩, ⟨.call (.adHoc x.address id), .error f⟩])
        (.call f)

/-- More checks before. -/
theorem Refusal.after_checks {r : MasterRequest} {h k : History} {e : MasterError}
    (hr : Refusal r h e) (hk : ∀ x ∈ k, Exchange.IsIdle x) : Refusal r (k ++ h) e := by
  cases hr with
  | check hh => exact .check (List.forall_mem_append.mpr ⟨hk, hh⟩)
  | cancel a hh =>
    rw [← List.append_assoc]
    exact .cancel a (List.forall_mem_append.mpr ⟨hk, hh⟩)
  | handOver x hh =>
    rw [← List.append_assoc]
    exact .handOver x (List.forall_mem_append.mpr ⟨hk, hh⟩)

/-- What has been asked when a request has ended: for a refusal if it has failed, and only for
checks if it has broken off. -/
def Answered {α : Type} (r : MasterRequest) (h : History) : Option (Except MasterError α) → Prop
  | some (.ok _) => True
  | some (.error e) => Refusal r h e
  | none => ∀ x ∈ h, Exchange.IsIdle x

theorem Answered.after_checks {α : Type} {r : MasterRequest} {h k : History}
    {x : Option (Except MasterError α)} (hx : Answered r h x) (hk : ∀ y ∈ k, Exchange.IsIdle y) :
    Answered r (k ++ h) x := by
  rcases x with _ | e | a
  · exact List.forall_mem_append.mpr ⟨hk, hx⟩
  · exact Refusal.after_checks hx hk
  · trivial

/-- **An operation that answers a request.** -/
def Answers {α : Type} (r : MasterRequest) (op : Operation α) : Prop :=
  op.Meets (Answered r)

end Service

open Service in
theorem Operation.IsGuarded.answers {α : Type} {op : Operation α} (h : op.IsGuarded)
    (r : MasterRequest) : Answers r op := by
  refine h.imp ?_
  rintro l (_ | (e | a)) (⟨a, ha⟩ | hl)
  · cases ha
  · exact hl
  · cases ha
  · exact .check hl
  · trivial
  · trivial

open Service in
theorem Operation.IsCheck.bind_answers {α β : Type} {op : Operation α} {f : α → Operation β}
    {r : MasterRequest} (hop : op.IsCheck) (hf : ∀ a, Answers r (f a)) :
    Answers r (op >>= f) := by
  refine Meets.bind hop hf ?_ (fun e k hk => .check hk) fun k hk => hk
  exact fun _ _ _ _ hk hl => hl.after_checks hk

namespace Service

open Operation

theorem instantOf_of_ne {millis : Int} (h : millis ≠ 0) (field : String) :
    instantOf field millis = match Instant.ofMillis? millis with
      | some t => Pure.pure t
      | none => throw (.validation (field ++ " out of range: " ++ toString millis)) :=
  if_neg h

theorem instantOf_isCheck (field : String) (millis : Int) : (instantOf field millis).IsCheck := by
  by_cases hm : millis = 0
  · subst hm
    exact IsCheck.request (r := .now) trivial fun _ => trivial
  · rw [instantOf_of_ne hm]
    split
    · exact .pure _
    · exact .throw _

theorem backfill_isGuarded (limit : Nat) (projectId flowId : Int) (info : Option WindowInfo) :
    (backfill limit projectId flowId info).IsGuarded := by
  cases info with
  | none => exact (IsCheck.throw _).isGuarded
  | some i =>
    apply (instantOf_isCheck "start_date" i.startDate).bind_isGuarded
    intro start
    apply (instantOf_isCheck "end_date" i.endDate).bind_isGuarded
    intro stop
    exact Master.backfill_isGuarded limit projectId flowId i.cron start stop

/-- **An ad-hoc request fails before it has picked an executor, or with the call to it.** -/
theorem execAdHoc_answers (id : Int) : Answers (.execAdHoc id) (Master.execAdHoc id) := by
  refine IsCheck.bind_answers (.store trivial fun _ => trivial) fun found => ?_
  cases found with
  | none => exact (IsCheck.throw _).isGuarded.answers _
  | some a =>
    -- after the pick, the call decides
    refine Meets.bind (P := fun l p => ∃ y, p = some (.ok y) ∧ l = [⟨.pick, y⟩])
      (Q := fun y l x => (∃ b, x = some (.ok b)) ∨ (y = none ∧ l = [] ∧ ∃ e, x = some (.error e)) ∨
        ∃ (p : Executor) (f : CallError), y = some p ∧ x = some (.error (.call f)) ∧
          l = [⟨.call (.adHoc p.address id), .error f⟩])
      (.request trivial fun y => ⟨y, rfl, rfl⟩) ?_ ?_ ?_ ?_
    · intro picked
      cases picked with
      | none => exact Meets.throw (.inr (.inl ⟨rfl, rfl, _, rfl⟩))
      | some p =>
        refine Meets.bind (P := fun l x => ∃ reply, l = [⟨.call (.adHoc p.address id), reply⟩] ∧
          x = some (Except.mapError .call reply)) (Q := fun _ _ x => ∃ b, x = some (.ok b))
          (.call trivial fun reply => ⟨reply, rfl, rfl⟩) (fun _ => .pure ⟨_, rfl⟩) ?_ ?_ ?_
        · exact fun _ _ _ _ _ hx => .inl hx
        · rintro e k ⟨f | _, rfl, he⟩
          · cases he
            exact .inr (.inr ⟨p, f, rfl, rfl, rfl⟩)
          · cases he
        · rintro k ⟨_, -, hnone⟩
          cases hnone
    · rintro y k l x ⟨z, hz, rfl⟩ (⟨b, rfl⟩ | ⟨rfl, rfl, e, rfl⟩ | ⟨p, f, rfl, rfl, rfl⟩)
      · trivial
      · cases hz
        exact .check (List.forall_mem_singleton.mpr rfl)
      · cases hz
        exact .handOver (h := []) p (by simp)
    · rintro e k ⟨y, hy, -⟩
      cases hy
    · rintro k ⟨y, hy, -⟩
      cases hy

/-- A cancel that is passed on fails before the call, or with it. -/
theorem cancelOn_answers (worker : String) (id : Int) :
    Answers (.cancelExecFlow id) (Master.cancelOn worker id) := by
  unfold Master.cancelOn
  split
  · next a _ =>
    refine Meets.call trivial fun answer => ?_
    cases answer with
    | ok _ => trivial
    | error f => exact .cancel (h := []) a (by simp)
  · exact (IsCheck.throw _).isGuarded.answers _

/-- A kill takes place, or it changes nothing. -/
theorem kill_meets (id : Int) (expected : Status) :
    (Operation.store (.transition id expected (.toStatus .kill))).Meets fun l x =>
      x = some (.ok true) ∨ ∀ y ∈ l, Exchange.IsIdle y := by
  refine Meets.store rfl fun o s => ?_
  generalize (Site.answer o _ s).1 = granted
  by_cases hg : granted = .ok true
  · subst hg
    exact .inl rfl
  · exact .inr (List.forall_mem_singleton.mpr hg)

/-- **A cancel fails before it has changed the row, or with a call.** -/
theorem cancelWithin_answers (id : Int) (n : Nat) :
    Answers (.cancelExecFlow id) (Master.cancelWithin id n) := by
  -- on the attempts: one that is followed by another has only checked
  induction n with
  | zero => exact (IsCheck.throw _).isGuarded.answers _
  | succ n ih =>
    apply (Master.execution_isCheck id).bind_answers
    intro e
    split
    · exact (IsCheck.throw _).isGuarded.answers _
    · split
      · exact cancelOn_answers _ id
      · refine Meets.bind (kill_meets id e.status) (Q := fun killed l x =>
          if killed then x = some (.ok ()) else Answered (.cancelExecFlow id) l x) ?_ ?_ ?_ ?_
        · intro killed
          cases killed with
          | true => exact Meets.pure rfl
          | false => exact ih
        · rintro (_ | _) k l x hk hl
          · rcases hk with hk | hk
            · cases hk
            · exact Answered.after_checks hl hk
          · obtain rfl : x = some (.ok ()) := hl
            trivial
        · rintro f k (hk | hk)
          · cases hk
          · exact .check hk
        · rintro k (hk | hk)
          · cases hk
          · exact hk

/-- **What is done for a request answers it.** -/
theorem operation_answers (limit : Nat) (r : MasterRequest) : Answers r (operation limit r) := by
  cases r with
  | setSchedule projectId flowId => exact (Master.setSchedule_isGuarded projectId flowId).answers _
  | deleteSchedule projectId flowId =>
    exact (Master.deleteSchedule_succeeds projectId flowId).isGuarded.answers _
  | deleteSchedules projectId =>
    exact (Master.deleteSchedules_succeeds projectId).isGuarded.answers _
  | execFlow projectId flowId date info =>
    apply (instantOf_isCheck "schedule_date" date).bind_answers
    intro t
    exact ((Master.execFlow_isGuarded projectId flowId t (settings info)).map _).answers _
  | execAdHoc id => exact execAdHoc_answers id
  | appendWorkFlow projectId flowId info =>
    exact (backfill_isGuarded limit projectId flowId info).answers _
  | cancelExecFlow id => exact cancelWithin_answers id Master.cancelAttempts
  | registerExecutor host port time =>
    apply (instantOf_isCheck "register_time" time).bind_answers
    intro t
    exact (Master.registerExecutor_isGuarded host port t).answers _
  | executorReport host port info =>
    apply (instantOf_isCheck "report_date" (info.getD ⟨0, []⟩).reportDate).bind_answers
    intro t
    exact (Master.reportExecutor_isGuarded host port t _).answers _
  | getExecFlow id => exact (Master.execution_isCheck id).isGuarded.answers _
  | listExecutors => exact (Succeeds.request (r := .executors) trivial).isGuarded.answers _

/-! ## Failed requests -/

/-- A pick leaves everything but the rotation. -/
theorem agrees_of_pick {s t : Site} {o : Outside} {x : Executor}
    (h : s.answer o .pick = (some x, t)) :
    s.Agrees t ∧ t.registry.cursor = s.registry.cursor + 1 := by
  obtain rfl : ({ s with registry := s.registry.pick.2 } : Site) = t := congrArg Prod.snd h
  have hpick : s.registry.pick.1 = some x := congrArg Prod.fst h
  rcases s.registry.pick_cases with ⟨-, hp⟩ | ⟨y, -, hp⟩
  · rw [hp] at hpick
    cases hpick
  · rw [hp]
    exact ⟨⟨rfl, rfl, rfl, rfl⟩, rfl⟩

variable {r : MasterRequest} {e : MasterError} {turns : List (Turn Request.Answer Site)}
  {others : Site → Site → Prop} {s t : Site}

/-- What the turns of a refusal can be: checks, calls, and picks. -/
theorem Refusal.cases_of_mem {h : History} (hr : Refusal r h e) :
    ∀ y ∈ h, Exchange.IsIdle y ∨ (∃ c a, y = ⟨.call c, a⟩) ∨
      ∃ x : Executor, y = ⟨.pick, some x⟩ := by
  intro y hy
  cases hr with
  | check hh => exact .inl (hh y hy)
  | cancel a hh =>
    rcases List.mem_append.mp hy with hy | hy
    · exact .inl (hh y hy)
    · exact .inr (.inl ⟨_, _, List.mem_singleton.mp hy⟩)
  | handOver x hh =>
    rcases List.mem_append.mp hy with hy | hy
    · exact .inl (hh y hy)
    · rcases List.mem_cons.mp hy with rfl | hy
      · exact .inr (.inr ⟨x, rfl⟩)
      · exact .inr (.inl ⟨_, _, List.mem_singleton.mp hy⟩)

/-- A turn that checks or calls leaves a site as it is. -/
theorem after_eq_before {u : Turn Request.Answer Site}
    (hu : ∃ o, Site.answer o u.exchange.1 u.before = (u.exchange.2, u.after))
    (hx : Exchange.IsIdle u.exchange ∨ ∃ c a, u.exchange = ⟨.call c, a⟩) : u.after = u.before := by
  obtain ⟨o, ho⟩ := hu
  rcases hx with hidle | ⟨c, a, hcall⟩
  · exact hidle.eq_of_answer ho
  · rw [hcall] at ho
    exact (congrArg Prod.snd ho).symm

/-- **The turns of a refusal leave everything but the rotation.** -/
theorem Refusal.agrees (h : Refusal r (turns.map (·.exchange)) e)
    (hturns : ∀ u ∈ turns, ∃ o, Site.answer o u.exchange.1 u.before = (u.exchange.2, u.after)) :
    ∀ u ∈ turns, u.before.Agrees u.after := by
  intro u hu
  rcases or_assoc.mpr (h.cases_of_mem u.exchange (List.mem_map_of_mem hu)) with hx | ⟨p, hpick⟩
  · rw [after_eq_before (hturns u hu) hx]
    exact ⟨rfl, rfl, rfl, rfl⟩
  · obtain ⟨o, ho⟩ := hturns u hu
    rw [hpick] at ho
    exact (agrees_of_pick ho).1

/-- **The rotation after a refusal**, if nobody else acts: it has moved on by one if an executor was
picked. -/
theorem Refusal.cursor {α : Type} {p : Program α} {a : Option α}
    (h : Refusal r (turns.map (·.exchange)) e) (hran : p.Ran Site.answer others s turns a t)
    (hothers : ∀ x y, others x y → y = x) :
    t.registry.cursor = s.registry.cursor ∨
      (∃ id x, r = .execAdHoc id ∧ ⟨.pick, some x⟩ ∈ turns.map (·.exchange)) ∧
        t.registry.cursor = s.registry.cursor + 1 := by
  have hanswered := hran.answered
  generalize hl : turns.map (·.exchange) = l at h
  cases h with
  | check hh =>
    left
    have hsame : t = s := hran.unchanged (f := fun x => x) hothers fun u hu =>
      after_eq_before (hanswered u hu) (.inl (hh _ (hl ▸ List.mem_map_of_mem hu)))
    rw [hsame]
  | @cancel id k f b hh =>
    left
    have hsame : t = s := by
      refine hran.unchanged (f := fun x => x) hothers fun u hu =>
        after_eq_before (hanswered u hu) ?_
      have hmem : u.exchange ∈ k ++ [⟨.call (.cancel b id), .error f⟩] :=
        hl ▸ List.mem_map_of_mem hu
      rcases List.mem_append.mp hmem with hmem | hmem
      · exact .inl (hh _ hmem)
      · exact .inr ⟨_, _, List.mem_singleton.mp hmem⟩
    rw [hsame]
  | @handOver id k f x hh =>
    right
    refine ⟨⟨id, x, rfl, by simp⟩, ?_⟩
    -- the turn of the pick, between the checks and the call
    obtain ⟨us, ws, rfl, hus, hws⟩ := List.map_eq_append_iff.mp hl
    obtain ⟨u, vs, rfl, hu, hvs⟩ := List.map_eq_cons_iff.mp hws
    obtain ⟨v, rfl, hv⟩ := List.map_eq_singleton_iff.mp hvs
    obtain ⟨hbefore, hafter⟩ := hran.changed_at (f := fun x => x) hothers
      (fun w hw => after_eq_before (hanswered w (by simp [hw]))
        (.inl (hh _ (hus ▸ List.mem_map_of_mem hw))))
      (fun w hw => after_eq_before (hanswered w (by simp [List.mem_singleton.mp hw]))
        (.inr ⟨_, _, List.mem_singleton.mp hw ▸ hv⟩))
    obtain ⟨o, ho⟩ := hanswered u (by simp)
    rw [hu] at ho
    have hcursor := (agrees_of_pick ho).2
    rwa [← hafter, hbefore] at hcursor

/-- **A request that fails has changed nothing.** The status of a reply is zero exactly if what is
done for the request has succeeded; otherwise it is the code of the error, and no executions are
listed. Then nothing has been asked but for a refusal, and no turn has changed more than the
rotation, whatever others did meanwhile; if nobody else acts, the site is afterwards as it was, and
the rotation has moved on by one at most, if an executor was picked for an ad-hoc request. -/
theorem failed_request {limit : Nat} {a : r.Reply} {env : Envelope}
    (h : (handle limit r).Ran Site.answer others s turns (some a) t)
    (henv : r.envelope? a = some env) :
    ∃ outcome, (operation limit r).run.Ran Site.answer others s turns (some outcome) t ∧
      a = reply r outcome ∧ (env.status = 0 ↔ ∃ b, outcome = .ok b) ∧
      ∀ e, outcome = .error e →
        env.status = e.code ∧ e.code ≠ 0 ∧ r.execIds a = [] ∧
        Refusal r (turns.map (·.exchange)) e ∧ (∀ u ∈ turns, u.before.Agrees u.after) ∧
        ((∀ x y, others x y → y = x) → s.Agrees t ∧
          (t.registry.cursor = s.registry.cursor ∨
            (∃ id x, r = .execAdHoc id ∧ ⟨.pick, some x⟩ ∈ turns.map (·.exchange)) ∧
              t.registry.cursor = s.registry.cursor + 1)) := by
  rw [handle_eq] at h
  obtain ⟨outcome?, hran, ha⟩ := h.of_map
  obtain ⟨outcome, rfl, rfl⟩ := Option.map_eq_some_iff.mp ha.symm
  refine ⟨outcome, hran, rfl, ?_, ?_⟩
  · rcases envelope?_reply henv with ⟨b, rfl, rfl⟩ | ⟨e, rfl, rfl⟩
    · exact ⟨fun _ => ⟨b, rfl⟩, fun _ => rfl⟩
    · constructor
      · intro hzero
        exact absurd hzero e.code_ne_zero
      · rintro ⟨b, hb⟩
        cases hb
  · rintro e rfl
    have hrefusal : Refusal r (turns.map (·.exchange)) e := by
      obtain ⟨l, hl, hr⟩ := Interaction.Keeps.ran (T := Master.anyhow) (fun _ _ _ => trivial)
        (operation_answers limit r [] s) hran
      rw [List.nil_append, List.nil_append] at hl
      exact hl ▸ hr
    have hturns := hrefusal.agrees hran.answered
    refine ⟨?_, e.code_ne_zero, execIds_reply_error r e, hrefusal, hturns, fun hothers => ?_⟩
    · rcases envelope?_reply henv with ⟨b, hb, -⟩ | ⟨f, hf, rfl⟩
      · cases hb
      · cases hf
        rfl
    · refine ⟨⟨?_, ?_, ?_, ?_⟩, hrefusal.cursor hran hothers⟩
      · exact hran.unchanged (f := fun x => x.store) (fun x y h => by rw [hothers x y h])
          fun u hu => (hturns u hu).store
      · exact hran.unchanged (f := fun x => x.queue) (fun x y h => by rw [hothers x y h])
          fun u hu => (hturns u hu).queue
      · exact hran.unchanged (f := fun x => x.registry.executors)
          (fun x y h => by rw [hothers x y h]) fun u hu => (hturns u hu).executors
      · exact hran.unchanged (f := fun x => x.triggers) (fun x y h => by rw [hothers x y h])
          fun u hu => (hturns u hu).triggers

/-- A site with one ad-hoc request and one executor. -/
def oneAdHoc : Site :=
  ⟨{ Store.empty with adHocs := [⟨1, 10, 42, "select 1"⟩] }, Registry.empty.register ⟨"a", 9000⟩ ⟨0, 0⟩,
    .empty, .empty⟩

/-- An ad-hoc request to an executor that cannot be reached. -/
theorem failed_request_unreachable :
    let env : Envelope := ⟨6, "Executor call failed: Transport failure: connection refused"⟩
    ∃ turns t, (handle 1 (.execAdHoc 1)).Ran Site.answer (fun x y => y = x) oneAdHoc turns
        (some env) t ∧
      (MasterRequest.execAdHoc 1).envelope? env = some env ∧ oneAdHoc.Agrees t ∧
      t.registry.cursor = oneAdHoc.registry.cursor + 1 := by
  have hunreachable := @Interaction.ran_run Request Request.Answer _ Site Outside Site.answer
    (fun x y => y = x) (fun _ => rfl) ⟨⟨0, 0⟩, .error (.transport "connection refused")⟩
    (handle 1 (.execAdHoc 1)) oneAdHoc
  obtain ⟨turns, h⟩ := hunreachable
  refine ⟨turns, _, h, rfl, ?_, rfl⟩
  obtain ⟨outcome, -, -, hok, hfailed⟩ := failed_request h rfl
  cases outcome with
  | ok b => exact absurd (hok.mpr ⟨b, rfl⟩) (by decide)
  | error e =>
    obtain ⟨-, -, -, -, -, hsite⟩ := hfailed e rfl
    exact (hsite fun _ _ hxy => hxy).1

end Service

end WorkflowScheduler
