import WorkflowScheduler.Master.Schedules
import WorkflowScheduler.Proofs.Site

/-!
# What operations ask

Apart from dispatch, the programs of a master queue only rows that wait, and change a status only
from `INIT` to `KILL`. An execution that an operation has stored is queued by its very next request.

## Main definitions

* `owed`: the execution that has been stored last and is to be queued next
* `Request.Served`: what an operation may ask
* `Master.terms`: the terms of every operation
* `Job`, `Job.operation`: the operations a master is asked for
* `Job.Done`: what holds when a job has ended

## Main results

* `Master.cancel_keeps`: an execution whose cancel succeeds does not wait any more
* `Master.recoverPending_keeps`: a recovery queues every row that it has found waiting
* `Job.keeps`: every job keeps to the terms
-/

namespace WorkflowScheduler

/-- The execution that has been stored by the last request, and that is to be queued by the next. -/
def owed (h : History) : Option Execution :=
  match h.getLast? with
  | some ⟨.store (.createExecution _), .ok e⟩ => some (e : Execution)
  | _ => none

@[simp] theorem owed_nil : owed [] = none := rfl

theorem owed_append {r : Request} (hr : r.creates = false) (h : History) (a : r.Answer) :
    owed (h ++ [⟨r, a⟩]) = none := by
  unfold owed
  rw [List.getLast?_append]
  split
  · -- the last request would have to be the one that stores
    next n e heq =>
    simp only [List.getLast?_singleton, Option.some_or, Option.some.injEq] at heq
    cases heq
    simp [Request.creates, StoreRequest.creates] at hr
  · rfl

/-- **What an operation may ask**: it queues rows that wait, kills rows that wait, makes known only
executors that have a host, and leaves it to the dispatch to submit executions and to give up
executors. -/
def Request.Served (r : Request) (s : Site) : Prop :=
  match r with
  | .push e => e.status = .init ∧ s.store.Backs e
  | .register a _ => a.host ≠ ""
  | .report a _ => a.host ≠ ""
  | .store (.transition _ expected u) => expected = .init ∧ u = .toStatus .kill
  | .call (.submit _ _ _ _) => False
  | .evict _ => False
  | .forget _ => False
  | .pause _ => False
  | _ => True

theorem Request.Served.fits {r : Request} {s : Site} (h : r.Served s) : r.Fits s := by
  cases r with
  | push e => exact h.2
  | store q =>
    cases q with
    | transition id expected u =>
      obtain ⟨rfl, rfl⟩ := h
      exact ⟨.inl rfl, .inr ⟨rfl, rfl⟩⟩
    | _ => trivial
  | _ => trivial

theorem Request.Served.minor {r : Request} {s : Site} (h : r.Served s) : r.Minor := by
  cases r with
  | store q =>
    cases q with
    | transition id expected u =>
      obtain ⟨rfl, rfl⟩ := h
      rfl
    | _ => trivial
  | _ => trivial

/-- **The terms of every operation**: others lead the site on, what is asked is served, and what has
been stored is queued next. -/
def Master.terms : Terms Request.Answer Site Outside where
  answer := Site.answer
  rely := Site.Progress
  may h r s := (∀ e, owed h = some e → r = .push e) ∧ r.Served s
  rely_trans := Site.Progress.trans
  rely_self h := .refl h.sound

namespace Operation

variable {α β : Type}

/-- What an operation ends with, after its requests and in a state. -/
abbrev Post (α : Type) := History → Option (Except MasterError α) → Site → Prop

/-- **An operation keeps to the terms of a master**, and ends with a condition. -/
def Keeps (op : Operation α) (post : Post α) : History → Site → Prop :=
  Interaction.Keeps Master.terms post op.run

/-- An operation keeps to the terms, and at its end nothing is left to be queued. -/
def IsSound (op : Operation α) : Prop :=
  ∀ h s, owed h = none → op.Keeps (fun h _ _ => owed h = none) h s

variable {op : Operation α} {post : Post α} {h : History} {s : Site}

theorem Keeps.pure {a : α} (ha : ∀ t, s.Progress t → post h (some (.ok a)) t) :
    (Pure.pure a : Operation α).Keeps post h s := ha

theorem Keeps.throw {e : MasterError} (he : ∀ t, s.Progress t → post h (some (.error e)) t) :
    (MonadExcept.throw e : Operation α).Keeps post h s := he

/-- **One operation after another**, on any terms. -/
theorem keeps_bind {T : Terms Request.Answer Site Outside} {f : α → Operation β} {post' : Post β}
    (hop : op.run.Keeps T post h s)
    (hok : ∀ a h s, (∀ t, T.rely s t → post h (some (.ok a)) t) → (f a).run.Keeps T post' h s)
    (herror : ∀ e h t, post h (some (.error e)) t → post' h (some (.error e)) t)
    (hcrash : ∀ h t, post h none t → post' h none t) :
    (op >>= f).run.Keeps T post' h s := by
  refine Interaction.Keeps.bind hop ?_ hcrash
  rintro (e | a) h s hs
  · exact fun t ht => herror e h t (hs t ht)
  · exact hok a h s hs

/-- **One operation after another that does not fail**, on any terms. -/
theorem keeps_andThen {T : Terms Request.Answer Site Outside} {f : α → Operation β}
    {done : α → History → Site → Prop} {post' : Post β}
    (hop : op.run.Keeps T (fun h r t => ∃ a, r = some (.ok a) ∧ done a h t) h s)
    (hf : ∀ a h s, (∀ t, T.rely s t → done a h t) → (f a).run.Keeps T post' h s) :
    (op >>= f).run.Keeps T post' h s := by
  refine keeps_bind hop ?_ ?_ ?_
  · intro a h s hs
    apply hf
    intro t ht
    obtain ⟨b, hb, hdone⟩ := hs t ht
    cases hb
    exact hdone
  · rintro e h t ⟨a, ha, -⟩
    cases ha
  · rintro h t ⟨a, ha, -⟩
    cases ha

/-- **One operation after another.** -/
theorem Keeps.bind {f : α → Operation β} {post' : Post β} (hop : op.Keeps post h s)
    (hok : ∀ a h s, (∀ t, s.Progress t → post h (some (.ok a)) t) → (f a).Keeps post' h s)
    (herror : ∀ e h t, post h (some (.error e)) t → post' h (some (.error e)) t)
    (hcrash : ∀ h t, post h none t → post' h none t) :
    (op >>= f).Keeps post' h s :=
  keeps_bind hop hok herror hcrash

theorem Keeps.request {r : Request} {post : Post r.Answer}
    (hr : ∀ t, s.Progress t → Master.terms.may h r t ∧ ∀ o u, (t.answer o r).2.Progress u →
      post (h ++ [⟨r, (t.answer o r).1⟩]) (some (.ok (t.answer o r).1)) u) :
    (Operation.request r).Keeps post h s :=
  fun t ht => ⟨(hr t ht).1, (hr t ht).2⟩

theorem store_run (r : StoreRequest) :
    (Operation.store r).run = .ask (.store r) fun a => .done (Except.mapError .store a) :=
  congrArg (Interaction.ask (Request.store r)) (funext fun a => by cases a <;> rfl)

theorem call_run (c : Call) :
    (Operation.call c).run = .ask (.call c) fun a => .done (Except.mapError .call a) :=
  congrArg (Interaction.ask (Request.call c)) (funext fun a => by cases a <;> rfl)

theorem Keeps.store {r : StoreRequest} {post : Post r.Value}
    (hr : ∀ t, s.Progress t → Master.terms.may h (.store r) t ∧
      ∀ o u, (t.answer o (.store r)).2.Progress u →
        post (h ++ [⟨.store r, (t.answer o (.store r)).1⟩])
          (some (Except.mapError .store (t.answer o (.store r)).1)) u) :
    (Operation.store r).Keeps post h s := by
  rw [Keeps, store_run]
  exact fun t ht => ⟨(hr t ht).1, (hr t ht).2⟩

theorem Keeps.call {c : Call} {post : Post Unit}
    (hr : ∀ t, s.Progress t → Master.terms.may h (.call c) t ∧
      ∀ (o : Outside) u, t.Progress u →
        post (h ++ [⟨.call c, o.reply⟩]) (some (Except.mapError .call o.reply)) u) :
    (Operation.call c).Keeps post h s := by
  rw [Keeps, call_run]
  exact fun t ht => ⟨(hr t ht).1, (hr t ht).2⟩

namespace IsSound

theorem pure (a : α) : (Pure.pure a : Operation α).IsSound :=
  fun _ _ hh _ _ => hh

theorem throw (e : MasterError) : (MonadExcept.throw e : Operation α).IsSound :=
  fun _ _ hh _ _ => hh

theorem crash : (Operation.crash : Operation α).IsSound :=
  fun _ _ hh _ _ => hh

theorem bind {f : α → Operation β} (hop : op.IsSound) (hf : ∀ a, (f a).IsSound) :
    (op >>= f).IsSound := by
  intro h s hh
  refine (hop h s hh).bind ?_ (fun _ _ _ h => h) fun _ _ h => h
  exact fun a h s hs => Interaction.Keeps.of_rely fun t ht => hf a h t (hs t ht)

theorem request {r : Request} (hr : ∀ s, r.Served s) (hc : r.creates = false) :
    (Operation.request r).IsSound :=
  fun h _ hh => Keeps.request fun t _ =>
    ⟨⟨by simp [hh], hr t⟩, fun _ _ _ => owed_append hc h _⟩

theorem store {r : StoreRequest} (hr : ∀ s, (Request.store r).Served s)
    (hc : (Request.store r).creates = false) : (Operation.store r).IsSound :=
  fun h _ hh => Keeps.store fun t _ =>
    ⟨⟨by simp [hh], hr t⟩, fun _ _ _ => owed_append hc h _⟩

theorem call {c : Call} (hc : ∀ s, (Request.call c).Served s) : (Operation.call c).IsSound :=
  fun h _ hh => Keeps.call fun t _ =>
    ⟨⟨by simp [hh], hc t⟩, fun o _ _ => owed_append (r := .call c) rfl h o.reply⟩

end IsSound

end Operation

namespace Master

open Operation

/-! ## Requests that only read -/

theorem workflow_isSound (projectId flowId : Int) : (workflow projectId flowId).IsSound := by
  refine .bind (.store (fun _ => trivial) rfl) fun found => ?_
  cases found with
  | none => exact .throw _
  | some w =>
    simp only
    split
    · exact .pure _
    · exact .throw _

theorem cronExpression_isSound (text : String) : (cronExpression text).IsSound := by
  unfold cronExpression
  split
  · exact .pure _
  · exact .throw _

theorem window_isSound (e : CronExpression) (start stop : Instant) (limit : Nat) :
    (window e start stop limit).IsSound := by
  unfold window
  split
  · exact .pure _
  · exact .throw _
  · exact .crash

/-! ## Requests that queue -/

theorem createExecution_keeps (e : NewExecution) {h : History} (hh : owed h = none) (s : Site) :
    (Operation.store (.createExecution e)).Keeps (fun h r t => ∃ row : Execution,
      r = some (.ok row) ∧ owed h = some row ∧ row.status = .init ∧ t.store.Backs row) h s := by
  refine Keeps.store fun t ht => ⟨⟨by simp [hh], trivial⟩, fun o u hu => ?_⟩
  refine ⟨(t.store.createExecution o.now e).1, rfl, ?_, rfl, ?_⟩
  · simp [owed, Site.answer, Store.answer]
  · have hrow : (t.store.createExecution o.now e).2.execution? (t.store.lastId + 1) =
        some (t.store.createExecution o.now e).1 := by
      rw [Store.execution?_createExecution, ht.sound.store.execution?_lastId]
      simp [Store.createExecution]
    exact Store.Backs.mono (.of_execution? hrow (.inl rfl)) hu.leadsTo

/-- **What is stored is queued.** -/
theorem submit_isSound (e : NewExecution) : (submit e).IsSound := by
  intro h s hh
  apply keeps_andThen (createExecution_keeps e hh s)
  intro row h s hrow
  -- the row that is owed is the one that is pushed
  have hpush : (Operation.request (.push row)).Keeps (fun h _ _ => owed h = none) h s := by
    refine Keeps.request fun t ht => ?_
    obtain ⟨howed, hi, hb⟩ := hrow t ht
    refine ⟨⟨fun d hd => ?_, hi, hb⟩, fun _ _ _ => owed_append (r := .push row) rfl h _⟩
    rw [howed] at hd
    rw [Option.some.inj hd]
  exact hpush.bind (fun _ _ _ hs => Keeps.pure hs) (fun _ _ _ hs => hs) fun _ _ hs => hs

theorem submitEach_isSound (w : Workflow) (ts : List Instant) : (submitEach w ts).IsSound := by
  induction ts with
  | nil => exact .pure _
  | cons t ts ih =>
    exact .bind (submit_isSound _) fun _ => .bind ih fun _ => .pure _

theorem execFlow_isSound (projectId flowId : Int) (t : Instant) (set : Settings) :
    (execFlow projectId flowId t set).IsSound :=
  .bind (workflow_isSound _ _) fun _ => submit_isSound _

theorem backfill_isSound (limit : Nat) (projectId flowId : Int) (cron : String)
    (start stop : Instant) : (backfill limit projectId flowId cron start stop).IsSound := by
  refine .bind (workflow_isSound _ _) fun w => .bind (cronExpression_isSound _) fun e => ?_
  split
  · exact .throw _
  · exact .bind (window_isSound _ _ _ _) fun _ => submitEach_isSound _ _

theorem materialize_isSound (c : Schedule) (t : Instant) : (materialize c t).IsSound := by
  refine .bind (.store (fun _ => trivial) rfl) fun found => ?_
  cases found with
  | none => exact .throw _
  | some w => exact submit_isSound _

/-! ## Requests of executors -/

theorem execAdHoc_isSound (id : Int) : (execAdHoc id).IsSound := by
  refine .bind (.store (fun _ => trivial) rfl) fun found => ?_
  cases found with
  | none => exact .throw _
  | some a =>
    refine .bind (.request (fun _ => trivial) rfl) fun picked => ?_
    cases picked with
    | none => exact .throw _
    | some e => exact .bind (.call fun _ => trivial) fun _ => .pure _

theorem host_of_executorAddress {host : String} {port : Int} {a : Address}
    (h : executorAddress host port = .ok a) : a.host ≠ "" := by
  unfold executorAddress at h
  split at h
  · cases h
  · next hblank =>
    split at h
    · -- a text without a character is blank
      cases h
      rintro rfl
      exact hblank rfl
    · cases h

/-- What an executor asks for is done with the address that it gives, or not at all. -/
theorem withAddress_isSound {host : String} {port : Int} {f : Address → Operation Unit}
    (hf : ∀ a, executorAddress host port = .ok a → (f a).IsSound) :
    (Operation.ofExcept (executorAddress host port) >>= f).IsSound := by
  cases ha : executorAddress host port with
  | ok a => exact hf a ha
  | error e => exact .throw e

theorem registerExecutor_isSound (host : String) (port : Int) (t : Instant) :
    (registerExecutor host port t).IsSound :=
  withAddress_isSound fun _ ha => .request (fun _ => host_of_executorAddress ha) rfl

theorem reportExecutor_isSound (host : String) (port : Int) (t : Instant) (ids : List Int) :
    (reportExecutor host port t ids).IsSound :=
  withAddress_isSound fun _ ha => .request (fun _ => host_of_executorAddress ha) rfl

/-! ## Requests about schedules -/

theorem install_isSound (k : TriggerKey) (c : Schedule) (cron : CronExpression) :
    (install k c cron).IsSound :=
  .bind (.request (fun _ => trivial) rfl) fun _ => .request (fun _ => trivial) rfl

theorem setSchedule_isSound (projectId flowId : Int) : (setSchedule projectId flowId).IsSound := by
  refine .bind (.store (fun _ => trivial) rfl) fun found => ?_
  cases found with
  | none => exact .throw _
  | some c => exact .bind (cronExpression_isSound _) fun _ => install_isSound _ _ _

theorem deleteSchedule_isSound (projectId flowId : Int) :
    (deleteSchedule projectId flowId).IsSound :=
  .request (fun _ => trivial) rfl

theorem deleteSchedules_isSound (projectId : Int) : (deleteSchedules projectId).IsSound :=
  .request (fun _ => trivial) rfl

theorem installEach_isSound (cs : List Schedule) : (installEach cs).IsSound := by
  induction cs with
  | nil => exact .pure _
  | cons c cs ih =>
    unfold installEach
    split
    · exact ih
    · exact .bind (install_isSound _ _ _) fun _ => .bind ih fun _ => .pure _

theorem restore_isSound : restore.IsSound :=
  .bind (.store (fun _ => trivial) rfl) fun _ => installEach_isSound _

/-! ## Cancelling -/

theorem execution_keeps (id : Int) {h : History} (hh : owed h = none) (s : Site) :
    (execution id).Keeps (fun h r t => owed h = none ∧ ∀ e, r = some (.ok e) →
      e.Lifecycle ∧ ∃ f, t.store.execution? id = some f ∧ e.LeadsTo f) h s := by
  have hread : (Operation.store (.execution id)).Keeps (fun h r t => owed h = none ∧
      ∀ e : Execution, r = some (.ok (some e)) →
        e.Lifecycle ∧ ∃ f, t.store.execution? id = some f ∧ e.LeadsTo f) h s := by
    refine Keeps.store fun t ht => ⟨⟨by simp [hh], trivial⟩, fun o u hu => ?_⟩
    refine ⟨owed_append (r := .store (.execution id)) rfl h _, fun e he => ?_⟩
    have he : t.store.execution? id = some e := Except.ok.inj (Option.some.inj he)
    exact ⟨ht.sound.store.lifecycle e (Store.execution?_mem he), hu.leadsTo id e he⟩
  refine hread.bind ?_ (fun e h t ht => ⟨ht.1, fun _ he => by cases he⟩)
    fun h t ht => ⟨ht.1, fun _ he => by cases he⟩
  intro found h s hs
  cases found with
  | none => exact Keeps.throw fun t ht => ⟨(hs t ht).1, fun _ he => by cases he⟩
  | some e =>
    refine Keeps.pure fun t ht => ⟨(hs t ht).1, fun d hd => ?_⟩
    obtain rfl : e = d := by simpa using hd
    exact (hs t ht).2 e rfl

theorem cancelOn_keeps (worker : String) (id : Int) {h : History} (hh : owed h = none) {s : Site}
    (hs : ∀ t, s.Progress t → t.HasLeft id) :
    (cancelOn worker id).Keeps (fun h _ t => owed h = none ∧ t.HasLeft id) h s := by
  unfold cancelOn
  split
  · next a _ =>
    refine Keeps.call fun t ht => ⟨⟨by simp [hh], trivial⟩, fun o u hu => ?_⟩
    exact ⟨owed_append (r := .call (.cancel a id)) rfl h o.reply, hs u (ht.trans hu)⟩
  · exact Keeps.throw fun t ht => ⟨hh, hs t ht⟩

/-- A row that has been killed while it waited is killed. -/
theorem status_of_killed {t : Site} {o : Outside} {id : Int}
    (h : (t.answer o (.store (.transition id .init (.toStatus .kill)))).1 = .ok true) :
    ∃ e, (t.answer o (.store (.transition id .init (.toStatus .kill)))).2.store.execution? id =
      some e ∧ e.status = .kill := by
  obtain ⟨e, he, hi⟩ := Store.transition_eq_true h
  refine ⟨_, Site.execution?_answer he, ?_⟩
  rw [Request.rowAfter_transition (Store.execution?_id he) hi]
  rfl

theorem kill_keeps (id : Int) {h : History} (hh : owed h = none) (s : Site) :
    (Operation.store (.transition id .init (.toStatus .kill))).Keeps (fun h r t =>
      owed h = none ∧ (r = some (.ok true) → t.HasLeft id)) h s := by
  refine Keeps.store fun t ht => ⟨⟨by simp [hh], rfl, rfl⟩, fun o u hu => ?_⟩
  refine ⟨owed_append (r := .store (.transition id .init (.toStatus .kill))) rfl h _, fun hr => ?_⟩
  have hok : (t.answer o (.store (.transition id .init (.toStatus .kill)))).1 = .ok true := by
    have hr := Option.some.inj hr
    cases ha : (t.answer o (.store (.transition id .init (.toStatus .kill)))).1 <;>
      rw [ha] at hr <;> cases hr
    rfl
  obtain ⟨e, he, hk⟩ := status_of_killed hok
  exact Site.HasLeft.progress ⟨e, he, by simp [hk]⟩ hu

/-- **An execution whose cancel succeeds does not wait any more.** -/
theorem cancelWithin_keeps (id : Int) (n : Nat) {h : History} (hh : owed h = none) (s : Site) :
    (cancelWithin id n).Keeps (fun h r t =>
      owed h = none ∧ (r = some (.ok ()) → t.HasLeft id)) h s := by
  -- on the attempts: each begins with a new look at the row
  induction n generalizing h s with
  | zero => exact Keeps.throw fun t ht => ⟨hh, fun hr => by cases hr⟩
  | succ n ih =>
    refine (execution_keeps id hh s).bind ?_ (fun e h t ht => ⟨ht.1, fun he => by cases he⟩)
      fun h t ht => ⟨ht.1, fun he => by cases he⟩
    intro e h s hs
    refine Interaction.Keeps.of_rely fun t ht => ?_
    obtain ⟨hh, he⟩ := hs t ht
    obtain ⟨hcycle, f, hf, hef⟩ := he e rfl
    split
    · -- the row is finished: there is nothing to cancel
      exact Keeps.throw fun u hu => ⟨hh, fun hr => by cases hr⟩
    · next hfin =>
      split
      · -- the row has a worker, so it does not wait, and the cancel is passed on
        next worker hw =>
        have hleft : t.HasLeft id := by
          refine ⟨f, hf, hef.status_ne_init fun hi => ?_⟩
          simp [(hcycle.of_init hi).1] at hw
        exact (cancelOn_keeps worker id hh fun u hu => hleft.progress hu).imp
          fun h r u hu => ⟨hu.1, fun _ => hu.2⟩
      · -- the row waits: it is killed, or it has changed and is looked at again
        next hw =>
        rw [hcycle.status_eq_init (by simpa using hfin) hw]
        refine (kill_keeps id hh t).bind ?_ (fun e h u hu => ⟨hu.1, fun he => by cases he⟩)
          fun h u hu => ⟨hu.1, fun he => by cases he⟩
        intro killed h t hs
        cases killed with
        | true => exact Keeps.pure fun u hu => ⟨(hs u hu).1, fun _ => (hs u hu).2 rfl⟩
        | false => exact Interaction.Keeps.of_rely fun u hu => ih (hs u hu).1 u

theorem cancel_keeps (id : Int) {h : History} (hh : owed h = none) (s : Site) :
    (cancel id).Keeps (fun h r t => owed h = none ∧ (r = some (.ok ()) → t.HasLeft id)) h s :=
  cancelWithin_keeps id cancelAttempts hh s

/-! ## Recovery -/

theorem pushEach_keeps (es : List Execution) {h : History} (hh : owed h = none) {s : Site}
    (hes : ∀ e ∈ es, e.status = .init ∧ s.store.Backs e) :
    (pushEach es).Keeps (fun k r _ => ∃ a, r = some (.ok a) ∧ owed k = none ∧ h ⊆ k ∧
      ∀ e ∈ es, ⟨.push e, true⟩ ∈ k) h s := by
  -- on the rows that are left: what has been pushed stays in the history
  induction es generalizing h s with
  | nil => exact Keeps.pure fun t ht => ⟨(), rfl, hh, fun _ hx => hx, by simp⟩
  | cons e es ih =>
    refine fun t ht => ⟨⟨by simp [hh], ?_⟩, fun o => ?_⟩
    · obtain ⟨hi, hb⟩ := hes e List.mem_cons_self
      exact ⟨hi, hb.mono ht.leadsTo⟩
    · have hfits : (Request.push e).Fits t := (hes e List.mem_cons_self).2.mono ht.leadsTo
      have hpushed := Site.answer_push ht.sound.hasConsumer o e
      refine (ih (owed_append (r := .push e) rfl h _) fun d hd => ?_).imp ?_
      · obtain ⟨hi, hb⟩ := hes d (List.mem_cons_of_mem _ hd)
        exact ⟨hi, (hb.mono ht.leadsTo).mono (Site.answer_leadsTo hfits o)⟩
      · rintro k r u ⟨a, hr, hk, hsub, hin⟩
        have hsub := List.append_subset.mp hsub
        refine ⟨a, hr, hk, hsub.1, fun d hd => ?_⟩
        rcases List.mem_cons.mp hd with rfl | hd
        · exact hpushed ▸ hsub.2 List.mem_cons_self
        · exact hin d hd

/-- **A recovery queues every row that it has found waiting.** -/
theorem recoverPending_keeps (s : Site) :
    recoverPending.Keeps (fun h _ _ => owed h = none ∧ ∃ rows : List Execution,
      ⟨.store (.executionsInStatus .init), .ok rows⟩ ∈ h ∧
        ∀ e ∈ rows, ⟨.push e, true⟩ ∈ h) [] s := by
  have hread : (Operation.store (.executionsInStatus .init)).Keeps (fun h r t =>
      ∃ rows : List Execution, r = some (.ok rows) ∧ owed h = none ∧
        ⟨.store (.executionsInStatus .init), .ok rows⟩ ∈ h ∧
        ∀ e ∈ rows, e.status = .init ∧ t.store.Backs e) [] s := by
    refine Keeps.store fun t ht => ⟨⟨by simp, trivial⟩, fun o u hu => ?_⟩
    refine ⟨t.store.executionsInStatus .init, rfl,
      owed_append (r := .store (.executionsInStatus .init)) rfl [] _, List.mem_singleton.mpr rfl, ?_⟩
    intro e he
    obtain ⟨he, hi⟩ := List.mem_filter.mp he
    have hi : e.status = .init := by simpa using hi
    have hrow := ht.sound.store.execution?_of_mem he
    exact ⟨hi, (Store.Backs.of_execution? hrow (.inl hi)).mono hu.leadsTo⟩
  apply keeps_andThen hread
  intro rows h s hs
  refine Interaction.Keeps.of_rely fun t ht => ?_
  obtain ⟨hh, hmem, hrows⟩ := hs t ht
  apply keeps_andThen (pushEach_keeps rows hh hrows)
  intro _ k u hu
  refine Keeps.pure fun v hv => ?_
  obtain ⟨hk, hsub, hin⟩ := hu v hv
  exact ⟨hk, rows, hsub hmem, hin⟩

end Master

/-! ## Jobs -/

/-- What a master is asked for, apart from dispatch. -/
inductive Job where
  | execFlow (projectId flowId : Int) (scheduleTime : Instant) (s : Settings)
  | backfill (limit : Nat) (projectId flowId : Int) (cron : String) (start stop : Instant)
  | execAdHoc (id : Int)
  | cancel (id : Int)
  | registerExecutor (host : String) (port : Int) (registeredAt : Instant)
  | reportExecutor (host : String) (port : Int) (reportedAt : Instant) (execIds : List Int)
  | setSchedule (projectId flowId : Int)
  | deleteSchedule (projectId flowId : Int)
  | deleteSchedules (projectId : Int)
  | restore
  /-- A trigger fires. -/
  | materialize (s : Schedule) (fireTime : Instant)
  | recoverPending
  deriving DecidableEq, Repr

namespace Job

/-- **The operation of a job**, without its answer. -/
def operation : Job → Operation Unit
  | .execFlow projectId flowId t s => do let _ ← Master.execFlow projectId flowId t s
  | .backfill limit projectId flowId cron start stop => do
    let _ ← Master.backfill limit projectId flowId cron start stop
  | .execAdHoc id => do let _ ← Master.execAdHoc id
  | .cancel id => Master.cancel id
  | .registerExecutor host port t => Master.registerExecutor host port t
  | .reportExecutor host port t ids => Master.reportExecutor host port t ids
  | .setSchedule projectId flowId => Master.setSchedule projectId flowId
  | .deleteSchedule projectId flowId => do let _ ← Master.deleteSchedule projectId flowId
  | .deleteSchedules projectId => do let _ ← Master.deleteSchedules projectId
  | .restore => do let _ ← Master.restore
  | .materialize s t => do let _ ← Master.materialize s t
  | .recoverPending => do let _ ← Master.recoverPending

/-- **What holds when a job has ended**: nothing is left to be queued; an execution that has been
cancelled does not wait any more; a recovery has queued what it has found waiting. -/
def Done (j : Job) (h : History) (r : Option (Except MasterError Unit)) (s : Site) : Prop :=
  owed h = none ∧
    match j with
    | .cancel id => r = some (.ok ()) → s.HasLeft id
    | .recoverPending => ∃ rows : List Execution,
        ⟨.store (.executionsInStatus .init), .ok rows⟩ ∈ h ∧ ∀ e ∈ rows, ⟨.push e, true⟩ ∈ h
    | _ => True

theorem keeps_of_isSound {op : Operation Unit} (hop : op.IsSound) (s : Site) :
    op.Keeps (fun h _ _ => owed h = none ∧ True) [] s :=
  Interaction.Keeps.imp (hop [] s rfl) fun _ _ _ h => ⟨h, trivial⟩

theorem discard_keeps {α : Type} {op : Operation α} (hop : op.IsSound) (s : Site) :
    (do let _ ← op : Operation Unit).Keeps (fun h _ _ => owed h = none ∧ True) [] s :=
  keeps_of_isSound (.bind hop fun _ => .pure ()) s

/-- **Every job keeps to the terms.** -/
theorem keeps (j : Job) (s : Site) : j.operation.Keeps j.Done [] s := by
  cases j with
  | execFlow projectId flowId t set =>
    exact discard_keeps (Master.execFlow_isSound projectId flowId t set) s
  | backfill limit projectId flowId cron start stop =>
    exact discard_keeps (Master.backfill_isSound limit projectId flowId cron start stop) s
  | execAdHoc id => exact discard_keeps (Master.execAdHoc_isSound id) s
  | cancel id => exact Master.cancel_keeps id rfl s
  | registerExecutor host port t =>
    exact keeps_of_isSound (Master.registerExecutor_isSound host port t) s
  | reportExecutor host port t ids =>
    exact keeps_of_isSound (Master.reportExecutor_isSound host port t ids) s
  | setSchedule projectId flowId =>
    exact keeps_of_isSound (Master.setSchedule_isSound projectId flowId) s
  | deleteSchedule projectId flowId =>
    exact discard_keeps (Master.deleteSchedule_isSound projectId flowId) s
  | deleteSchedules projectId => exact discard_keeps (Master.deleteSchedules_isSound projectId) s
  | restore => exact discard_keeps Master.restore_isSound s
  | materialize c t => exact discard_keeps (Master.materialize_isSound c t) s
  | recoverPending =>
    refine (Master.recoverPending_keeps s).bind ?_ ?_ ?_
    · exact fun _ _ _ hs => Operation.Keeps.pure hs
    · exact fun _ _ _ hs => hs
    · exact fun _ _ hs => hs

end Job

end WorkflowScheduler
