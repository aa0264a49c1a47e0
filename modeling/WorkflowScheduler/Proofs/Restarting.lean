import WorkflowScheduler.Master.Startup
import WorkflowScheduler.Proofs.FailOver
import WorkflowScheduler.Proofs.Registrar

/-!
# What a new master finds to do

A queue is lost with its master, and the next one fills its own from the store: by all rows that are
in `INIT`, and by no others. What was queued before was queued in `INIT`, or in `RUNNING` after its
executor had been lost. So what had never been handed out is queued again by the next master, and
what had been handed out is not.

## Main definitions

* `Site.SameWork`: two sites with the same work ahead
* `Site.Unserved`: what may happen to a site while no master serves it
* `Store.IsFreeFor`: the master record does not stand in the way of an address

## Main results

* `Registrar.register_unserved`: an address is claimed if the record does not stand in its way
* `Master.startUp_unserved`: a master that starts has queued what waits
* `System.requeued_iff_init`: what is queued again of what was queued before
-/

namespace WorkflowScheduler

/-! ## While no master serves -/

/-- **Two sites with the same work ahead**: the same is queued, and the same rows wait. -/
structure Site.SameWork (s t : Site) : Prop where
  queue : t.queue = s.queue
  waiting : t.store.executionsInStatus .init = s.store.executionsInStatus .init

/-- **What may happen to a site while no master serves it**: its work stays, and nobody else claims
the master record. -/
structure Site.Unserved (s t : Site) : Prop extends s.SameWork t where
  master : t.store.master = s.store.master

/-- The master record does not stand in the way of an address. -/
def Store.IsFreeFor (s : Store) (host : String) (port : UInt16) : Prop :=
  ∀ m, s.master = some m → m.isAt host port = true

namespace Site

variable {s t u : Site}

theorem SameWork.trans (h : s.SameWork t) (k : t.SameWork u) : s.SameWork u :=
  ⟨k.queue.trans h.queue, k.waiting.trans h.waiting⟩

theorem SameWork.of_rows (hq : t.queue = s.queue) (hr : t.store.rows = s.store.rows) :
    s.SameWork t :=
  ⟨hq, congrArg (List.filter _) hr⟩

theorem Unserved.refl (s : Site) : s.Unserved s :=
  ⟨⟨rfl, rfl⟩, rfl⟩

theorem Unserved.trans (h : s.Unserved t) (k : t.Unserved u) : s.Unserved u :=
  ⟨h.toSameWork.trans k.toSameWork, k.master.trans h.master⟩

end Site

/-- The terms of a master that starts: no other one serves. -/
def Master.starting : Terms Request.Answer Site Outside where
  answer := Site.answer
  rely := Site.Unserved
  may _ _ _ := True
  rely_trans := Site.Unserved.trans
  rely_self _ := .refl _

/-! ## The registration -/

namespace Registrar

variable {host : String} {port : UInt16} {h : History} {s : Site}

/-- How a claim to an address ends that nobody disturbs: it is granted if the record does not stand
in its way, and the work ahead stays. -/
def Granted (host : String) (port : UInt16) (s : Site)
    (a : Option (Except MasterError MasterRecord)) (t : Site) : Prop :=
  ∃ answer, a = some answer ∧ ((∃ r, answer = .ok r) ↔ s.store.IsFreeFor host port) ∧ s.SameWork t

theorem judge_unserved {m : MasterRecord} (hm : s.store.master = some m) :
    (judge m host port).run.Keeps Master.starting (fun _ => Granted host port s) h s := by
  have hfree : s.store.IsFreeFor host port ↔ m.isAt host port = true := by
    simp [Store.IsFreeFor, hm]
  rw [judge_eq]
  by_cases hat : m.isAt host port = true
  · rw [if_pos hat]
    refine fun t ht => ⟨trivial, fun o u hu => ?_⟩
    have hrows : (t.store.touchMasterRecord o.now host port).2.rows = t.store.rows :=
      (t.store.touchMasterRecord_rows host port).1
    rcases touch_cases o host port t with ⟨r, -, hanswer, -⟩ | ⟨-, hnone⟩
    · refine ⟨.ok r, by rw [Master.starting, hanswer]; rfl, by simp [hfree, hat], ?_⟩
      refine (ht.toSameWork.trans ?_).trans hu.toSameWork
      exact .of_rows rfl hrows
    · -- the record that was read is still stored, so its renewal does not fail
      rw [hnone m (ht.master.trans hm)] at hat
      cases hat
  · rw [if_neg hat]
    exact fun t ht => ⟨_, rfl, by simp [hfree, hat], ht.toSameWork⟩

theorem Granted.of_unserved {t u : Site} {a : Option (Except MasterError MasterRecord)}
    (hst : s.Unserved t) (h : Granted host port t a u) : Granted host port s a u := by
  obtain ⟨answer, ha, hiff, hwork⟩ := h
  refine ⟨answer, ha, ?_, hst.toSameWork.trans hwork⟩
  rw [hiff, Store.IsFreeFor, Store.IsFreeFor, hst.master]

/-- **A registration succeeds exactly if the record does not stand in its way.** -/
theorem register_unserved (host : String) (port : UInt16) (s : Site) :
    (register host port).run.Keeps Master.starting (fun _ => Granted host port s) h s := by
  rw [register_eq]
  refine fun t ht => ⟨trivial, fun o => ?_⟩
  change Interaction.Keeps _ _ (match (Except.ok t.store.master : Except StoreError _) with
    | .ok (some m) => (judge m host port).run
    | .ok none => _
    | .error e => _) _ _
  cases hm : t.store.master with
  | some m => exact (judge_unserved hm).imp fun _ _ _ hu => hu.of_unserved ht
  | none =>
    refine fun u hu => ⟨trivial, fun o' => ?_⟩
    -- there is still no record, so the claim is granted
    have hnone : u.store.master = none := hu.master.trans hm
    have hrows : (u.store.insertMasterRecord o'.now host port).2.rows = u.store.rows :=
      (u.store.insertMasterRecord_rows host port).1
    have hanswer : (u.answer o' (.store (.insertMasterRecord host port))).1 =
        .ok (.inserted ⟨host, port, o'.now, o'.now⟩) := by
      simp only [Site.answer, Store.answer, Store.insertMasterRecord, hnone]
      rfl
    simp only [Master.starting, hanswer]
    refine fun v hv => .of_unserved ht ⟨_, rfl, by simp [Store.IsFreeFor, hm], ?_⟩
    refine (hu.toSameWork.trans ?_).trans hv.toSameWork
    exact .of_rows rfl hrows

end Registrar

/-! ## The startup -/

/-- Executions have been appended to a queue that has a consumer. -/
structure Site.Appended (s : Site) (es : List Execution) (t : Site) : Prop where
  hasConsumer : t.queue.hasConsumer = true
  waiting : t.queue.waiting = s.queue.waiting ++ es

namespace Master

open Operation

variable {h : History} {s : Site}

theorem pushEach_unserved (hc : s.queue.hasConsumer = true) (es : List Execution) :
    (pushEach es).run.Keeps starting (fun _ r t => ∃ a, r = some (.ok a) ∧ s.Appended es t) h
      s := by
  induction es generalizing h s with
  | nil =>
    refine fun t ht => ⟨(), rfl, ?_, ?_⟩
    · rw [ht.queue, hc]
    · rw [ht.queue, List.append_nil]
  | cons e es ih =>
    refine fun t ht => ⟨trivial, fun o => ?_⟩
    rw [← ht.queue] at hc
    have hqueue := Site.answer_queue (o := o) (r := .push e) hc
    refine (ih hqueue.2).imp ?_
    rintro k r u ⟨a, hr, hu⟩
    refine ⟨a, hr, hu.hasConsumer, ?_⟩
    rw [hu.waiting]
    show (t.answer o (.push e)).2.queue.waiting ++ es = _
    rw [hqueue.1, ht.queue, List.append_assoc]
    rfl

/-- **A recovery queues the rows that wait, and no others.** -/
theorem recoverPending_unserved (hc : s.queue.hasConsumer = true) :
    recoverPending.run.Keeps starting (fun _ r t => ∃ n, r = some (.ok n) ∧
      n = (s.store.executionsInStatus .init).length ∧
      s.Appended (s.store.executionsInStatus .init) t) h s := by
  have hread : (Operation.store (.executionsInStatus .init)).run.Keeps starting (fun _ r t =>
      ∃ rows, r = some (.ok rows) ∧ rows = s.store.executionsInStatus .init ∧
        t.queue = s.queue) h s := by
    rw [store_run]
    exact fun t ht => ⟨trivial, fun o u hu => ⟨_, rfl, ht.waiting, hu.queue.trans ht.queue⟩⟩
  apply keeps_andThen hread
  intro rows k t ht
  obtain ⟨rfl, hqueue⟩ := ht t (.refl t)
  apply keeps_andThen (pushEach_unserved (by rw [hqueue, hc]) _)
  intro _ l u hu v hv
  refine ⟨_, rfl, rfl, (hu v hv).hasConsumer, ?_⟩
  rw [(hu v hv).waiting, hqueue]

/-- **Schedules are always installed**, and leave the queue as it is. -/
theorem installEach_unserved (cs : List Schedule) :
    (installEach cs).run.Keeps starting (fun _ r t => ∃ n, r = some (.ok n) ∧ t.queue = s.queue) h
      s := by
  induction cs generalizing h s with
  | nil => exact fun t ht => ⟨0, rfl, ht.queue⟩
  | cons c cs ih =>
    unfold installEach
    split
    · exact ih
    · refine fun t ht => ⟨trivial, fun o u hu => ⟨trivial, fun o' => ?_⟩⟩
      apply keeps_andThen ih
      intro n k v hv w hw
      refine ⟨n + 1, rfl, ?_⟩
      rw [hv w hw]
      exact hu.queue.trans ht.queue

theorem restore_unserved :
    restore.run.Keeps starting (fun _ r t => ∃ n, r = some (.ok n) ∧ t.queue = s.queue) h s := by
  refine fun t ht => ⟨trivial, fun o => ?_⟩
  refine (installEach_unserved t.store.onlineSchedules).imp ?_
  rintro k r u ⟨n, hr, hu⟩
  exact ⟨n, hr, Eq.trans hu ht.queue⟩

/-- **How a master starts.** It does so if the master record does not stand in its way, and then it
has queued the rows that wait, and no others. -/
theorem startUp_unserved (host : String) (port : UInt16) (hc : s.queue.hasConsumer = true) :
    (startUp host port).run.Keeps starting (fun _ r t => ∃ answer, r = some answer ∧
      ((∃ n, answer = .ok n) ↔ s.store.IsFreeFor host port) ∧
      ∀ n, answer = .ok n → n.1 = (s.store.executionsInStatus .init).length ∧
        t.queue.waiting = s.queue.waiting ++ s.store.executionsInStatus .init) h s := by
  refine keeps_bind (Registrar.register_unserved host port s) ?_ ?_ ?_
  · -- the claim is granted: what follows does not fail
    intro m k t ht
    obtain ⟨answer, hm, hfree, hwork⟩ := ht t (.refl t)
    have hfree := hfree.mp ⟨m, (Option.some.inj hm).symm⟩
    apply keeps_andThen (recoverPending_unserved (by rw [hwork.queue, hc]))
    intro n l u hu
    obtain ⟨rfl, happended⟩ := hu u (.refl u)
    apply keeps_andThen restore_unserved
    intro i j v hv w hw
    refine ⟨_, rfl, iff_of_true ⟨_, rfl⟩ hfree, ?_⟩
    rintro _ ⟨⟩
    refine ⟨by rw [hwork.waiting], ?_⟩
    rw [hv w hw, happended.waiting, hwork.queue, hwork.waiting]
  · rintro e k t ⟨answer, he, hfree, -⟩
    obtain rfl := Option.some.inj he
    refine ⟨_, rfl, ?_, by rintro n ⟨⟩⟩
    rw [← hfree]
    simp
  · rintro k t ⟨answer, hr, -⟩
    cases hr

end Master

/-! ## Runs -/

namespace System

/-- **What is queued again of what was queued before.** A copy that is queued, and whose row still
has its status, is in `INIT` or in `RUNNING`. The next master starts if the master record does not
stand in its way, and then has the execution in its queue exactly if the copy is in `INIT`. -/
theorem requeued_iff_init {limits : DispatchLimits} {store : Store} {ms : List Move}
    {c f : Execution} (hc : c ∈ (after limits ms (start store)).site.queue.waiting)
    (hf : (after limits ms (start store)).site.store.execution? c.id = some f)
    (hstatus : f.status = c.status) {host : String} {port : UInt16}
    {turns : List (Turn Request.Answer Site)} {r : Option (Except MasterError (Nat × Nat))}
    {t : Site} (hr : (Master.startUp host port).run.Ran Site.answer Site.Unserved
      (after limits ms (start store)).restarted.site turns r t) :
    (c.status = .init ∨ c.status = .running) ∧ ∃ answer, r = some answer ∧
      ((∃ n, answer = .ok n) ↔ (after limits ms (start store)).site.store.IsFreeFor host port) ∧
      ∀ n, answer = .ok n → (t.Queued c.id ↔ c.status = .init) := by
  have hv := valid_after limits store ms
  refine ⟨(hv.site.backs c hc).1, ?_⟩
  obtain ⟨answer, hanswer, hfree, hqueue⟩ :=
    (Master.startUp_unserved (h := []) host port rfl).ran (fun _ _ hst => hst) hr
  refine ⟨answer, hanswer, hfree, fun n hn => ?_⟩
  obtain ⟨-, hwaiting⟩ := hqueue n hn
  rw [← hstatus]
  constructor
  · rintro ⟨d, hd, hid⟩
    -- what is queued now is a row that waits, and the copy has no other row
    rw [hwaiting] at hd
    obtain ⟨hrow, hinit⟩ := List.mem_filter.mp hd
    have hdf := hv.site.store.execution?_of_mem hrow
    rw [hid, hf] at hdf
    rw [Option.some.inj hdf]
    simpa using hinit
  · intro hinit
    refine ⟨f, ?_, Store.execution?_id hf⟩
    rw [hwaiting]
    exact List.mem_filter.mpr ⟨Store.execution?_mem hf, decide_eq_true hinit⟩

set_option maxRecDepth 100000 in
/-- A master starts on what is left after an executor has been lost that had reported. -/
theorem startUp_lostReported : ∃ turns,
    (Master.startUp "m" 7000).run.Ran Site.answer Site.Unserved
      (after ⟨1, 0⟩ lostReported (start .oneFlow)).restarted.site turns (some (.ok (1, 0)))
      ((Master.startUp "m" 7000).run.run (Site.answer .answering)
        (after ⟨1, 0⟩ lostReported (start .oneFlow)).restarted.site).2 := by
  have hok : ((Master.startUp "m" 7000).run.run (Site.answer .answering)
      (after ⟨1, 0⟩ lostReported (start .oneFlow)).restarted.site).1 = some (.ok (1, 0)) := by
    decide +kernel
  rw [← hok]
  exact Interaction.ran_run Site.Unserved.refl Outside.answering _ _

set_option maxRecDepth 100000 in
/-- Of the two executions that were queued the one is queued again that had never been handed out.
-/
theorem requeued_iff_init_lostReported :
    (∃ c ∈ (after ⟨1, 0⟩ lostReported (start .oneFlow)).site.queue.waiting,
      c.id = 2 ∧ c.status = .init) ∧
    ∃ turns t, (Master.startUp "m" 7000).run.Ran Site.answer Site.Unserved
        (after ⟨1, 0⟩ lostReported (start .oneFlow)).restarted.site turns (some (.ok (1, 0))) t ∧
      t.Queued 2 := by
  obtain ⟨turns, hran⟩ := startUp_lostReported
  obtain ⟨c, f, hc, hf, hid, hinit, hstatus⟩ : ∃ c f,
      c ∈ (after ⟨1, 0⟩ lostReported (start .oneFlow)).site.queue.waiting ∧
        (after ⟨1, 0⟩ lostReported (start .oneFlow)).site.store.execution? c.id = some f ∧
        c.id = 2 ∧ c.status = .init ∧ f.status = c.status :=
    ⟨_, _, List.mem_of_getElem? (i := 0) rfl, rfl, rfl, rfl, rfl⟩
  obtain ⟨-, answer, hanswer, -, hiff⟩ := requeued_iff_init hc hf hstatus hran
  refine ⟨⟨c, hc, hid, hinit⟩, turns, _, hran, ?_⟩
  rw [← hid]
  exact (hiff _ (Option.some.inj hanswer).symm).mpr hinit

set_option maxRecDepth 100000 in
/-- **A copy that was queued in `RUNNING` is not queued again**: the execution of a lost executor is
in the queue of no master after a restart. -/
theorem running_not_requeued :
    ¬ ∀ (limits : DispatchLimits) (store : Store) (ms : List Move) (c f : Execution),
      (after limits ms (start store)).dispatch = none →
      c ∈ (after limits ms (start store)).site.queue.waiting →
      (after limits ms (start store)).site.store.execution? c.id = some f → f.status = c.status →
      ∀ (host : String) (port : UInt16) (turns : List (Turn Request.Answer Site)) (n : Nat × Nat)
        (t : Site), (Master.startUp host port).run.Ran Site.answer Site.Unserved
          (after limits ms (start store)).restarted.site turns (some (.ok n)) t →
        t.Queued c.id := by
  intro hall
  obtain ⟨turns, hran⟩ := startUp_lostReported
  obtain ⟨c, f, hc, hf, hid, hstatus⟩ : ∃ c f,
      c ∈ (after ⟨1, 0⟩ lostReported (start .oneFlow)).site.queue.waiting ∧
        (after ⟨1, 0⟩ lostReported (start .oneFlow)).site.store.execution? c.id = some f ∧
        c.id = 1 ∧ f.status = c.status :=
    ⟨_, _, List.mem_of_getElem? (i := 1) rfl, rfl, rfl, rfl⟩
  obtain ⟨d, hd, hdid⟩ := hall _ _ _ c f rfl hc hf hstatus _ _ _ _ _ hran
  have hqueue : ∀ d ∈ ((Master.startUp "m" 7000).run.run (Site.answer .answering)
      (after ⟨1, 0⟩ lostReported (start .oneFlow)).restarted.site).2.queue.waiting, d.id ≠ 1 := by
    decide +kernel
  exact hqueue d hd (hdid.trans hid)

end System

end WorkflowScheduler
