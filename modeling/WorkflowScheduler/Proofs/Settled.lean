import WorkflowScheduler.Proofs.System

/-!
# Rows that stay with their worker

A row that has left `INIT` is handed out again only if a copy of it in `RUNNING` is taken from the
queue, and such a copy comes into the queue only when the worker is given up after it has reported
the execution. So a row stays with its worker, and no dispatch that begins later hands it out, if
there is no such copy and none comes about.

## Main definitions

* `IsLoss`, `Event.Loses`: the worker of an execution that it has reported is given up
* `Event.handsOut`: a dispatch submits an execution or asks to change its row
* `System.NoRunningCopy`: no copy in `RUNNING` is around, and none will come of what has happened
* `System.Settled`: a row is finished, or it runs and has no such copy
* `System.IsFinal`: a row keeps its worker and is not handed out any more

## Main results

* `System.Step.settled`: a settled row stays settled
* `System.Settled.isFinal`: a settled row is not handed out any more
-/

namespace WorkflowScheduler

/-- **The loss of a worker**: an executor is given up that is the worker and has reported the
execution. -/
def IsLoss (id : Int) (w : Option String) (x : Exchange Request.Answer) : Prop :=
  ∃ (a : Address) (entry : Executor),
    x = ⟨.evict a, some entry⟩ ∧ w = some a.display ∧ id ∈ entry.execIds

/-- A step by which a dispatch gives up the worker of an execution. -/
def Event.Loses (id : Int) (w : Option String) : Event → Prop
  | .dispatchAsked _ x => IsLoss id w x
  | _ => False

/-- A step by which a dispatch submits an execution or asks to change its row. -/
def Event.handsOut (id : Int) : Event → Bool
  | .dispatchAsked _ ⟨.call (.submit _ _ j _), _⟩ => j = id
  | .dispatchAsked _ ⟨.store (.transition j _ _), _⟩ => j = id
  | _ => false

namespace System

/-- **No copy of a row in `RUNNING` is around**: none is queued or in hand, and the dispatch that
goes on has not given up the worker as one that holds the execution. -/
structure NoRunningCopy (s : System) (id : Int) (w : Option String) : Prop where
  queue : ∀ c ∈ s.site.queue.waiting, c.id = id → c.status = .init
  copy : ∀ d, s.dispatch = some d → d.copy.id = id → d.copy.status = .init
  asked : ∀ d, s.dispatch = some d → ∀ x ∈ d.asked, ¬ IsLoss id w x

/-- **A settled row** has left `INIT`, and it is finished or has no copy in `RUNNING` around while
nothing that is seen is the loss of its worker. -/
def Settled (s : System) (id : Int) (w : Option String) (A : Event → Prop) : Prop :=
  ∃ e, s.site.store.execution? id = some e ∧ e.status ≠ .init ∧ e.worker = w ∧
    (e.status.isFinished = true ∨ s.NoRunningCopy id w ∧ ∀ ev, A ev → ¬ ev.Loses id w)

/-- **A row is final** as long as what is seen is as assumed: it keeps its worker, and no dispatch
that begins later hands it out. -/
def IsFinal (limits : DispatchLimits) (s : System) (id : Int) (w : Option String)
    (A : Event → Prop) : Prop :=
  ∀ ms later, (∀ e ∈ trace limits (ms ++ later) s, A e) →
    (∃ e, (after limits ms s).site.store.execution? id = some e ∧ e.worker = w) ∧
      ((after limits ms s).dispatch = none →
        ∀ e ∈ trace limits later (after limits ms s), ¬ e.handsOut id)

variable {limits : DispatchLimits} {s t : System} {id : Int} {w : Option String}
  {A : Event → Prop} {ev : Event}

/-- A row that no change of status asks for stays as it is. -/
theorem execution?_of_answer {u v : Site} {o : Outside} {x : Exchange Request.Answer}
    {e : Execution} (hx : u.answer o x.1 = (x.2, v)) (he : u.store.execution? id = some e)
    (hn : ∀ expected p, x.1 = .store (.transition id expected p) → e.status ≠ expected) :
    v.store.execution? id = some e := by
  have := Site.execution?_answer (o := o) (r := x.1) he
  rw [hx] at this
  rw [this]
  obtain ⟨r, a⟩ := x
  cases r with
  | store q =>
    cases q with
    | transition j expected p =>
      have : ¬ (e.id = j ∧ e.status = expected) := by
        rintro ⟨rfl, hs⟩
        exact hn expected p (by rw [Store.execution?_id he]) hs
      simp [Request.rowAfter, StoreRequest.rowAfter, this]
    | _ => rfl
  | _ => rfl

theorem execution?_of_served {u v : Site} {o : Outside} {x : Exchange Request.Answer}
    {e : Execution} (hx : u.answer o x.1 = (x.2, v)) (he : u.store.execution? id = some e)
    (hi : e.status ≠ .init) (hserved : x.1.Served u) : v.store.execution? id = some e := by
  refine execution?_of_answer hx he fun expected p hp => ?_
  rw [hp] at hserved
  rw [hserved.1]
  exact hi

theorem NoRunningCopy.of_idle (hq : ∀ c ∈ s.site.queue.waiting, c.id = id → c.status = .init)
    (hd : s.dispatch = none) : s.NoRunningCopy id w :=
  ⟨hq, by simp [hd], by simp [hd]⟩

theorem NoRunningCopy.congr (hs : s.NoRunningCopy id w)
    (hq : t.site.queue.waiting = s.site.queue.waiting) (hd : t.dispatch = s.dispatch) :
    t.NoRunningCopy id w where
  queue := by rw [hq]; exact hs.queue
  copy := by rw [hd]; exact hs.copy
  asked := by rw [hd]; exact hs.asked

/-- What an operation asks brings about no copy in `RUNNING`. -/
theorem NoRunningCopy.serve {u : Site} {o : Outside} {x : Exchange Request.Answer}
    (hs : s.NoRunningCopy id w) (hv : s.Valid) (hx : s.site.answer o x.1 = (x.2, u))
    (hserved : x.1.Served s.site) : { s with site := u }.NoRunningCopy id w where
  queue c hc hid := by
    rw [Site.waiting_of_answer hv.site hx, List.mem_append] at hc
    rcases hc with hc | hc
    · exact hs.queue c hc hid
    · -- operations queue rows in `INIT` only
      obtain ⟨r, a⟩ := x
      cases r with
      | push d => exact List.mem_singleton.mp hc ▸ hserved.1
      | _ => simp [Request.pushed] at hc
  copy := hs.copy
  asked := hs.asked

theorem worker_of_isOrphanOf {c : Execution} {executor : String} (h : c.isOrphanOf executor = true)
    (hi : c.status ≠ .init) : c.worker = some executor := by
  simp only [Execution.isOrphanOf, Bool.and_eq_true] at h
  cases hw : c.worker with
  | none => simp [hw, hi] at h
  | some v => simpa [hw] using h.2

/-- **A dispatch brings about no copy in `RUNNING`** unless it has given up the worker. -/
theorem NoRunningCopy.dispatch {u : Site} {o : Outside} {x : Exchange Request.Answer}
    {d : Dispatching} {rest : Program DispatchOutcome} {e : Execution}
    (hs : s.NoRunningCopy id w) (hv : s.Valid) (hd : s.dispatch = some d)
    (he : s.site.store.execution? id = some e) (hw : e.worker = w)
    (hx : s.site.answer o x.1 = (x.2, u)) (hmay : x.1.Dispatches d.copy d.asked s.site)
    (hloss : ¬ IsLoss id w x) :
    { s with site := u, dispatch := some ⟨d.copy, d.asked ++ [x], rest⟩ }.NoRunningCopy id w where
  queue c hc hid := by
    rw [Site.waiting_of_answer hv.site hx, List.mem_append] at hc
    rcases hc with hc | hc
    · exact hs.queue c hc hid
    · obtain ⟨r, a⟩ := x
      cases r with
      | push b =>
        obtain rfl := List.mem_singleton.mp hc
        rcases hmay with rfl | ⟨-, -, a, entry, hevict, hin, horphan, f, hf, -, hfw⟩
        · exact hs.copy d hd hid
        · -- an orphan in `RUNNING` names the executor that was given up, which then is the worker
          refine Decidable.byContradiction fun hi => ?_
          rw [hid] at hf hin
          obtain rfl : e = f := Option.some.inj (he.symm.trans hf)
          refine hs.asked d hd _ hevict ⟨a, entry, rfl, ?_, hin⟩
          rw [← hw, hfw, worker_of_isOrphanOf horphan hi]
      | _ => simp [Request.pushed] at hc
  copy c hc hid := by
    cases hc
    exact hs.copy d hd hid
  asked c hc y hy := by
    cases hc
    rcases List.mem_append.mp hy with hy | hy
    · exact hs.asked d hd y hy
    · exact List.mem_singleton.mp hy ▸ hloss

theorem NoRunningCopy.take {c : Execution} {queue : Queue} (hs : s.NoRunningCopy id w)
    (hc : s.site.queue.receive = (some c, queue)) :
    { s with site := { s.site with queue := queue },
             dispatch := some (.start limits c) }.NoRunningCopy id w where
  queue b hb hid := by
    refine hs.queue b ?_ hid
    rw [(receive_eq_some hc).1]
    exact List.mem_cons_of_mem _ hb
  copy d hd hid := by
    cases hd
    exact hs.queue c (by rw [(receive_eq_some hc).1]; exact List.mem_cons_self) hid
  asked d hd x hx := by
    cases hd
    simp [Dispatching.start] at hx

/-- **A settled row stays settled.** -/
theorem Step.settled (h : Step limits s ev t) (hv : s.Valid) (hs : s.Settled id w A) (ha : A ev) :
    t.Settled id w A := by
  obtain ⟨e, he, hi, hw, hfin | ⟨hnone, hloss⟩⟩ := hs
  · -- a finished row does not change at all
    obtain ⟨f, hf, hef⟩ := (h.valid hv).2.leadsTo id e he
    rw [hef.eq_of_finished hfin] at hf
    exact ⟨e, hf, hi, hw, .inl hfin⟩
  cases h with
  | begin job hr => exact ⟨e, he, hi, hw, .inr ⟨hnone.congr rfl rfl, hloss⟩⟩
  | @ask i k x rest site o hk hx =>
    obtain ⟨-, hserved, hanswer, -⟩ := (hv.threads k (List.mem_of_getElem? hk)).advance hv.site hx
    exact ⟨e, execution?_of_served hanswer he hi hserved, hi, hw,
      .inr ⟨(hnone.serve hv hanswer hserved).congr rfl rfl, hloss⟩⟩
  | finishJob o hk hr => exact ⟨e, he, hi, hw, .inr ⟨hnone.congr rfl rfl, hloss⟩⟩
  | take hr hd hc => exact ⟨e, he, hi, hw, .inr ⟨hnone.take hc, hloss⟩⟩
  | @dispatch d x rest site o hd hx =>
    obtain ⟨hmay, hanswer, -⟩ := (hv.dispatch d hd).advance hv.site hx
    -- a dispatch of the row has a copy in `INIT`, and from `INIT` the row does not change
    refine ⟨e, execution?_of_answer hanswer he fun expected p hp => ?_, hi, hw,
      .inr ⟨hnone.dispatch hv hd he hw hanswer hmay (hloss _ ha), hloss⟩⟩
    rw [hp] at hmay
    rw [hmay.2.1, hnone.copy d hd hmay.1.symm]
    exact hi
  | finishDispatch o hd hr => exact ⟨e, he, hi, hw, .inr ⟨.of_idle hnone.queue rfl, hloss⟩⟩
  | @finish j c status now hc hr hst =>
    have hrow := Store.execution?_setStatus now hc hst id
    rw [he] at hrow
    by_cases hj : id = j
    · -- the worker records the end: the row is finished from now on
      refine ⟨_, hrow, ?_⟩
      have hne : status ≠ .init := by rintro rfl; simp [Status.isFinished] at hst
      simp [hj, Store.applyUpdate, StatusUpdate.toStatus, hst, hne, hw]
    · rw [Option.map_some, if_neg hj] at hrow
      exact ⟨e, hrow, hi, hw, .inr ⟨hnone.congr rfl rfl, hloss⟩⟩
  | restart =>
    exact ⟨e, he, hi, hw, .inr ⟨.of_idle (by simp [restarted, Queue.empty]) rfl, hloss⟩⟩
  | @recover k x rest site o hk hx =>
    obtain ⟨-, hserved, hanswer, -⟩ := (hv.recovery k hk).1.advance hv.site hx
    exact ⟨e, execution?_of_served hanswer he hi hserved, hi, hw,
      .inr ⟨(hnone.serve hv hanswer hserved).congr rfl rfl, hloss⟩⟩
  | finishRecovery o hk hr => exact ⟨e, he, hi, hw, .inr ⟨hnone.congr rfl rfl, hloss⟩⟩

/-! ## Dispatches that begin later -/

/-- The dispatch that goes on has not seen the row in the status of its copy. -/
def Unchecked (s : System) (id : Int) : Prop :=
  ∀ d, s.dispatch = some d → d.copy.id = id → ¬ Dispatch.Checked d.copy d.asked

/-- **A dispatch that begins when a row is settled does not hand it out.** -/
theorem Step.unchecked (h : Step limits s ev t) (hv : s.Valid) (hs : s.Settled id w A)
    (hu : s.Unchecked id) : t.Unchecked id ∧ ¬ ev.handsOut id := by
  cases h with
  | @dispatch d x rest site o hd hx =>
    obtain ⟨hmay, hanswer, -⟩ := (hv.dispatch d hd).advance hv.site hx
    obtain ⟨e, he, hi, hw, hstate⟩ := hs
    refine ⟨fun c hc hid => ?_, ?_⟩
    · cases hc
      rintro ⟨row, hrow, hstatus⟩
      rcases List.mem_append.mp hrow with hrow | hrow
      · exact hu d hd hid ⟨row, hrow, hstatus⟩
      · -- the row is being read: its copy is in a status that the row has left
        rw [← List.mem_singleton.mp hrow] at hanswer
        have hread : s.site.store.execution? d.copy.id = some row :=
          Except.ok.inj (congrArg Prod.fst hanswer)
        obtain rfl : e = row := Option.some.inj (he.symm.trans (hid ▸ hread))
        rcases hstate with hfin | ⟨hnone, -⟩
        · rw [hstatus, (hv.dispatch d hd).backs.1.isFinished] at hfin
          cases hfin
        · exact hi (hstatus.trans (hnone.copy d hd hid))
    · obtain ⟨r, a⟩ := x
      cases r with
      | call c =>
        cases c with
        | submit b p j k =>
          intro hj
          obtain rfl : j = id := of_decide_eq_true hj
          exact hu d hd hmay.1.symm hmay.2
        | _ => exact Bool.false_ne_true
      | store q =>
        cases q with
        | transition j expected p =>
          intro hj
          obtain rfl : j = id := of_decide_eq_true hj
          exact hu d hd hmay.1.symm hmay.2.2.1
        | _ => exact Bool.false_ne_true
      | _ => exact Bool.false_ne_true
  | take hr hd hc =>
    refine ⟨fun d hd _ => ?_, Bool.false_ne_true⟩
    cases hd
    rintro ⟨row, hrow, -⟩
    simp [Dispatching.start] at hrow
  | finishDispatch o hd hr => exact ⟨by simp [Unchecked], Bool.false_ne_true⟩
  | restart => exact ⟨by simp [Unchecked, restarted], Bool.false_ne_true⟩
  | _ => exact ⟨hu, Bool.false_ne_true⟩

/-- **A settled row is not handed out any more.** -/
theorem Settled.isFinal (hs : s.Settled id w A) (hv : s.Valid) : IsFinal limits s id w A := by
  intro ms later ha
  -- the row stays settled during `ms`; nothing is in hand then, so nothing has been seen of it
  rw [trace_append, List.forall_mem_append] at ha
  have hms := run_induction limits (P := fun t => t.Valid ∧ t.Settled id w A) (R := fun _ => True)
    (fun ht h ha => ⟨⟨(h.valid ht.1).1, h.settled ht.1 ht.2 ha⟩, trivial⟩) ms ⟨hv, hs⟩ ha.1
  obtain ⟨⟨hv, hs⟩, -⟩ := hms
  refine ⟨?_, fun hidle => ?_⟩
  · obtain ⟨e, he, -, hw, -⟩ := hs
    exact ⟨e, he, hw⟩
  · have hlater := run_induction limits
      (P := fun t => t.Valid ∧ t.Settled id w A ∧ t.Unchecked id)
      (R := fun ev => ¬ ev.handsOut id)
      (fun ht h ha => ⟨⟨(h.valid ht.1).1, h.settled ht.1 ht.2.1 ha,
        (h.unchecked ht.1 ht.2.1 ht.2.2).1⟩, (h.unchecked ht.1 ht.2.1 ht.2.2).2⟩)
      later ⟨hv, hs, by simp [Unchecked, hidle]⟩ ha.2
    exact hlater.2

end System

end WorkflowScheduler
