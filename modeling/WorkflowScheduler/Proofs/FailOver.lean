import WorkflowScheduler.Proofs.System

/-!
# What is queued when an executor is lost

A dispatch that loses its executor queues its own copy again, and what the executor had reported
last as far as its rows still name it. Beside it nobody gives a row a worker, takes anything out of
the queue or removes an executor. So when the dispatch ends, every unfinished row that names the
executor is queued in its status, if the executor had reported it or it is the row of the copy at
hand. What the executor had accepted since its last report is not known to the master, and stays
where it is.

## Main definitions

* `Site.Attended`: what others may do to a site beside a dispatch
* `Site.Requeues`: an execution is queued if its row still names a worker
* `Dispatch.attended`, `Dispatch.Recovers`: the terms of a dispatch, and what it has recovered
* `System.Attending`: the invariant of a step

## Main results

* `Dispatch.failOver_recovers`: a lost executor is given up, and what it had reported is queued
* `System.Step.attending`: a step keeps a dispatch attended
* `System.exists_asked`: what a dispatch has asked is seen since its copy was taken
* `System.failed_over`: what is queued when a dispatch has lost its executor
-/

namespace WorkflowScheduler

/-! ## Beside a dispatch -/

/-- **What others may do to a site beside a dispatch**: they act calmly, rows that name a worker
have named it before, and executors stay. -/
structure Site.Attended (s t : Site) : Prop where
  calm : s.Calm t
  held : ∀ id f, t.store.execution? id = some f → f.worker.isSome →
    ∃ e, s.store.execution? id = some e ∧ e.LeadsTo f ∧ f.worker = e.worker
  registered : ∀ a, s.registry.Has a → t.registry.Has a

/-- **An execution is queued as running if its row is unfinished and still names a worker.** -/
def Site.Requeues (s : Site) (w : String) (id : Int) : Prop :=
  ∀ f, s.store.execution? id = some f → f.status.isFinished = false → f.worker = some w →
    ∃ d ∈ s.queue.waiting, d.id = id ∧ d.status = .running

namespace Site

variable {s t u : Site} {w : String} {id : Int}

theorem Attended.refl (h : s.Sound) : s.Attended s :=
  ⟨.refl h, fun _ f hf _ => ⟨f, hf, .refl f, rfl⟩, fun _ ha => ha⟩

theorem Attended.trans (h : s.Attended t) (k : t.Attended u) : s.Attended u where
  calm := h.calm.trans k.calm
  held id g hg hw := by
    obtain ⟨f, hf, hfg, hwf⟩ := k.held id g hg hw
    obtain ⟨e, he, hef, hwe⟩ := h.held id f hf (hwf ▸ hw)
    exact ⟨e, he, hef.trans hfg, hwf.trans hwe⟩
  registered a ha := k.registered a (h.registered a ha)

/-- An unfinished row that names a worker runs. -/
theorem status_of_held {f : Execution} (hs : s.Sound) (hf : s.store.execution? id = some f)
    (hfin : f.status.isFinished = false) (hw : f.worker = some w) : f.status = .running := by
  have hcycle := hs.store.lifecycle f (Store.execution?_mem hf)
  rcases hcycle.status_cases with hi | hr | hd
  · rw [(hcycle.of_init hi).1] at hw
    cases hw
  · exact hr
  · rw [hfin] at hd
    cases hd

/-- **A row that is unfinished and names a worker has been so before.** -/
theorem Attended.before (h : s.Attended t) {f : Execution} (hf : t.store.execution? id = some f)
    (hfin : f.status.isFinished = false) (hw : f.worker = some w) :
    ∃ e, s.store.execution? id = some e ∧ e.LeadsTo f ∧ e.status.isFinished = false ∧
      e.worker = some w := by
  obtain ⟨e, he, hef, hwe⟩ := h.held id f hf (by rw [hw]; rfl)
  refine ⟨e, he, hef, ?_, hwe ▸ hw⟩
  -- a row that was finished would not have changed
  by_contra hd
  have hd : e.status.isFinished = true := by simpa using hd
  rw [← hef.eq_of_finished hd, hfin] at hd
  cases hd

theorem Requeues.attended (h : s.Requeues w id) (hst : s.Attended t) : t.Requeues w id := by
  intro f hf hfin hw
  obtain ⟨e, he, -, hefin, hew⟩ := hst.before hf hfin hw
  obtain ⟨d, hd, hid, hstatus⟩ := h e he hefin hew
  exact ⟨d, hst.calm.waiting d hd, hid, hstatus⟩

/-- A request that leaves the store as it is leaves queued what is queued. -/
theorem Requeues.answer (h : s.Requeues w id) (hc : s.queue.hasConsumer = true) {r : Request}
    {o : Outside} (hstore : (s.answer o r).2.store = s.store) :
    (s.answer o r).2.Requeues w id := by
  intro f hf hfin hw
  rw [hstore] at hf
  obtain ⟨d, hd, hid, hstatus⟩ := h f hf hfin hw
  refine ⟨d, ?_, hid, hstatus⟩
  rw [(answer_queue hc).1]
  exact List.mem_append_left _ hd

/-- What is no orphan of a worker needs not be queued for it. -/
theorem requeues_of_not_orphan (h : ∀ e, s.store.execution? id = some e → e.isOrphanOf w ≠ true) :
    s.Requeues w id := by
  intro f hf hfin hw
  refine absurd ?_ (h f hf)
  simp [Execution.isOrphanOf, hfin, hw]

end Site

/-! ## What operations do beside a dispatch -/

namespace Registry

/-- An executor stays when another one comes in or is changed. -/
theorem has_upsert {a b : Address} {change : Executor → Executor} {new : Executor}
    {es : List Executor} (hchange : ∀ e, (change e).address = e.address)
    (h : ∃ x ∈ es, x.address = b) : ∃ x ∈ upsert a change new es, x.address = b := by
  obtain ⟨x, hx, hxb⟩ := h
  induction es with
  | nil => cases hx
  | cons e es ih =>
    unfold upsert
    rcases List.mem_cons.mp hx with rfl | hx
    · split
      · exact ⟨_, List.mem_cons_self, (hchange x).trans hxb⟩
      · split
        · exact ⟨x, List.mem_cons_of_mem _ List.mem_cons_self, hxb⟩
        · exact ⟨x, List.mem_cons_self, hxb⟩
    · split
      · exact ⟨x, List.mem_cons_of_mem _ hx, hxb⟩
      · split
        · exact ⟨x, List.mem_cons_of_mem _ (List.mem_cons_of_mem _ hx), hxb⟩
        · obtain ⟨y, hy, hyb⟩ := ih hx
          exact ⟨y, List.mem_cons_of_mem _ hy, hyb⟩

end Registry

namespace Site

variable {s : Site}

/-- **What operations ask is attended.** -/
theorem answer_attended {r : Request} (hs : s.Sound) (hr : r.Served s) (o : Outside) :
    s.Attended (s.answer o r).2 where
  calm := answer_calm hs hr.fits hr.minor o
  held id f hf hw := by
    cases he : s.store.execution? id with
    | none =>
      -- a row that comes in names no worker
      obtain ⟨n, -, rfl⟩ := execution?_answer_new he hf
      cases hw
    | some e =>
      rw [execution?_answer he] at hf
      obtain rfl := Option.some.inj hf
      exact ⟨e, rfl, rowAfter_leadsTo hr.fits o.now e, rowAfter_worker hr.minor o.now e⟩
  registered a ha := by
    cases r with
    | register b t => exact Registry.has_upsert (fun _ => rfl) ha
    | report b y => exact Registry.has_upsert (fun _ => rfl) ha
    | evict b => exact hr.elim
    | pick =>
      show s.registry.pick.2.Has a
      rw [Registry.Has, Registry.pick_executors]
      exact ha
    | _ => exact ha

end Site

/-! ## The dispatch -/

namespace Dispatch

/-- **The terms of a dispatch that is attended.** -/
def attended : Terms Request.Answer Site Outside where
  answer := Site.answer
  rely := Site.Attended
  may _ _ _ := True
  rely_trans := Site.Attended.trans
  rely_self h := .refl h.calm.sound

/-- **What a dispatch has recovered when it has lost its executor**: the executor was given up, and
its own row, and all that the executor had reported, is queued if the row still names it. -/
def Recovers (c : Execution) (h : History) (o : Option DispatchOutcome) (s : Site) : Prop :=
  ∀ a ids, o = some (.executorLost a ids) → ∃ entry : Executor, ⟨.evict a, some entry⟩ ∈ h ∧
    ∀ id, id = c.id ∨ id ∈ entry.execIds → s.Requeues a.display id

theorem Recovers.of_ne {c : Execution} {h : History} {o : Option DispatchOutcome} {s : Site}
    (ho : ∀ a ids, o ≠ some (.executorLost a ids)) : Recovers c h o s :=
  fun a ids ha => absurd ha (ho a ids)

variable {c : Execution} {h : History} {s : Site}

/-- A copy in `INIT` whose row has been seen to wait: the row names no worker. -/
def Unassigned (c : Execution) (s : Site) : Prop :=
  c.status = .init → ∀ f, s.store.execution? c.id = some f → f.worker = none

theorem Unassigned.attended {t : Site} (h : Unassigned c s) (hst : s.Attended t) :
    Unassigned c t := by
  intro hi f hf
  cases hw : f.worker with
  | none => rfl
  | some w =>
    obtain ⟨e, he, -, hwe⟩ := hst.held c.id f hf (by rw [hw]; rfl)
    rw [h hi e he, hw] at hwe
    cases hwe

theorem stillPending_recovers (s : Site) :
    (stillPending c).Keeps attended (fun _ b t => s.Attended t ∧ ∃ p, b = some p ∧
      (p = true → Unassigned c t)) h s := by
  rw [stillPending_eq]
  intro t ht
  refine ⟨trivial, fun o => ?_⟩
  have hanswer : attended.answer o (.store (.execution c.id)) t =
      (.ok (t.store.execution? c.id), t) := rfl
  rw [hanswer]
  cases hrow : t.store.execution? c.id with
  | none => exact fun u hu => ⟨ht.trans hu, false, rfl, fun hp => by cases hp⟩
  | some row =>
    refine fun u hu => ⟨ht.trans hu, row.status == c.status, rfl, fun hp => ?_⟩
    refine Unassigned.attended (s := t) ?_ hu
    intro hi f hf
    -- the row that has been seen waits, and no worker is named by a row that waits
    rw [hrow] at hf
    obtain rfl := Option.some.inj hf
    have hcycle := ht.calm.sound.store.lifecycle row (Store.execution?_mem hrow)
    exact (hcycle.of_init (by rw [beq_iff_eq.mp hp, hi])).1

/-- What is pushed is queued, if its row is unfinished and names a worker. -/
theorem requeues_push {u : Site} {row : Execution} {w : String} (hu : u.queue.hasConsumer = true)
    (o : Outside) (hrow : ∀ f, u.store.execution? row.id = some f → f.status.isFinished = false →
      f.worker = some w → row.status = .running) :
    (u.answer o (.push row)).2.Requeues w row.id := by
  intro f hf hfin hw
  refine ⟨row, ?_, rfl, hrow f hf hfin hw⟩
  rw [(Site.answer_queue hu).1]
  exact List.mem_append_right _ (List.mem_singleton.mpr rfl)

/-- Meanwhile what has been looked at of the reported ids is queued, beside the copy at hand. -/
theorem resubmits_requeued (c : Execution) (w : String) (k : History) (reported : List Int) :
    Resubmits attended w c.id fun ids h s =>
      k ⊆ h ∧ s.Requeues w c.id ∧ ∀ id ∈ reported, id ∈ ids ∨ s.Requeues w id where
  skip := by
    rintro ids h s ⟨hk, hc, hids⟩
    refine ⟨hk, hc, fun id hid => ?_⟩
    rcases hids id hid with hmem | hqueued
    · rcases List.mem_cons.mp hmem with rfl | hmem
      · exact .inr hc
      · exact .inl hmem
    · exact .inr hqueued
  may _ _ _ := trivial
  pass := by
    rintro id ids h s t o u found - ⟨hk, hc, hids⟩ ht hread hnot
    obtain ⟨rfl, rfl⟩ := Prod.mk.inj hread
    refine ⟨List.Subset.trans hk (List.subset_append_left _ _), hc.attended ht, fun j hj => ?_⟩
    rcases hids j hj with hmem | hqueued
    · refine (List.mem_cons.mp hmem).symm.imp_right ?_
      rintro rfl
      exact Site.requeues_of_not_orphan fun e he =>
        ne_true_of_eq_false (hnot e (congrArg Except.ok he))
    · exact .inr (hqueued.attended ht)
  push := by
    rintro id ids h s t o u v row - ⟨hk, hc, hids⟩ ht hread - hv
    obtain ⟨hrow, rfl⟩ := Prod.mk.inj hread
    replace hrow : t.store.execution? id = some row := Except.ok.inj hrow
    replace hv : t.Attended v := hv
    obtain rfl := Store.execution?_id hrow
    refine ⟨trivial, fun {o' v' sent} hsent => ?_⟩
    obtain rfl : (v.answer o' (.push row)).2 = v' := congrArg Prod.snd hsent
    have hconsumer := hv.calm.sound.hasConsumer
    have hqueues : ∀ {j}, s.Requeues w j → (v.answer o' (.push row)).2.Requeues w j := fun hj =>
      ((hj.attended ht).attended hv).answer hconsumer rfl
    refine ⟨List.Subset.trans hk (List.subset_append_of_subset_left _ (List.subset_append_left _ _)),
      hqueues hc, fun j hj => ?_⟩
    rcases hids j hj with hmem | hqueued
    · refine (List.mem_cons.mp hmem).symm.imp_right ?_
      rintro rfl
      -- a row that names the worker now has named it when it was read
      refine requeues_push hconsumer o' fun f hf hfin hw => ?_
      obtain ⟨e, he, -, hefin, hew⟩ := hv.before hf hfin hw
      rw [hrow] at he
      obtain rfl := Option.some.inj he
      exact Site.status_of_held ht.calm.sound hrow hefin hew
    · exact .inr (hqueues hqueued)

/-- **What a lost executor had reported is queued**, beside the copy at hand. -/
theorem resubmit_recovers {w : String} {ids : List Int} (hc : s.Requeues w c.id) :
    (resubmit w c.id ids).Keeps attended (fun k o t => o.isSome ∧ h ⊆ k ∧
      ∀ id, id = c.id ∨ id ∈ ids → t.Requeues w id) h s := by
  refine (resubmits_requeued c w h ids).keeps ?_ ⟨List.Subset.refl _, hc, fun id hid => .inl hid⟩
  rintro k u t ⟨hk, hc, hids⟩ ht
  refine ⟨hk, ?_⟩
  rintro id (rfl | hid)
  · exact hc.attended ht
  · exact ((hids id hid).resolve_left List.not_mem_nil).attended ht

/-- **A lost executor is given up, and what it had reported is queued.** -/
theorem failOver_recovers (hp : c.status.IsPending) (hun : Unassigned c s) {a : Address}
    (ha : s.registry.Has a) : (failOver c a).Keeps attended (Recovers c) h s := by
  rw [failOver_eq]
  intro t ht
  refine ⟨trivial, fun o => ?_⟩
  -- the copy at hand is queued first: in `RUNNING`, or no worker is named by its row
  have hpush : (t.answer o (.push c)).2.Requeues a.display c.id := by
    refine requeues_push ht.calm.sound.hasConsumer o fun f hf _ hw => hp.resolve_left fun hi => ?_
    rw [hun.attended ht hi f hf] at hw
    cases hw
  -- the executor is still there, so what it had reported last is handed back
  intro u hu
  have hu : (t.answer o (.push c)).2.Attended u := hu
  obtain ⟨entry, hentry, rfl⟩ := (hu.registered a (ht.registered a ha)).get?
  refine ⟨trivial, fun o' => ?_⟩
  have hevict : (u.answer o' (.evict entry.address)).2.Requeues entry.address.display c.id :=
    (hpush.attended hu).answer hu.calm.sound.hasConsumer rfl
  intro v hv
  refine ⟨trivial, fun _ => ?_⟩
  have hanswer : (attended.answer o' (.evict entry.address) u).1 = some entry := hentry
  rw [hanswer]
  refine Interaction.Keeps.bind (resubmit_recovers (hevict.attended hv)) ?_ ?_
  · intro ids k w hw w' hw' b ids' hb
    obtain ⟨-, hk, hids⟩ := hw w' hw'
    cases hb
    exact ⟨entry, hk (by simp), hids⟩
  · rintro k w ⟨hnone, -⟩
    cases hnone

theorem commit_recovers (a : Address) : (commit c a).Keeps attended (Recovers c) h s := by
  rw [commit_eq]
  intro t ht
  refine ⟨trivial, fun o => ?_⟩
  rcases (attended.answer o (.store (.transition c.id c.status (.runningOn a.display))) t).1 with
    f | _ | _
  · exact fun u hu => .of_ne (by simp)
  · exact fun u hu => ⟨trivial, fun o' v hv => .of_ne (by simp)⟩
  · exact fun u hu => .of_ne (by simp)

theorem markFailed_recovers : (markFailed c).Keeps attended (Recovers c) h s := by
  rw [markFailed_eq]
  intro t ht
  refine ⟨trivial, fun o => ?_⟩
  rcases (attended.answer o (.store (.transition c.id c.status (.toStatus .failed))) t).1 with
    f | _ | _ <;> exact fun u hu => .of_ne (by simp)

theorem attempts_recovers (hp : c.status.IsPending) {a : Address} (ha : s.registry.Has a)
    (n : Nat) : (attempts c a n).Keeps attended (Recovers c) h s := by
  induction n generalizing h s with
  | zero => exact markFailed_recovers
  | succ n ih =>
    rw [attempts_succ]
    intro t ht
    refine ⟨trivial, fun o => ?_⟩
    have ha := ht.registered a ha
    have hanswer : attended.answer o (.call (.submit a c.projectId c.id c.flowKind)) t =
        (o.reply, t) := rfl
    rw [hanswer]
    rcases o.reply with (reason | reason) | _
    · refine Interaction.Keeps.bind (stillPending_recovers t) ?_ fun _ _ hu => by simp at hu
      refine fun b k u hu => Interaction.Keeps.of_rely fun v hv => ?_
      obtain ⟨htv, p, hb, hun⟩ := hu v hv
      obtain rfl := Option.some.inj hb
      cases b with
      -- only a copy whose row has been seen in its status is failed over
      | true => exact failOver_recovers hp (hun rfl) (htv.registered a ha)
      | false => exact fun w hw => .of_ne (by simp)
    · exact ih ha
    · exact commit_recovers a

/-- **A dispatch recovers what its executor had reported** if it loses it. -/
theorem run_recovers (limits : DispatchLimits) (hp : c.status.IsPending) :
    (run limits c).Keeps attended (Recovers c) h s := by
  rw [run_eq]
  refine Interaction.Keeps.bind (stillPending_recovers s) ?_ fun _ _ hu => by simp at hu
  refine fun b k u hu => Interaction.Keeps.of_rely fun v hv => ?_
  obtain ⟨-, p, hb, -⟩ := hu v hv
  obtain rfl := Option.some.inj hb
  cases b with
  | false => exact fun w hw => .of_ne (by simp)
  | true =>
    intro t ht
    refine ⟨trivial, fun o => ?_⟩
    have hpicked : (attended.answer o .pick t).1 = t.registry.pick.1 := rfl
    rw [hpicked]
    cases hx : t.registry.pick.1 with
    | none => exact fun u hu => ⟨trivial, fun _ w hw => ⟨trivial, fun _ x hx => .of_ne (by simp)⟩⟩
    | some x =>
      refine attempts_recovers hp ?_ _
      show t.registry.pick.2.Has x.address
      rw [Registry.Has, Registry.pick_executors]
      exact ⟨x, Registry.mem_of_pick hx, rfl⟩

end Dispatch

/-- A dispatch that is attended from here on. -/
def Dispatching.IsAttended (d : Dispatching) (s : Site) : Prop :=
  d.rest.Keeps Dispatch.attended (Dispatch.Recovers d.copy) d.asked s

namespace System

variable {limits : DispatchLimits} {s t : System} {ev : Event}

/-! ## Runs -/

/-- The dispatch of a system is attended. -/
def Attending (s : System) : Prop :=
  ∀ d, s.dispatch = some d → d.IsAttended s.site

/-- The end that an executor records is attended. -/
theorem Valid.finish_attended (hv : s.Valid) {id : Int} {e : Execution} {status : Status}
    (now : Instant) (he : s.site.store.execution? id = some e) (hr : e.status = .running)
    (hst : status.isFinished = true) :
    s.site.Attended { s.site with store := (s.site.store.setStatus now id status).2 } where
  calm := hv.finish now he hr hst
  held j f hf _ := by
    have hcalm := hv.finish now he hr hst
    rw [Store.execution?_setStatus now he hst] at hf
    obtain ⟨d, hd, -⟩ := Option.map_eq_some_iff.mp hf
    obtain ⟨g, hg, hdg, hw⟩ := hcalm.rows j d hd
    rw [Store.execution?_setStatus now he hst, hf] at hg
    obtain rfl := Option.some.inj hg
    exact ⟨d, hd, hdg, hw⟩
  registered _ ha := ha

/-- **A step keeps a dispatch attended.** -/
theorem Step.attending (h : Step limits s ev t) (hv : s.Valid) (ha : s.Attending) :
    t.Attending := by
  intro d hd
  cases h with
  | ask o hk hx =>
    obtain ⟨-, hserved, hanswer, -⟩ := (hv.threads _ (List.mem_of_getElem? hk)).advance hv.site hx
    have hattended := Site.answer_attended hv.site hserved o
    rw [hanswer] at hattended
    exact Interaction.Keeps.rely (ha d hd) hattended
  | take hr hn he =>
    cases hd
    exact Dispatch.run_recovers limits (hv.take he).1.1
  | @dispatch d' x rest site o hn hx =>
    cases hd
    exact (Interaction.Keeps.advance (T := Dispatch.attended) (o := o) (ha d' hn) (.refl hv.site)
      hx).2
  | finishDispatch o hn hr => cases hd
  | finish now he hr hst =>
    exact Interaction.Keeps.rely (ha d hd) (hv.finish_attended now he hr hst)
  | restart => cases hd
  | recover o hk hx =>
    -- a recovery goes on only while there is no dispatch
    rw [(hv.recovery _ hk).2.2.2] at hd
    cases hd
  | _ => exact ha d hd

theorem attending_after (limits : DispatchLimits) (store : Store) (ms : List Move) :
    (after limits ms (start store)).Attending := by
  have := after_induction limits (P := fun t => t.Valid ∧ t.Attending)
    (fun hs h => ⟨(h.valid hs.1).1, h.attending hs.1 hs.2⟩) ms
    ⟨valid_start store, fun d hd => by cases hd⟩
  exact this.2

/-- What a dispatch has asked after a step: nothing, or what it had asked before and what is seen of
the step. -/
theorem Step.asked (h : Step limits s ev t) {d' : Dispatching} (hd' : t.dispatch = some d') :
    d'.asked = [] ∨ (∀ e, ev ≠ .took e) ∧ ∃ d, s.dispatch = some d ∧ d.copy = d'.copy ∧
      ∀ x ∈ d'.asked, x ∈ d.asked ∨ ev = .dispatchAsked d'.copy x := by
  cases h with
  | take hr hn he =>
    cases hd'
    exact .inl rfl
  | @dispatch d x rest site o hn hx =>
    cases hd'
    refine .inr ⟨by simp, d, hn, rfl, fun y hy => ?_⟩
    rcases List.mem_append.mp hy with hy | hy
    · exact .inl hy
    · obtain rfl := List.mem_singleton.mp hy
      exact .inr rfl
  | finishDispatch o hn hr => cases hd'
  | restart => cases hd'
  | _ => exact .inr ⟨by simp, d', hd', rfl, fun x hx => .inl hx⟩

/-- **What a dispatch has asked is seen since its copy was taken.** -/
theorem exists_asked {ms : List Move} (hs : s.dispatch = none) {d : Dispatching}
    (hd : (after limits ms s).dispatch = some d) {x : Exchange Request.Answer} (hx : x ∈ d.asked) :
    ∃ ks m ls t, ms = ks ++ m :: ls ∧
      step limits m (after limits ks s) = some (.dispatchAsked d.copy x, t) ∧
      after limits ls t = after limits ms s ∧ ∀ e, Event.took e ∉ trace limits ls t := by
  -- from the end of the run: it is seen at the last move, or it has been asked before it
  induction ms using List.reverseRecOn generalizing d with
  | nil =>
    rw [after, hs] at hd
    cases hd
  | append_singleton ms m ih =>
    rw [after_append] at hd ⊢
    cases hm : step limits m (after limits ms s) with
    | none =>
      simp only [after, hm] at hd ⊢
      obtain ⟨ks, n, ls, t, rfl, hn, hls, htook⟩ := ih hd hx
      refine ⟨ks, n, ls ++ [m], t, by simp, hn, ?_, ?_⟩
      · rw [after_append, hls]
        simp only [after, hm]
      · rw [trace_append, hls]
        simpa only [trace, hm, List.append_nil] using htook
    | some p =>
      obtain ⟨ev, u⟩ := p
      simp only [after, hm] at hd ⊢
      rcases (step_cases hm).asked hd with hnil | ⟨htake, d₀, hd₀, hcopy, hasked⟩
      · rw [hnil] at hx
        cases hx
      · rcases hasked x hx with hx | rfl
        · obtain ⟨ks, n, ls, t, rfl, hn, hls, htook⟩ := ih hd₀ hx
          rw [hcopy] at hn
          refine ⟨ks, n, ls ++ [m], t, by simp, hn, ?_, fun e he => ?_⟩
          · rw [after_append, hls]
            simp only [after, hm]
          · rw [trace_append, hls] at he
            simp only [trace, hm] at he
            rcases List.mem_append.mp he with he | he
            · exact htook e he
            · exact htake e (List.mem_singleton.mp he).symm
        · exact ⟨ms, m, [], u, rfl, hm, rfl, fun e he => by cases he⟩

/-- The end of a dispatch is recorded, and nothing else changes. -/
theorem Step.site_of_dispatchEnded {c : Execution} {r : Option DispatchOutcome}
    (h : Step limits s (.dispatchEnded c r) t) : t.site = s.site := by
  cases h
  rfl

/-- **What is queued when a dispatch has lost its executor.** The executor was given up in the
course of that dispatch, and every unfinished row that names it is queued in its status, if it is
the row of the copy at hand or if the executor had reported it last. -/
theorem failed_over {limits : DispatchLimits} {store : Store} {ms : List Move} {c : Execution}
    {a : Address} {ids : List Int} (h : (trace limits ms (start store)).getLast? =
      some (.dispatchEnded c (some (.executorLost a ids)))) :
    ∃ entry : Executor,
      (∃ ks m ls t, ms = ks ++ m :: ls ∧ step limits m (after limits ks (start store)) =
          some (.dispatchAsked c ⟨.evict a, some entry⟩, t) ∧
        (after limits ks (start store)).site.registry.get? a = some entry ∧
        ∀ e, Event.took e ∉ trace limits ls t) ∧
      ∀ id f, (after limits ms (start store)).site.store.execution? id = some f →
        f.status.isFinished = false → f.worker = some a.display →
        id = c.id ∨ id ∈ entry.execIds →
        ∃ d ∈ (after limits ms (start store)).site.queue.waiting,
          d.id = id ∧ d.status = f.status := by
  obtain ⟨ks, m, ls, hms, hm, hls⟩ := exists_move_of_getLast? h
  have hend := step_cases hm
  obtain ⟨d, hd, rfl, o, hr⟩ := hend.of_dispatchEnded
  have hv := valid_after limits store ks
  -- the end of an attended dispatch: what it has recovered holds in the state before its last step
  have hrecovers : Dispatch.Recovers d.copy d.asked _ _ :=
    Interaction.Keeps.finish (T := Dispatch.attended) (o := o)
      (attending_after limits store ks d hd) (.refl hv.site) hr
  obtain ⟨entry, hentry, hids⟩ := hrecovers a ids rfl
  refine ⟨entry, ?_, fun id f hf hfin hw hid => ?_⟩
  · obtain ⟨ks', m', ls', t, rfl, hm', hafter, htook⟩ := exists_asked rfl hd hentry
    refine ⟨ks', m', ls' ++ m :: ls, t, by simp [hms], hm', ?_, fun e he => ?_⟩
    · obtain ⟨o', hanswer⟩ := (step_cases hm').answered rfl
      exact congrArg Prod.fst hanswer
    · rw [trace_append, hafter] at he
      simp only [trace, hm, hls] at he
      rcases List.mem_append.mp he with he | he
      · exact htook e he
      · cases List.mem_singleton.mp he
  · rw [hend.site_of_dispatchEnded] at hf ⊢
    obtain ⟨e, he, heid, hstatus⟩ := hids id hid f hf hfin hw
    exact ⟨e, he, heid, hstatus.trans (Site.status_of_held hv.site hf hfin hw).symm⟩

/-- An executor that is lost before it has reported what it holds. -/
def lostUnreported : List Move :=
  Move.alone (.registerExecutor "a" 9000 ⟨0, 0⟩) ++
  Move.alone (.execFlow 10 1 ⟨0, 0⟩ Settings.none) ++ Move.dispatchAlone .answering ++
  Move.alone (.execFlow 10 1 ⟨0, 0⟩ Settings.none) ++ Move.dispatchAlone .silent

/-- An executor that is lost after it has reported what it holds. -/
def lostReported : List Move :=
  Move.alone (.registerExecutor "a" 9000 ⟨0, 0⟩) ++
  Move.alone (.execFlow 10 1 ⟨0, 0⟩ Settings.none) ++ Move.dispatchAlone .answering ++
  Move.alone (.reportExecutor "a" 9000 ⟨0, 0⟩ [1]) ++
  Move.alone (.execFlow 10 1 ⟨0, 0⟩ Settings.none) ++ Move.dispatchAlone .silent

set_option maxRecDepth 100000 in
/-- An execution that its executor has reported is queued when that is lost. -/
theorem failed_over_lostReported :
    (∃ c, c.id = 2 ∧ (trace ⟨1, 0⟩ lostReported (start .oneFlow)).getLast? =
      some (.dispatchEnded c (some (.executorLost ⟨"a", 9000⟩ [1])))) ∧
    ∃ d ∈ (after ⟨1, 0⟩ lostReported (start .oneFlow)).site.queue.waiting,
      d.id = 1 ∧ d.status = .running := by
  obtain ⟨c, hid, hlast⟩ : ∃ c, c.id = 2 ∧
      (trace ⟨1, 0⟩ lostReported (start .oneFlow)).getLast? =
        some (.dispatchEnded c (some (.executorLost ⟨"a", 9000⟩ [1]))) := ⟨_, rfl, rfl⟩
  refine ⟨⟨c, hid, hlast⟩, ?_⟩
  obtain ⟨entry, ⟨ks, m, ls, t, hms, hm, -⟩, hqueued⟩ := failed_over hlast
  -- the only executor that is given up has reported the first execution
  have hreport : (trace ⟨1, 0⟩ lostReported (start .oneFlow)).all (fun
      | .dispatchAsked _ ⟨.evict _, entry⟩ => entry.all fun e : Executor => e.execIds == [1]
      | _ => true) = true := by decide +kernel
  have hgivenUp : .dispatchAsked c ⟨.evict ⟨"a", 9000⟩, some entry⟩ ∈
      trace ⟨1, 0⟩ lostReported (start .oneFlow) := by
    rw [hms, trace_append]
    simp only [trace, hm]
    exact List.mem_append_right _ List.mem_cons_self
  have hids : entry.execIds = [1] := by simpa using List.all_eq_true.mp hreport _ hgivenUp
  obtain ⟨f, hf, hrunning, hworker⟩ : ∃ f,
      (after ⟨1, 0⟩ lostReported (start .oneFlow)).site.store.execution? 1 = some f ∧
        f.status = .running ∧ f.worker = some "a:9000" := ⟨_, rfl, rfl, rfl⟩
  obtain ⟨d, hd, hdid, hstatus⟩ :=
    hqueued 1 f hf (by rw [hrunning]; rfl) hworker (.inr (by simp [hids]))
  exact ⟨d, hd, hdid, hstatus.trans hrunning⟩

set_option maxRecDepth 100000 in
/-- **What an executor has not reported is not queued** when that is lost: its row stays `RUNNING`
on the executor that has been given up. -/
theorem lost_without_requeue :
    ¬ ∀ (limits : DispatchLimits) (store : Store) (ms : List Move) (c : Execution) (a : Address)
      (ids : List Int), (trace limits ms (start store)).getLast? =
        some (.dispatchEnded c (some (.executorLost a ids))) →
      ∀ id f, (after limits ms (start store)).site.store.execution? id = some f →
        f.status.isFinished = false → f.worker = some a.display →
        (after limits ms (start store)).site.Queued id := by
  intro hall
  obtain ⟨c, hlast⟩ : ∃ c, (trace ⟨1, 0⟩ lostUnreported (start .oneFlow)).getLast? =
      some (.dispatchEnded c (some (.executorLost ⟨"a", 9000⟩ []))) := ⟨_, rfl⟩
  obtain ⟨f, hf, hrunning, hworker⟩ : ∃ f,
      (after ⟨1, 0⟩ lostUnreported (start .oneFlow)).site.store.execution? 1 = some f ∧
        f.status = .running ∧ f.worker = some "a:9000" := ⟨_, rfl, rfl, rfl⟩
  obtain ⟨d, hd, hid⟩ := hall _ _ _ c _ _ hlast 1 f hf (by rw [hrunning]; rfl) hworker
  have hqueue : ∀ d ∈ (after ⟨1, 0⟩ lostUnreported (start .oneFlow)).site.queue.waiting,
      d.id ≠ 1 := by decide +kernel
  exact hqueue d hd hid

end System

end WorkflowScheduler
