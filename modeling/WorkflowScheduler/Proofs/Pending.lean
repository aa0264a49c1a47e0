import WorkflowScheduler.Proofs.System

/-!
# Nothing that waits is lost

A row in `INIT` is accounted for at every moment: a copy of it is queued, the dispatcher has one in
hand, an operation is about to queue it, or the master has been restarted and has not yet queued
what it has found.

## Main definitions

* `Status.FollowsInit`: where a row in `INIT` can go
* `Site.Waits`: the row with an id is in `INIT`
* `Thread.IsAboutToQueue`: an operation that has stored an execution and queues it next
* `System.Accounts`: where a row that waits is
* `System.Covering`: the invariant of a step

## Main results

* `System.Step.covering`: a step keeps every row that waits accounted for
* `System.Step.waits`: from `INIT` a row goes to `RUNNING`, `KILL` or `FAILED`
* `System.pending_accounted`: at every moment of every run every row that waits is accounted for
-/

namespace WorkflowScheduler

/-- A status that a row in `INIT` can have a step later. -/
def Status.FollowsInit (s : Status) : Prop :=
  s = .init ∨ s = .running ∨ s = .kill ∨ s = .failed

/-- The row with an id waits for dispatch. -/
def Site.Waits (s : Site) (id : Int) : Prop :=
  ∃ e, s.store.execution? id = some e ∧ e.status = .init

theorem Site.HasLeft.not_waits {s : Site} {id : Int} (h : s.HasLeft id) : ¬ s.Waits id := by
  rintro ⟨f, hf, hi⟩
  obtain ⟨e, he, hne⟩ := h
  obtain rfl : e = f := Option.some.inj (he.symm.trans hf)
  exact hne hi

/-- A row that waits after a request has waited before, or the request has stored it. -/
theorem Site.waits_of_answer {s u : Site} {o : Outside} {x : Exchange Request.Answer} {id : Int}
    (hx : s.answer o x.1 = (x.2, u)) (hr : x.1.Fits s) (h : u.Waits id) :
    s.Waits id ∨ ∀ k : History, ∃ e, owed (k ++ [x]) = some e ∧ e.id = id := by
  obtain ⟨f, hf, hi⟩ := h
  have hu : u = (s.answer o x.1).2 := by rw [hx]
  cases he : s.store.execution? id with
  | some e =>
    have hlead := rowAfter_leadsTo hr o.now e
    rw [hu, execution?_answer he] at hf
    exact .inl ⟨e, he, hlead.status_eq_init (Option.some.inj hf ▸ hi)⟩
  | none =>
    -- only a request that stores it brings a row in
    refine .inr fun k => ⟨f, ?_, Store.execution?_id hf⟩
    obtain ⟨n, hn, rfl⟩ := execution?_answer_new he (hu ▸ hf)
    obtain ⟨r, a⟩ := x
    obtain rfl : r = .store (.createExecution n) := hn
    obtain ⟨rfl, -⟩ := Prod.mk.inj hx
    simp [owed]
    rfl

theorem Site.Queued.of_answer {s u : Site} {o : Outside} {x : Exchange Request.Answer} {id : Int}
    (h : s.Queued id) (hs : s.Sound) (hx : s.answer o x.1 = (x.2, u)) : u.Queued id := by
  obtain ⟨e, he, hid⟩ := h
  exact ⟨e, by rw [waiting_of_answer hs hx]; exact List.mem_append_left _ he, hid⟩

theorem Site.queued_of_push {s u : Site} {o : Outside} {x : Exchange Request.Answer}
    {e : Execution} (hs : s.Sound) (hx : s.answer o x.1 = (x.2, u)) (hpush : x.1 = .push e) :
    u.Queued e.id :=
  ⟨e, by simp [waiting_of_answer hs hx, hpush, Request.pushed], rfl⟩

theorem Site.waits_of_setStatus {s : Site} {id : Int} {c : Execution} {status : Status}
    (now : Instant) (he : s.store.execution? id = some c) (hs : status.isFinished = true)
    {j : Int} (h : Site.Waits { s with store := (s.store.setStatus now id status).2 } j) :
    s.Waits j := by
  obtain ⟨f, hf, hi⟩ := h
  simp only [Store.execution?_setStatus now he hs, Option.map_eq_some_iff] at hf
  obtain ⟨d, hd, rfl⟩ := hf
  refine ⟨d, hd, ?_⟩
  split at hi
  · obtain rfl : status = .init := hi
    simp [Status.isFinished] at hs
  · exact hi

/-- **An operation is about to queue an execution** that it has stored by its last request. -/
def Thread.IsAboutToQueue (t : Thread) (id : Int) : Prop :=
  ∃ e next, e.id = id ∧ owed t.asked = some e ∧ t.rest = .ask (.push e) next

namespace System

variable {limits : DispatchLimits} {s t : System} {e : Event}

/-- **A row is accounted for**: a copy of it is queued, the dispatcher has one in hand, an operation
is about to queue it, or a recovery is not finished. -/
def Accounts (s : System) (id : Int) : Prop :=
  (∃ c ∈ s.site.queue.waiting, c.id = id ∧ c.status = .init) ∨
    (∃ d, s.dispatch = some d ∧ d.copy.id = id ∧ d.copy.status = .init) ∨
    (∃ k ∈ s.threads, k.IsAboutToQueue id) ∨ s.recovery.isSome

/-- Where a row that waits is, as far as a step has to know. -/
def Covers (s : System) (id : Int) : Prop :=
  s.site.Queued id ∨ (∃ d, s.dispatch = some d ∧ d.copy.id = id) ∨
    (∃ k ∈ s.threads, ∃ e, owed k.asked = some e ∧ e.id = id) ∨ s.recovery.isSome

/-- A recovery has queued what it says, and what it has not found waiting is queued too. -/
structure Recovering (s : Site) (k : Thread) : Prop where
  queued : ∀ e, ⟨.push e, true⟩ ∈ k.asked → s.Queued e.id
  found : ∀ rows : List Execution, ⟨.store (.executionsInStatus .init), .ok rows⟩ ∈ k.asked →
    ∀ id, s.Waits id → (∃ e ∈ rows, e.id = id) ∨ s.Queued id ∨
      ∃ e, owed k.asked = some e ∧ e.id = id

theorem Recovering.ask {u v : Site} {k : Thread} {x : Exchange Request.Answer} {o : Outside}
    {rest : Program (Except MasterError Unit)} (h : Recovering u k) (hu : u.Sound)
    (howed : ∀ e, owed k.asked = some e → x.1 = .push e) (hserved : x.1.Served u)
    (hanswer : u.answer o x.1 = (x.2, v)) : Recovering v ⟨k.job, k.asked ++ [x], rest⟩ where
  queued e he := by
    rcases List.mem_append.mp he with he | he
    · exact (h.queued e he).of_answer hu hanswer
    · exact Site.queued_of_push hu hanswer (by rw [← List.mem_singleton.mp he])
  found rows hrows id hid := by
    rcases Site.waits_of_answer hanswer hserved.fits hid with hw | hnew
    · rcases List.mem_append.mp hrows with hrows | hrows
      · rcases h.found rows hrows id hw with hin | hq | ⟨e, he, rfl⟩
        · exact .inl hin
        · exact .inr (.inl (hq.of_answer hu hanswer))
        · exact .inr (.inl (Site.queued_of_push hu hanswer (howed e he)))
      · -- the rows that wait are being read: the row is among them
        obtain ⟨e, he, hi⟩ := hw
        rw [← List.mem_singleton.mp hrows] at hanswer
        obtain rfl := Except.ok.inj (congrArg Prod.fst hanswer)
        refine .inl ⟨e, List.mem_filter.mpr ⟨Store.execution?_mem he, by simpa using hi⟩, ?_⟩
        exact Store.execution?_id he
    · exact .inr (.inr (hnew k.asked))

/-- **Every row that waits is covered**, and a recovery goes on as it should. -/
structure Covering (s : System) : Prop where
  rows : ∀ id, s.site.Waits id → s.Covers id
  recovery : ∀ k, s.recovery = some k → Recovering s.site k

theorem covering_start (store : Store) : (start store).Covering where
  rows id h := by
    obtain ⟨e, he, -⟩ := h
    simp [start, Store.execution?] at he
  recovery := by simp [start]

/-! ### The steps of an operation -/

section Operation

variable {ks : List Thread} {i : Nat} {k l : Thread} {o : Outside}

/-- Another operation than the one that acts is untouched. -/
theorem mem_set_of_ne (hk : ks[i]? = some k) (hl : l ∈ ks) (hne : l ≠ k) (k' : Thread) :
    l ∈ ks.set i k' := by
  obtain ⟨j, hj⟩ := List.mem_iff_getElem?.mp hl
  have hij : i ≠ j := by
    rintro rfl
    exact hne (Option.some.inj (hj.symm.trans hk))
  refine List.mem_iff_getElem?.mpr ⟨j, ?_⟩
  rw [List.getElem?_set_ne hij, hj]

/-- Another operation than the one that ends is still there. -/
theorem mem_eraseIdx_of_ne (hk : ks[i]? = some k) (hl : l ∈ ks) (hne : l ≠ k) :
    l ∈ ks.eraseIdx i := by
  obtain ⟨j, hj⟩ := List.mem_iff_getElem?.mp hl
  refine List.mem_eraseIdx_iff_getElem?.mpr ⟨j, ?_, hj⟩
  rintro rfl
  exact hne (Option.some.inj (hj.symm.trans hk))

theorem Covering.begin (hs : s.Covering) (hr : s.recovery = none) (job : Job) :
    Covering { s with threads := s.threads ++ [.start job] } where
  rows id hid := by
    rcases hs.rows id hid with hq | hd | ⟨k, hk, hrest⟩ | hrec
    · exact .inl hq
    · exact .inr (.inl hd)
    · exact .inr (.inr (.inl ⟨k, List.mem_append_left _ hk, hrest⟩))
    · exact .inr (.inr (.inr hrec))
  recovery := by simp [hr]

/-- **What an operation owes it queues by its next request**, and a row that it stores by a request it
owes from then on. -/
theorem Covering.ask (hs : s.Covering) (hv : s.Valid) {x : Exchange Request.Answer}
    {rest : Program (Except MasterError Unit)} {site : Site} (hk : s.threads[i]? = some k)
    (hx : k.rest.advance (Site.answer o) s.site = .inl (x, rest, site)) :
    Covering { s with site := site, threads := s.threads.set i ⟨k.job, k.asked ++ [x], rest⟩ } where
  rows id hid := by
    obtain ⟨howed, hserved, hanswer, -⟩ :=
      (hv.threads k (List.mem_of_getElem? hk)).advance hv.site hx
    rcases Site.waits_of_answer hanswer hserved.fits hid with hw | hnew
    · rcases hs.rows id hw with hq | hd | ⟨l, hl, e, he, rfl⟩ | hrec
      · exact .inl (hq.of_answer hv.site hanswer)
      · exact .inr (.inl hd)
      · -- the one that owes the row is the one that acts, or it is untouched
        by_cases hlk : l = k
        · subst hlk
          exact .inl (Site.queued_of_push hv.site hanswer (howed e he))
        · exact .inr (.inr (.inl ⟨l, mem_set_of_ne hk hl hlk _, e, he, rfl⟩))
      · exact .inr (.inr (.inr hrec))
    · -- the operation has just stored the row
      obtain ⟨e, he, hid⟩ := hnew k.asked
      have hi := (List.getElem?_eq_some_iff.mp hk).1
      exact .inr (.inr (.inl ⟨_, List.mem_set hi _, e, he, hid⟩))
  recovery l hl := by
    -- no operation is carried on beside a recovery
    obtain ⟨-, -, hnil, -⟩ := hv.recovery l hl
    simp [hnil] at hk

/-- **An operation that ends owes nothing.** -/
theorem Covering.finishJob (hs : s.Covering) (hv : s.Valid)
    {r : Option (Except MasterError Unit)} (hk : s.threads[i]? = some k)
    (hr : k.rest.advance (Site.answer o) s.site = .inr r) :
    Covering { s with threads := s.threads.eraseIdx i } where
  rows id hid := by
    have hdone := (hv.threads k (List.mem_of_getElem? hk)).finish hv.site hr
    rcases hs.rows id hid with hq | hd | ⟨l, hl, e, he, rfl⟩ | hrec
    · exact .inl hq
    · exact .inr (.inl hd)
    · have hlk : l ≠ k := by
        rintro rfl
        rw [hdone.1] at he
        cases he
      exact .inr (.inr (.inl ⟨l, mem_eraseIdx_of_ne hk hl hlk, e, he, rfl⟩))
    · exact .inr (.inr (.inr hrec))
  recovery := hs.recovery

end Operation

/-! ### The steps of the dispatcher -/

section Dispatcher

variable {d : Dispatching} {o : Outside}

/-- **The copy in front goes from the queue into the hand of the dispatcher.** -/
theorem Covering.take (hs : s.Covering) {c : Execution} {queue : Queue} (hr : s.recovery = none)
    (hd : s.dispatch = none) (he : s.site.queue.receive = (some c, queue)) :
    Covering { s with
      site := { s.site with queue := queue }
      dispatch := some (.start limits c) } where
  rows id hid := by
    obtain ⟨hw, -⟩ := receive_eq_some he
    rcases hs.rows id hid with ⟨b, hb, hbid⟩ | ⟨d, hd', -⟩ | hk | hrec
    · rw [hw] at hb
      rcases List.mem_cons.mp hb with rfl | hb
      · exact .inr (.inl ⟨_, rfl, hbid⟩)
      · exact .inl ⟨b, hb, hbid⟩
    · simp [hd] at hd'
    · exact .inr (.inr (.inl hk))
    · exact .inr (.inr (.inr hrec))
  recovery := by simp [hr]

/-- **A request of a dispatch stores no rows**, and the copy stays in the hand of the dispatcher. -/
theorem Covering.dispatch (hs : s.Covering) (hv : s.Valid) {x : Exchange Request.Answer}
    {rest : Program DispatchOutcome} {site : Site} (hd : s.dispatch = some d)
    (hx : d.rest.advance (Site.answer o) s.site = .inl (x, rest, site)) :
    Covering { s with site := site, dispatch := some ⟨d.copy, d.asked ++ [x], rest⟩ } where
  rows id hid := by
    obtain ⟨hmay, hanswer, -⟩ := (hv.dispatch d hd).advance hv.site hx
    rcases Site.waits_of_answer hanswer (hmay.fits (hv.dispatch d hd).backs) hid with hw | hnew
    · rcases hs.rows id hw with hq | ⟨c, hc, hcid⟩ | hk | hrec
      · exact .inl (hq.of_answer hv.site hanswer)
      · obtain rfl : d = c := Option.some.inj (hd.symm.trans hc)
        exact .inr (.inl ⟨_, rfl, hcid⟩)
      · exact .inr (.inr (.inl hk))
      · exact .inr (.inr (.inr hrec))
    · obtain ⟨e, he, -⟩ := hnew []
      rw [owed_append hmay.creates] at he
      cases he
  recovery l hl := by
    obtain ⟨-, -, -, hnone⟩ := hv.recovery l hl
    simp [hnone] at hd

/-- **A dispatch ends only when its row has left `INIT` or is queued again.** -/
theorem Covering.finishDispatch (hs : s.Covering) (hv : s.Valid) {r : Option DispatchOutcome}
    (hd : s.dispatch = some d) (hr : d.rest.advance (Site.answer o) s.site = .inr r) :
    Covering { s with dispatch := none } where
  rows id hid := by
    have hdone := (hv.dispatch d hd).finish hv.site hr
    rcases hs.rows id hid with hq | ⟨c, hc, rfl⟩ | hk | hrec
    · exact .inl hq
    · obtain rfl : d = c := Option.some.inj (hd.symm.trans hc)
      rcases hdone.1 with hleft | hq
      · exact (hleft.not_waits hid).elim
      · exact .inl hq
    · exact .inr (.inr (.inl hk))
    · exact .inr (.inr (.inr hrec))
  recovery := hs.recovery

end Dispatcher

/-! ### The other steps -/

/-- An execution that an executor ends has waited no longer. -/
theorem Covering.finish (hs : s.Covering) {id : Int} {c : Execution} {status : Status}
    (now : Instant) (he : s.site.store.execution? id = some c) (hst : status.isFinished = true) :
    Covering { s with
      site := { s.site with store := (s.site.store.setStatus now id status).2 } } where
  rows j hj := hs.rows j (Site.waits_of_setStatus now he hst hj)
  recovery k hk := by
    refine ⟨(hs.recovery k hk).queued, fun rows hrows j hj => ?_⟩
    exact (hs.recovery k hk).found rows hrows j (Site.waits_of_setStatus now he hst hj)

theorem covering_restarted (s : System) : s.restarted.Covering where
  rows _ _ := .inr (.inr (.inr rfl))
  recovery k hk := by
    cases hk
    exact ⟨by simp [Thread.start], by simp [Thread.start]⟩

theorem Covering.recover (hs : s.Covering) (hv : s.Valid) {k : Thread} {o : Outside}
    {x : Exchange Request.Answer} {rest : Program (Except MasterError Unit)} {site : Site}
    (hk : s.recovery = some k)
    (hx : k.rest.advance (Site.answer o) s.site = .inl (x, rest, site)) :
    Covering { s with site := site, recovery := some ⟨k.job, k.asked ++ [x], rest⟩ } where
  rows _ _ := .inr (.inr (.inr rfl))
  recovery l hl := by
    obtain ⟨howed, hserved, hanswer, -⟩ := (hv.recovery k hk).1.advance hv.site hx
    cases hl
    exact (hs.recovery k hk).ask hv.site howed hserved hanswer

/-- **A recovery that ends has queued what it has found**, and owes nothing. -/
theorem Covering.finishRecovery (hs : s.Covering) (hv : s.Valid) {k : Thread} {o : Outside}
    {r : Option (Except MasterError Unit)} (hk : s.recovery = some k)
    (hr : k.rest.advance (Site.answer o) s.site = .inr r) :
    Covering { s with recovery := none } where
  rows id hid := by
    obtain ⟨hkept, hjob, -⟩ := hv.recovery k hk
    have hdone := hkept.finish hv.site hr
    rw [hjob] at hdone
    obtain ⟨howed, rows, hrows, hqueued⟩ := hdone
    refine .inl ?_
    rcases (hs.recovery k hk).found rows hrows id hid with ⟨e, he, rfl⟩ | hq | ⟨e, he, -⟩
    · exact (hs.recovery k hk).queued e (hqueued e he)
    · exact hq
    · simp [howed] at he
  recovery := by simp

/-- **A step keeps every row that waits covered.** -/
theorem Step.covering (h : Step limits s e t) (hv : s.Valid) (hs : s.Covering) : t.Covering := by
  cases h with
  | begin job hr => exact hs.begin hr job
  | ask o hk hx => exact hs.ask hv hk hx
  | finishJob o hk hr => exact hs.finishJob hv hk hr
  | take hr hd he => exact hs.take hr hd he
  | dispatch o hd hx => exact hs.dispatch hv hd hx
  | finishDispatch o hd hr => exact hs.finishDispatch hv hd hr
  | finish now he hr hst => exact hs.finish now he hst
  | restart => exact covering_restarted s
  | recover o hk hx => exact hs.recover hv hk hx
  | finishRecovery o hk hr => exact hs.finishRecovery hv hk hr

/-- A copy of a row that waits has its status. -/
theorem status_of_backs {u : Site} {c : Execution} (hc : u.store.Backs c) (hw : u.Waits c.id) :
    c.status = .init := by
  obtain ⟨-, f, hf, hcf⟩ := hc
  obtain ⟨g, hg, hi⟩ := hw
  obtain rfl : f = g := Option.some.inj (hf.symm.trans hg)
  exact hcf.status_eq_init hi

theorem Covering.accounts (hs : s.Covering) (hv : s.Valid) {id : Int} (hid : s.site.Waits id) :
    s.Accounts id := by
  rcases hs.rows id hid with ⟨c, hc, rfl⟩ | ⟨d, hd, rfl⟩ | ⟨k, hk, e, he, rfl⟩ | hrec
  · exact .inl ⟨c, hc, rfl, status_of_backs (hv.site.backs c hc) hid⟩
  · exact .inr (.inl ⟨d, hd, rfl, status_of_backs (hv.dispatch d hd).backs hid⟩)
  · refine .inr (.inr (.inl ⟨k, hk, ?_⟩))
    -- an operation that owes a row neither ends nor asks anything else
    have hkept := hv.threads k hk
    unfold Thread.IsKept at hkept
    cases hrest : k.rest with
    | done r =>
      rw [hrest] at hkept
      simp [(hkept s.site (.refl hv.site)).1] at he
    | crash =>
      rw [hrest] at hkept
      simp [(hkept s.site (.refl hv.site)).1] at he
    | ask r next =>
      rw [hrest] at hkept
      obtain rfl := (hkept s.site (.refl hv.site)).1.1 e he
      exact ⟨e, next, rfl, he, hrest⟩
  · exact .inr (.inr (.inr hrec))

theorem covering_after (limits : DispatchLimits) (store : Store) (ms : List Move) :
    (after limits ms (start store)).Covering := by
  have := after_induction limits (P := fun s => s.Valid ∧ s.Covering)
    (fun hs h => ⟨(h.valid hs.1).1, h.covering hs.1 hs.2⟩) ms
    ⟨valid_start store, covering_start store⟩
  exact this.2

/-! ## How a row stops to wait -/

theorem follows_of_answer {u v : Site} {o : Outside} {x : Exchange Request.Answer} {id : Int}
    (hx : u.answer o x.1 = (x.2, v)) (hw : u.Waits id)
    (hr : ∀ j expected w, x.1 = .store (.transition j expected w) → w.status.FollowsInit) :
    ∃ f, v.store.execution? id = some f ∧ f.status.FollowsInit := by
  obtain ⟨c, hc, hi⟩ := hw
  refine ⟨x.1.rowAfter o.now c, ?_, ?_⟩
  · rw [← Site.execution?_answer hc, hx]
  · unfold Request.rowAfter StoreRequest.rowAfter
    split
    · next q hq =>
      split
      · split
        · exact hr _ _ _ hq
        · exact .inl hi
      · exact .inl hi
    · exact .inl hi

theorem follows_of_served {u v : Site} {o : Outside} {x : Exchange Request.Answer} {id : Int}
    (hx : u.answer o x.1 = (x.2, v)) (hw : u.Waits id) (hr : x.1.Served u) :
    ∃ f, v.store.execution? id = some f ∧ f.status.FollowsInit := by
  refine follows_of_answer hx hw fun j expected w hj => ?_
  rw [hj] at hr
  obtain ⟨-, rfl⟩ := hr
  exact .inr (.inr (.inl rfl))

/-- **From `INIT` a row goes to `RUNNING`, `KILL` or `FAILED`.** -/
theorem Step.waits (h : Step limits s e t) (hv : s.Valid) {id : Int} (hid : s.site.Waits id) :
    ∃ f, t.site.store.execution? id = some f ∧ f.status.FollowsInit := by
  have hsame : ∃ f, s.site.store.execution? id = some f ∧ f.status.FollowsInit := by
    obtain ⟨c, hc, hi⟩ := hid
    exact ⟨c, hc, .inl hi⟩
  cases h with
  | @ask i k x rest site o hk hx =>
    obtain ⟨-, hserved, hanswer, -⟩ := (hv.threads k (List.mem_of_getElem? hk)).advance hv.site hx
    exact follows_of_served hanswer hid hserved
  | @recover k x rest site o hk hx =>
    obtain ⟨-, hserved, hanswer, -⟩ := (hv.recovery k hk).1.advance hv.site hx
    exact follows_of_served hanswer hid hserved
  | @dispatch d x rest site o hd hx =>
    obtain ⟨hmay, hanswer, -⟩ := (hv.dispatch d hd).advance hv.site hx
    refine follows_of_answer hanswer hid fun j expected w hj => ?_
    rw [hj] at hmay
    obtain ⟨-, -, -, rfl | ⟨a, rfl⟩⟩ := hmay
    · exact .inr (.inr (.inr rfl))
    · exact .inr (.inl rfl)
  | @finish j c status now he hr hst =>
    obtain ⟨d, hd, hi⟩ := hid
    refine ⟨d, ?_, .inl hi⟩
    have hne : id ≠ j := by
      rintro rfl
      obtain rfl : c = d := Option.some.inj (he.symm.trans hd)
      simp [hi] at hr
    simp [Store.execution?_setStatus now he hst, hd, hne]
  | _ => exact hsame

/-- **At every moment of every run every row that waits is accounted for**, whatever operations,
dispatches, executors and restarts do; and a row stops to wait only by becoming `RUNNING`, `KILL` or
`FAILED`. -/
theorem pending_accounted (limits : DispatchLimits) (store : Store) (ms : List Move) :
    let s := after limits ms (start store)
    ∀ e ∈ s.site.store.rows, e.status = .init → s.Accounts e.id ∧
      ∀ m : Move, ∃ f ∈ (after limits [m] s).site.store.rows,
        f.id = e.id ∧ f.status.FollowsInit := by
  intro s e he hi
  have hv : s.Valid := valid_after limits store ms
  have hw : s.site.Waits e.id := ⟨e, hv.site.store.execution?_of_mem he, hi⟩
  refine ⟨(covering_after limits store ms).accounts hv hw, fun m => ?_⟩
  simp only [after]
  cases hm : step limits m s with
  | none => exact ⟨e, he, rfl, .inl hi⟩
  | some p =>
    obtain ⟨f, hf, hstatus⟩ := (step_cases hm).waits hv hw
    exact ⟨f, Store.execution?_mem hf, Store.execution?_id hf, hstatus⟩

end System

end WorkflowScheduler
