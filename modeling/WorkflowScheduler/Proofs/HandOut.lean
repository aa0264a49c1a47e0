import WorkflowScheduler.Proofs.Addresses
import WorkflowScheduler.Proofs.Settled

/-!
# Handing out twice

An execution that has been dispatched to an executor is handed out again while that executor is in
place exactly if a copy of it in `RUNNING` is still in the queue. Such a copy stays behind when an
executor is given up twice while it holds the execution.

## Main definitions

* `Event.GivesUp`: a dispatch gives up an executor
* `System.Reaches`: a run of which only such steps are seen

## Main results

* `System.reaches_head`: a queue is worked off down to a copy while every executor answers
* `System.handed_out_once_iff`: when a dispatched execution is not handed out again
-/

namespace WorkflowScheduler

/-- A step by which a dispatch gives up an executor. -/
def Event.GivesUp (b : Address) : Event → Prop
  | .dispatchAsked _ ⟨.evict a, _⟩ => a = b
  | _ => False

theorem Event.GivesUp.of_loses {id : Int} {b : Address} {ev : Event}
    (h : ev.Loses id (some b.display)) : ev.GivesUp b := by
  cases ev with
  | dispatchAsked c x =>
    obtain ⟨a, entry, rfl, hw, -⟩ := h
    exact (Address.display_injective (Option.some.inj hw)).symm
  | _ => exact h.elim

/-- A step by which no executor is given up. -/
def Event.KeepsExecutors (ev : Event) : Prop :=
  ∀ a, ¬ ev.GivesUp a

namespace System

variable {limits : DispatchLimits} {s t u : System} {A : Event → Prop}

/-! ## Runs without a loss -/

/-- **Another state is reached** by a run of which only such steps are seen. -/
def Reaches (limits : DispatchLimits) (A : Event → Prop) (s t : System) : Prop :=
  ∃ ms, after limits ms s = t ∧ ∀ e ∈ trace limits ms s, A e

theorem Reaches.refl (s : System) : Reaches limits A s s :=
  ⟨[], rfl, by simp [trace]⟩

theorem Reaches.trans (h : Reaches limits A s t) (k : Reaches limits A t u) :
    Reaches limits A s u := by
  obtain ⟨ms, rfl, hms⟩ := h
  obtain ⟨ns, rfl, hns⟩ := k
  refine ⟨ms ++ ns, after_append ms ns s, ?_⟩
  rw [trace_append, List.forall_mem_append]
  exact ⟨hms, hns⟩

theorem Reaches.of_step {m : Move} {ev : Event} (h : step limits m s = some (ev, t)) (ha : A ev) :
    Reaches limits A s t :=
  ⟨[m], by simp [after, h], by simp [trace, h, ha]⟩

theorem Reaches.valid (h : Reaches limits A s t) (hv : s.Valid) : t.Valid := by
  obtain ⟨ms, rfl, -⟩ := h
  exact hv.run limits ms

section Asking

variable {c : Execution} {h : History} {r : Request}
  {next : r.Answer → Program DispatchOutcome}

/-- A dispatch makes a request that gives up no executor. -/
theorem Reaches.ask {p : Program DispatchOutcome} (hs : Reaches limits Event.KeepsExecutors t s)
    (hd : s.dispatch = some ⟨c, h, p⟩) (hp : p = .ask r next) (o : Outside)
    (hr : ∀ a, r ≠ .evict a) {a : r.Answer} {site : Site} (ha : s.site.answer o r = (a, site)) :
    Reaches limits Event.KeepsExecutors t
      { s with site := site, dispatch := some ⟨c, h ++ [⟨r, a⟩], next a⟩ } := by
  have hstep : step limits (.dispatch o) s = some (.dispatchAsked c ⟨r, a⟩,
      { s with site := site, dispatch := some ⟨c, h ++ [⟨r, a⟩], next a⟩ }) := by
    simp [step, hd, hp, Interaction.advance, ha]
  refine hs.trans (Reaches.of_step hstep fun b hb => ?_)
  cases r with
  | evict b => exact hr b rfl
  | _ => exact hb

theorem Reaches.done {a : DispatchOutcome} (hs : Reaches limits Event.KeepsExecutors t s)
    (hd : s.dispatch = some ⟨c, h, .done a⟩) :
    Reaches limits Event.KeepsExecutors t { s with dispatch := none } := by
  have hstep : step limits (.dispatch .answering) s =
      some (.dispatchEnded c (some a), { s with dispatch := none }) := by
    simp [step, hd, Interaction.advance]
  exact hs.trans (Reaches.of_step hstep fun b hb => hb)

end Asking

/-- A master that serves, has executors and dispatches nothing, and a row of its store. -/
structure Idle (s : System) (id : Int) (e : Execution) : Prop where
  valid : s.Valid
  dispatch : s.dispatch = none
  recovery : s.recovery = none
  executors : s.site.registry.executors ≠ []
  row : s.site.store.execution? id = some e

section Draining

variable {c e f : Execution} {rest : List Execution} {id : Int}

/-- The dispatcher takes the oldest copy and looks at its row. -/
theorem reaches_check (limits : DispatchLimits) (hs : s.Idle id e)
    (hw : s.site.queue.waiting = c :: rest) (hf : s.site.store.execution? c.id = some f) :
    ∃ t h, Reaches limits Event.KeepsExecutors s t ∧
      t.dispatch = some ⟨c, h,
        if f.status == c.status then Dispatch.choose limits c else .done .abandoned⟩ ∧
      t.site.store = s.site.store ∧ t.site.registry = s.site.registry ∧
      t.site.queue.waiting = rest ∧ t.recovery = none := by
  obtain ⟨queue, hq, hrest⟩ := receive_of_waiting hw
  have htake : step limits .take s = some (.took c,
      { s with site := { s.site with queue := queue }, dispatch := some (.start limits c) }) := by
    simp [step, hs.recovery, hs.dispatch, hq]
  have hrun := Dispatch.run_eq_ask limits c
  have hanswer : Site.answer .answering (.store (.execution c.id))
      { s.site with queue := queue } = (.ok (some f), { s.site with queue := queue }) := by
    simp [Site.answer, Store.answer, hf]
  have htook : Reaches limits Event.KeepsExecutors s _ := Reaches.of_step htake fun b hb => hb
  exact ⟨_, _, htook.ask rfl hrun .answering (by simp) hanswer, rfl, rfl, rfl, hrest, hs.recovery⟩

/-- A copy whose row has moved on is dropped. -/
theorem reaches_dropped (hs : s.Idle id e) (hw : s.site.queue.waiting = c :: rest)
    (hf : s.site.store.execution? c.id = some f) (hne : f.status ≠ c.status) :
    ∃ t, Reaches limits Event.KeepsExecutors s t ∧ t.Idle id e ∧ t.site.queue.waiting = rest := by
  obtain ⟨t, h, hreach, hd, hstore, hregistry, hrest, hrec⟩ := reaches_check limits hs hw hf
  rw [if_neg (by simpa using hne)] at hd
  have hreach := hreach.done hd
  exact ⟨_, hreach, ⟨hreach.valid hs.valid, rfl, hrec, by rw [hregistry]; exact hs.executors,
    by rw [hstore]; exact hs.row⟩, hrest⟩

/-- A copy whose row has its status is submitted next. -/
theorem reaches_attempts (limits : DispatchLimits) (hs : s.Idle id e)
    (hw : s.site.queue.waiting = c :: rest) (hf : s.site.store.execution? c.id = some f)
    (heq : f.status = c.status) :
    ∃ t h a n, Reaches limits Event.KeepsExecutors s t ∧
      t.dispatch = some ⟨c, h, Dispatch.attempts c a (n + 1)⟩ ∧ t.site.store = s.site.store ∧
      t.site.registry.executors = s.site.registry.executors ∧
      t.site.queue.waiting = rest ∧ t.recovery = none := by
  obtain ⟨t, h, hreach, hd, hstore, hregistry, hrest, hrec⟩ := reaches_check limits hs hw hf
  rw [if_pos (by simpa using heq)] at hd
  have hexecutors : t.site.registry.executors ≠ [] := hregistry ▸ hs.executors
  obtain ⟨x, -, hpick⟩ := t.site.registry.pick_cases.resolve_left fun hnone => hexecutors hnone.1
  obtain ⟨n, hn⟩ : ∃ n, max limits.retryCount 1 = n + 1 := ⟨max limits.retryCount 1 - 1, by omega⟩
  have hanswer : t.site.answer .answering .pick = (some x, { t.site with
      registry := { t.site.registry with cursor := t.site.registry.cursor + 1 } }) := by
    simp only [Site.answer]
    rw [hpick]
    rfl
  have hreach := hreach.ask hd rfl .answering (by simp) hanswer
  refine ⟨_, _, x.address, n, hreach, by rw [hn], hstore, ?_, hrest, hrec⟩
  rw [← hregistry]

/-- A copy of another row, or one that is dropped, leaves the queue and the row as they are. -/
theorem reaches_next (hs : s.Idle id e) (hr : e.status = .running)
    (hw : s.site.queue.waiting = c :: rest) (hc : c.id = id → c.status = .init) :
    ∃ t, Reaches limits Event.KeepsExecutors s t ∧ t.Idle id e ∧ t.site.queue.waiting = rest := by
  obtain ⟨-, f, hf, -⟩ := hs.valid.site.backs c (by simp [hw])
  by_cases heq : f.status = c.status
  · -- a copy of another row, which is dispatched; the row that runs has no part in it
    have hne : c.id ≠ id := by
      intro hid
      obtain rfl : e = f := by
        have := hs.row
        rw [← hid, hf] at this
        exact (Option.some.inj this).symm
      rw [hc hid, hr] at heq
      cases heq
    obtain ⟨t, h, a, n, hreach, hd, hstore, hexec, hrest, hrec⟩ :=
      reaches_attempts limits hs hw hf heq
    have hok : t.site.answer .answering (.call (.submit a c.projectId c.id c.flowKind)) =
        ((.ok () : Except CallError Unit), t.site) := rfl
    have htrue : (t.site.answer .answering
        (.store (.transition c.id c.status (.runningOn a.display)))).1 = .ok true := by
      have := Dispatch.transition_fst (hstore ▸ hf) .answering c.status (.runningOn a.display)
      rwa [decide_eq_true heq] at this
    have hsubmit := hreach.ask hd (Dispatch.attempts_succ c a n) .answering (by simp) hok
    have hcommit := hsubmit.ask rfl (Dispatch.commit_eq c a) .answering (by simp)
      (Prod.ext htrue rfl)
    have hreach := hcommit.done rfl
    refine ⟨_, hreach, ⟨hreach.valid hs.valid, rfl, hrec, ?_, ?_⟩, hrest⟩
    · change t.site.registry.executors ≠ []
      rw [hexec]
      exact hs.executors
    · refine execution?_of_answer (x := ⟨_, _⟩) (Prod.ext htrue rfl) (hstore ▸ hs.row) ?_
      intro expected p hp
      simp only [Request.store.injEq, StoreRequest.transition.injEq] at hp
      exact absurd hp.1 hne
  · exact reaches_dropped hs hw hf heq

/-- **The queue is worked off down to a copy** while every executor answers. -/
theorem reaches_head (hs : s.Idle id e) (hr : e.status = .running) {front : List Execution}
    (hw : s.site.queue.waiting = front ++ c :: rest)
    (hfront : ∀ b ∈ front, b.id = id → b.status = .init) :
    ∃ t, Reaches limits Event.KeepsExecutors s t ∧ t.Idle id e ∧
      t.site.queue.waiting = c :: rest := by
  -- on the copies in front, each of which is dispatched or dropped
  induction front generalizing s with
  | nil => exact ⟨s, .refl s, hs, hw⟩
  | cons b front ih =>
    obtain ⟨t, hreach, ht, hwt⟩ := reaches_next hs hr hw (hfront b List.mem_cons_self)
    obtain ⟨u, hreach', hu⟩ := ih ht hwt fun d hd => hfront d (List.mem_cons_of_mem _ hd)
    exact ⟨u, hreach.trans hreach', hu⟩

theorem upsert_ne_nil (a : Address) (change : Executor → Executor) (new : Executor)
    (es : List Executor) : Registry.upsert a change new es ≠ [] := by
  cases es with
  | nil => simp [Registry.upsert]
  | cons e es =>
    unfold Registry.upsert
    split
    · simp
    · split <;> simp

/-- An executor registers. -/
theorem reaches_idle (limits : DispatchLimits) (hv : s.Valid) (hd : s.dispatch = none)
    (hrec : s.recovery = none) (he : s.site.store.execution? id = some e) :
    ∃ t, Reaches limits Event.KeepsExecutors s t ∧ t.Idle id e ∧
      t.site.queue = s.site.queue := by
  let job : Job := .registerExecutor "executor" 1 ⟨0, 0⟩
  let k := Thread.start job
  have haddress : Master.executorAddress "executor" 1 = .ok ⟨"executor", 1⟩ := by decide
  have hrun : k.rest = .ask (.register ⟨"executor", 1⟩ ⟨0, 0⟩) fun _ => .done (.ok ()) := by
    change ((Operation.ofExcept (Master.executorAddress "executor" 1) >>= fun a =>
      Operation.request (.register a ⟨0, 0⟩)) : Operation Unit).run = _
    rw [haddress]
    rfl
  have hbegin : step limits (.begin job) s =
      some (.began job, { s with threads := s.threads ++ [k] }) := by
    simp [step, hrec, k]
  have hwork : step limits (.work s.threads.length .answering)
      { s with threads := s.threads ++ [k] } =
      some (.asked job ⟨.register ⟨"executor", 1⟩ ⟨0, 0⟩, ()⟩,
        { s with
          site := { s.site with registry := s.site.registry.register ⟨"executor", 1⟩ ⟨0, 0⟩ }
          threads := (s.threads ++ [k]).set s.threads.length
            ⟨job, [⟨.register ⟨"executor", 1⟩ ⟨0, 0⟩, ()⟩], .done (.ok ())⟩ }) := by
    simp [step, hrun, Interaction.advance, Site.answer]
    exact ⟨rfl, rfl⟩
  have hreach := (Reaches.of_step (A := Event.KeepsExecutors) hbegin fun _ hb => hb).trans
    (Reaches.of_step hwork fun _ hb => hb)
  exact ⟨_, hreach, ⟨hreach.valid hv, hd, hrec, upsert_ne_nil _ _ _ _, he⟩, rfl⟩

end Draining

/-! ## When an execution is handed out again -/

section HandedOut

variable {c e : Execution} {id : Int} {w : Option String} {b : Address}

/-- **A running row with a copy in `RUNNING` in the queue is handed out again**: its copy comes up,
and its row still has the status of the copy. -/
theorem not_isFinal (hv : s.Valid) (hd : s.dispatch = none) (hrec : s.recovery = none)
    (he : s.site.store.execution? id = some e) (hr : e.status = .running)
    (hc : ¬ ∀ d ∈ s.site.queue.waiting, d.id = id → d.status = .init)
    (hA : ∀ ev : Event, ev.KeepsExecutors → A ev) : ¬ IsFinal limits s id w A := by
  intro hfinal
  -- the first copy in `RUNNING`, and what is in front of it
  obtain ⟨c, hfind⟩ : ∃ c, s.site.queue.waiting.find?
      (fun d => decide (d.id = id ∧ d.status ≠ .init)) = some c := by
    rw [← Option.isSome_iff_exists, List.find?_isSome]
    refine Decidable.byContradiction fun hnone => hc fun d hd hid => ?_
    refine Decidable.byContradiction fun hi => hnone ⟨d, hd, by simp [hid, hi]⟩
  obtain ⟨hcopy, front, rest, hw, hfront⟩ := List.find?_eq_some_iff_append.mp hfind
  obtain ⟨hid, hi⟩ : c.id = id ∧ c.status ≠ .init := by simpa using hcopy
  have hrunning : c.status = .running :=
    (hv.site.backs c (by simp [hw])).1.resolve_left hi
  have hfront : ∀ d ∈ front, d.id = id → d.status = .init := by
    intro d hd hid
    simpa [hid] using hfront d hd
  -- an executor registers, the queue is worked off down to the copy, and the copy is submitted
  obtain ⟨t, hst, ht, hqueue⟩ := reaches_idle limits hv hd hrec he
  obtain ⟨u, htu, hu, hwu⟩ := reaches_head ht hr (by rw [hqueue, hw]) hfront
  obtain ⟨v, h, a, n, huv, hdispatch, -⟩ :=
    reaches_attempts limits hu hwu (hid ▸ hu.row) (hr.trans hrunning.symm)
  obtain ⟨ms, rfl, hms⟩ := (hst.trans htu).trans huv
  have hsubmit : step limits (.dispatch .answering) (after limits ms s) =
      some (.dispatchAsked c ⟨.call (.submit a c.projectId c.id c.flowKind), .ok ()⟩,
        { after limits ms s with
          dispatch := some ⟨c, h ++ [⟨.call (.submit a c.projectId c.id c.flowKind), .ok ()⟩],
            Dispatch.commit c a⟩ }) := by
    simp [step, hdispatch, Dispatch.attempts_succ, Interaction.advance, Site.answer,
      Outside.answering]
  have htrace : trace limits (ms ++ [.dispatch .answering]) s = trace limits ms s ++
      [.dispatchAsked c ⟨.call (.submit a c.projectId c.id c.flowKind), .ok ()⟩] := by
    rw [trace_append]
    simp [trace, hsubmit]
  have hseen : ∀ ev ∈ trace limits ([] ++ (ms ++ [.dispatch .answering])) s, A ev := by
    rw [List.nil_append, htrace, List.forall_mem_append]
    refine ⟨fun ev hev => hA ev (hms ev hev), fun ev hev => ?_⟩
    obtain rfl := List.mem_singleton.mp hev
    exact hA _ fun _ hb => hb
  have hnone := (hfinal [] (ms ++ [.dispatch .answering]) hseen).2 hd
  rw [after, htrace] at hnone
  exact hnone _ (List.mem_append_right _ List.mem_cons_self) (decide_eq_true hid)

/-- **When an execution that has been dispatched is not handed out again** while its executor is in
place: exactly if it is finished or no copy of it in `RUNNING` is left in the queue. -/
theorem handed_out_once_iff (limits : DispatchLimits) (store : Store) (ms : List Move)
    (h : (trace limits ms (start store)).getLast? =
      some (.dispatchEnded c (some (.dispatched b)))) :
    ∃ e, (after limits ms (start store)).site.store.execution? c.id = some e ∧
      e.worker = some b.display ∧
      (IsFinal limits (after limits ms (start store)) c.id (some b.display)
          (fun ev => ¬ ev.GivesUp b) ↔
        e.status.isFinished = true ∨
          ∀ d ∈ (after limits ms (start store)).site.queue.waiting, d.id = c.id →
            d.status = .init) := by
  obtain ⟨ks, m, hstep⟩ := exists_step_of_getLast? h
  have hv := valid_after limits store ks
  have hv' := valid_after limits store ms
  generalize after limits ms (start store) = t at *
  generalize after limits ks (start store) = s at *
  cases step_cases hstep with
  | @finishDispatch d r o hd hr =>
    obtain ⟨f, hf, hi, hw⟩ := ((hv.dispatch d hd).finish hv.site hr).2 b rfl
    refine ⟨f, hf, hw, fun hfinal => ?_, fun hstate => ?_⟩
    · -- otherwise the row runs and a copy in `RUNNING` is left
      rw [or_iff_not_imp_left]
      intro hfin
      refine Decidable.byContradiction fun hcopy => ?_
      have hrec : s.recovery = none := by
        cases hrec : s.recovery with
        | none => rfl
        | some k => simp [(hv.recovery k hrec).2.2.2] at hd
      have hrunning : f.status = .running := by
        rcases (hv.site.store.lifecycle f (Store.execution?_mem hf)).status_cases with h | h | h
        · exact absurd h hi
        · exact h
        · exact absurd h hfin
      exact not_isFinal hv' rfl hrec hf hrunning hcopy (fun ev hev => hev b) hfinal
    · refine Settled.isFinal ⟨f, hf, hi, hw, hstate.imp_right fun hcopy => ?_⟩ hv'
      exact ⟨.of_idle hcopy rfl, fun ev hev hloss => hev (.of_loses hloss)⟩

/-- An executor is given up, comes back with the execution that it holds, and is given up again;
then the execution is dispatched to another one. -/
def lostTwice : List Move :=
  Move.alone (.registerExecutor "a" 9000 ⟨0, 0⟩) ++
  Move.alone (.execFlow 10 1 ⟨0, 0⟩ Settings.none) ++ Move.dispatchAlone .answering ++
  Move.alone (.reportExecutor "a" 9000 ⟨0, 0⟩ [1]) ++
  Move.alone (.execFlow 10 1 ⟨0, 0⟩ Settings.none) ++ Move.dispatchAlone .silent ++
  Move.alone (.reportExecutor "a" 9000 ⟨0, 0⟩ [1]) ++ Move.dispatchAlone .silent ++
  Move.alone (.registerExecutor "b" 9000 ⟨0, 0⟩) ++ Move.dispatchAlone .answering

set_option maxRecDepth 100000 in
/-- An execution that has been lost twice is handed out again while its executor is in place. -/
theorem handed_out_once_iff_lostTwice :
    (∃ c, c.id = 1 ∧ (trace ⟨1, 0⟩ lostTwice (start .oneFlow)).getLast? =
      some (.dispatchEnded c (some (.dispatched ⟨"b", 9000⟩)))) ∧
    ¬ IsFinal ⟨1, 0⟩ (after ⟨1, 0⟩ lostTwice (start .oneFlow)) 1
      (some (Address.display ⟨"b", 9000⟩)) (fun ev => ¬ ev.GivesUp ⟨"b", 9000⟩) := by
  obtain ⟨c, hid, hlast⟩ : ∃ c, c.id = 1 ∧ (trace ⟨1, 0⟩ lostTwice (start .oneFlow)).getLast? =
      some (.dispatchEnded c (some (.dispatched ⟨"b", 9000⟩))) := ⟨_, rfl, rfl⟩
  obtain ⟨e, he, -, hiff⟩ := handed_out_once_iff ⟨1, 0⟩ .oneFlow lostTwice hlast
  rw [hid] at he hiff
  refine ⟨⟨c, hid, hlast⟩, fun hfinal => ?_⟩
  have hrow : ((after ⟨1, 0⟩ lostTwice (start .oneFlow)).site.store.execution? 1).all
      (fun e => !e.status.isFinished) = true := rfl
  have hcopy : ¬ ∀ d ∈ (after ⟨1, 0⟩ lostTwice (start .oneFlow)).site.queue.waiting,
      d.id = 1 → d.status = .init := by decide +kernel
  rw [he] at hrow
  rcases hiff.mp hfinal with hfin | hqueue
  · simp [hfin] at hrow
  · exact hcopy hqueue

end HandedOut

end System

end WorkflowScheduler
