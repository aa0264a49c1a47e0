import Mathlib.Data.List.Induction
import WorkflowScheduler.Proofs.Dispatching
import WorkflowScheduler.Proofs.Serving

/-!
# Runs of a master

A master carries on any number of operations and at most one dispatch. Between two requests of one
of them any other may make its own, executors may record the end of what they run, and the master
may be restarted: then everything but the store is lost, and nothing is served until what waits is
queued again. A run is a list of moves; a move that is not possible does nothing.

## Main definitions

* `System`, `System.start`: a master with what it is carrying on
* `Move`, `Event`, `System.step`: one step, and what can be seen of it
* `System.after`, `System.trace`: a run from a state
* `System.Step`: the steps case by case
* `System.Valid`: everything that is carried on keeps to its terms

## Main results

* `System.step_cases`: a step is one of the cases
* `System.run_induction`: what every step preserves holds along a run
* `System.trace_induction`: the same of a state together with what has been seen
* `System.countP_le_one`: what closes something for good is seen once at most
* `System.Step.valid`: a step keeps a system valid and leads its site on
* `System.valid_after`: every run from the start stays valid
-/

namespace WorkflowScheduler

/-! ## Steps -/

/-- An operation that is carried on: what it has asked, and what is left of it. -/
structure Thread where
  job : Job
  asked : History
  rest : Program (Except MasterError Unit)

/-- A job at its beginning. -/
def Thread.start (j : Job) : Thread :=
  ⟨j, [], j.operation.run⟩

/-- A dispatch that is carried on. -/
structure Dispatching where
  copy : Execution
  asked : History
  rest : Program DispatchOutcome

/-- The dispatch of a copy at its beginning. -/
def Dispatching.start (limits : DispatchLimits) (e : Execution) : Dispatching :=
  ⟨e, [], Dispatch.run limits e⟩

/-- **A master with what it is carrying on.** There is a recovery between a restart and its end. -/
structure System where
  site : Site
  threads : List Thread
  dispatch : Option Dispatching
  recovery : Option Thread

/-- What may happen next. -/
inductive Move where
  /-- The master is asked for a job. -/
  | begin (job : Job)
  /-- One of the operations makes its next request, or ends. -/
  | work (i : Nat) (o : Outside)
  /-- The dispatcher takes the oldest copy out of the queue. -/
  | take
  /-- The dispatch makes its next request, or ends. -/
  | dispatch (o : Outside)
  /-- An executor records the end of a running execution. -/
  | finish (id : Int) (s : Status) (now : Instant)
  | restart
  /-- The recovery makes its next request, or ends. -/
  | recover (o : Outside)

/-- What can be seen of a step. -/
inductive Event where
  | began (job : Job)
  | asked (job : Job) (x : Exchange Request.Answer)
  | ended (job : Job) (r : Option (Except MasterError Unit))
  | took (e : Execution)
  | dispatchAsked (e : Execution) (x : Exchange Request.Answer)
  | dispatchEnded (e : Execution) (o : Option DispatchOutcome)
  | finished (id : Int) (s : Status)
  | restarted
  | recoveryAsked (x : Exchange Request.Answer)
  | recovered

/-- The request that can be seen of a step, with its answer. -/
def Event.exchange? : Event → Option (Exchange Request.Answer)
  | .asked _ x => some x
  | .dispatchAsked _ x => some x
  | .recoveryAsked x => some x
  | _ => none

/-- Executors that accept every call. -/
def Outside.answering : Outside :=
  ⟨⟨0, 0⟩, .ok ()⟩

/-- Executors that cannot be reached. -/
def Outside.silent : Outside :=
  ⟨⟨0, 0⟩, .error (.transport "connection refused")⟩

/-- A job while nothing else is carried on; it ends if it makes at most four requests. -/
def Move.alone (job : Job) : List Move :=
  .begin job :: List.replicate 5 (.work 0 .answering)

/-- A dispatch while nothing else goes on; it ends if it makes at most eleven requests. -/
def Move.dispatchAlone (o : Outside) : List Move :=
  .take :: List.replicate 12 (.dispatch o)

/-- A store with one flow and no execution. -/
def Store.oneFlow : Store :=
  { Store.empty with workflows := [
      { id := 1, projectId := 10, name := "flow", ownerId := 42, flowKind := .short, timeout := 0,
        workflowData := "" }] }

namespace System

/-- A master that starts on a store without executions. -/
def start (store : Store) : System :=
  ⟨⟨{ store with rows := [], lastId := 0 }, .empty, .empty, .empty⟩, [], none, none⟩

/-- A master after a restart: only the store is left. -/
def restarted (s : System) : System :=
  ⟨⟨s.site.store, .empty, .empty, .empty⟩, [], none, some (.start .recoverPending)⟩

/-- **One step**, with what can be seen of it, if the move is possible. -/
def step (limits : DispatchLimits) : Move → System → Option (Event × System)
  | .begin job, s =>
    match s.recovery with
    | some _ => none
    | none => some (.began job, { s with threads := s.threads ++ [.start job] })
  | .work i o, s =>
    match s.threads[i]? with
    | none => none
    | some t =>
      match t.rest.advance (Site.answer o) s.site with
      | .inl (x, rest, site) =>
        some (.asked t.job x,
          { s with site := site, threads := s.threads.set i ⟨t.job, t.asked ++ [x], rest⟩ })
      | .inr r => some (.ended t.job r, { s with threads := s.threads.eraseIdx i })
  | .take, s =>
    match s.recovery, s.dispatch, s.site.queue.receive with
    | none, none, (some e, queue) =>
      some (.took e,
        { s with site := { s.site with queue := queue }, dispatch := some (.start limits e) })
    | _, _, _ => none
  | .dispatch o, s =>
    match s.dispatch with
    | none => none
    | some d =>
      match d.rest.advance (Site.answer o) s.site with
      | .inl (x, rest, site) =>
        some (.dispatchAsked d.copy x,
          { s with site := site, dispatch := some ⟨d.copy, d.asked ++ [x], rest⟩ })
      | .inr r => some (.dispatchEnded d.copy r, { s with dispatch := none })
  | .finish id status now, s =>
    match s.site.store.execution? id with
    | none => none
    | some e =>
      if e.status = .running ∧ status.isFinished = true then
        some (.finished id status,
          { s with site := { s.site with store := (s.site.store.setStatus now id status).2 } })
      else none
  | .restart, s => some (.restarted, s.restarted)
  | .recover o, s =>
    match s.recovery with
    | none => none
    | some t =>
      match t.rest.advance (Site.answer o) s.site with
      | .inl (x, rest, site) =>
        some (.recoveryAsked x,
          { s with site := site, recovery := some ⟨t.job, t.asked ++ [x], rest⟩ })
      | .inr _ => some (.recovered, { s with recovery := none })

/-- **The state after a run.** -/
def after (limits : DispatchLimits) : List Move → System → System
  | [], s => s
  | m :: ms, s =>
    match step limits m s with
    | none => after limits ms s
    | some (_, t) => after limits ms t

/-- **What can be seen of a run.** -/
def trace (limits : DispatchLimits) : List Move → System → List Event
  | [], _ => []
  | m :: ms, s =>
    match step limits m s with
    | none => trace limits ms s
    | some (e, t) => e :: trace limits ms t

variable {limits : DispatchLimits} {s : System}

theorem after_append (ms ns : List Move) (s : System) :
    after limits (ms ++ ns) s = after limits ns (after limits ms s) := by
  induction ms generalizing s with
  | nil => rfl
  | cons m ms ih =>
    simp only [List.cons_append, after]
    split <;> exact ih _

theorem trace_append (ms ns : List Move) (s : System) :
    trace limits (ms ++ ns) s = trace limits ms s ++ trace limits ns (after limits ms s) := by
  induction ms generalizing s with
  | nil => rfl
  | cons m ms ih =>
    simp only [List.cons_append, after, trace]
    split
    · exact ih _
    · simp [ih]

/-- **The steps, case by case.** -/
inductive Step (limits : DispatchLimits) (s : System) : Event → System → Prop where
  | begin (job : Job) (hr : s.recovery = none) :
      Step limits s (.began job) { s with threads := s.threads ++ [.start job] }
  | ask {i : Nat} {t : Thread} {x : Exchange Request.Answer}
      {rest : Program (Except MasterError Unit)} {site : Site} (o : Outside)
      (ht : s.threads[i]? = some t)
      (hx : t.rest.advance (Site.answer o) s.site = .inl (x, rest, site)) :
      Step limits s (.asked t.job x)
        { s with site := site, threads := s.threads.set i ⟨t.job, t.asked ++ [x], rest⟩ }
  | finishJob {i : Nat} {t : Thread} {r : Option (Except MasterError Unit)} (o : Outside)
      (ht : s.threads[i]? = some t) (hr : t.rest.advance (Site.answer o) s.site = .inr r) :
      Step limits s (.ended t.job r) { s with threads := s.threads.eraseIdx i }
  | take {e : Execution} {queue : Queue} (hr : s.recovery = none) (hd : s.dispatch = none)
      (he : s.site.queue.receive = (some e, queue)) :
      Step limits s (.took e)
        { s with site := { s.site with queue := queue }, dispatch := some (.start limits e) }
  | dispatch {d : Dispatching} {x : Exchange Request.Answer} {rest : Program DispatchOutcome}
      {site : Site} (o : Outside) (hd : s.dispatch = some d)
      (hx : d.rest.advance (Site.answer o) s.site = .inl (x, rest, site)) :
      Step limits s (.dispatchAsked d.copy x)
        { s with site := site, dispatch := some ⟨d.copy, d.asked ++ [x], rest⟩ }
  | finishDispatch {d : Dispatching} {r : Option DispatchOutcome} (o : Outside)
      (hd : s.dispatch = some d) (hr : d.rest.advance (Site.answer o) s.site = .inr r) :
      Step limits s (.dispatchEnded d.copy r) { s with dispatch := none }
  | finish {id : Int} {e : Execution} {status : Status} (now : Instant)
      (he : s.site.store.execution? id = some e) (hr : e.status = .running)
      (hs : status.isFinished = true) :
      Step limits s (.finished id status)
        { s with site := { s.site with store := (s.site.store.setStatus now id status).2 } }
  | restart : Step limits s .restarted s.restarted
  | recover {t : Thread} {x : Exchange Request.Answer} {rest : Program (Except MasterError Unit)}
      {site : Site} (o : Outside) (ht : s.recovery = some t)
      (hx : t.rest.advance (Site.answer o) s.site = .inl (x, rest, site)) :
      Step limits s (.recoveryAsked x)
        { s with site := site, recovery := some ⟨t.job, t.asked ++ [x], rest⟩ }
  | finishRecovery {t : Thread} {r : Option (Except MasterError Unit)} (o : Outside)
      (ht : s.recovery = some t) (hr : t.rest.advance (Site.answer o) s.site = .inr r) :
      Step limits s .recovered { s with recovery := none }

/-- **A step is one of the cases.** -/
theorem step_cases {m : Move} {s t : System} {e : Event} (h : step limits m s = some (e, t)) :
    Step limits s e t := by
  cases m with
  | begin job =>
    simp only [step] at h
    split at h
    · cases h
    · next hr => cases h; exact .begin job hr
  | work i o =>
    simp only [step] at h
    split at h
    · cases h
    · next t ht =>
      split at h
      · next hx => cases h; exact .ask o ht hx
      · next hr => cases h; exact .finishJob o ht hr
  | take =>
    simp only [step] at h
    split at h
    · next hr hd he => cases h; exact .take hr hd he
    · cases h
  | dispatch o =>
    simp only [step] at h
    split at h
    · cases h
    · next d hd =>
      split at h
      · next hx => cases h; exact .dispatch o hd hx
      · next hr => cases h; exact .finishDispatch o hd hr
  | finish id status now =>
    simp only [step] at h
    split at h
    · cases h
    · next e he =>
      split at h
      · next hs => cases h; exact .finish now he hs.1 hs.2
      · cases h
  | restart => cases h; exact .restart
  | recover o =>
    simp only [step] at h
    split at h
    · cases h
    · next t ht =>
      split at h
      · next hx => cases h; exact .recover o ht hx
      · next hr => cases h; exact .finishRecovery o ht hr

/-- The request that can be seen of a step has been answered by its site. -/
theorem Step.answered {t : System} {e : Event} {x : Exchange Request.Answer} (h : Step limits s e t)
    (hx : e.exchange? = some x) : ∃ o, s.site.answer o x.1 = (x.2, t.site) := by
  cases h with
  | ask o ht ha =>
    cases hx
    exact ⟨o, Interaction.answer_of_advance ha⟩
  | dispatch o hd ha =>
    cases hx
    exact ⟨o, Interaction.answer_of_advance ha⟩
  | recover o ht ha =>
    cases hx
    exact ⟨o, Interaction.answer_of_advance ha⟩
  | _ => cases hx

/-- An operation that has been seen to end had nothing more to ask. -/
theorem Step.of_ended {t : System} {job : Job} {r : Option (Except MasterError Unit)}
    (h : Step limits s (.ended job r) t) :
    ∃ k ∈ s.threads, k.job = job ∧ ∃ o, k.rest.advance (Site.answer o) s.site = .inr r := by
  cases h with
  | finishJob o hk hr => exact ⟨_, List.mem_of_getElem? hk, rfl, o, hr⟩

/-- A dispatch that has been seen to end had nothing more to ask. -/
theorem Step.of_dispatchEnded {t : System} {c : Execution} {r : Option DispatchOutcome}
    (h : Step limits s (.dispatchEnded c r) t) :
    ∃ d, s.dispatch = some d ∧ d.copy = c ∧
      ∃ o, d.rest.advance (Site.answer o) s.site = .inr r := by
  cases h with
  | finishDispatch o hd hr => exact ⟨_, hd, rfl, o, hr⟩

/-- **The last step of a run**: the moves after it are not possible. -/
theorem exists_move_of_getLast? {ms : List Move} {ev : Event}
    (h : (trace limits ms s).getLast? = some ev) :
    ∃ ks m ls, ms = ks ++ m :: ls ∧
      step limits m (after limits ks s) = some (ev, after limits ms s) ∧
      trace limits ls (after limits ms s) = [] := by
  -- from the end of the run: moves that are not possible show nothing and are passed over
  induction ms using List.reverseRecOn with
  | nil => simp [trace] at h
  | append_singleton ms m ih =>
    rw [trace_append] at h
    rw [after_append]
    cases hm : step limits m (after limits ms s) with
    | none =>
      simp only [trace, after, hm, List.append_nil] at h ⊢
      obtain ⟨ks, n, ls, hms, hn, hls⟩ := ih h
      have hafter : after limits ls (after limits ms s) = after limits ms s := by
        have hsplit := @after_append limits ks (n :: ls) s
        rw [← hms] at hsplit
        simp only [after, hn] at hsplit
        exact hsplit.symm
      refine ⟨ks, n, ls ++ [m], by rw [hms, List.append_assoc]; rfl, hn, ?_⟩
      rw [trace_append, hls, hafter]
      simp only [trace, hm, List.append_nil]
    | some p =>
      obtain ⟨ev', t⟩ := p
      simp only [trace, after, hm, List.getLast?_append, List.getLast?_singleton,
        Option.some_or, Option.some.injEq] at h ⊢
      exact ⟨ms, m, [], rfl, by rw [hm, h], rfl⟩

/-- The last step of a run. -/
theorem exists_step_of_getLast? {ms : List Move} {ev : Event}
    (h : (trace limits ms s).getLast? = some ev) :
    ∃ ks m, step limits m (after limits ks s) = some (ev, after limits ms s) := by
  obtain ⟨ks, m, -, -, hm, -⟩ := exists_move_of_getLast? h
  exact ⟨ks, m, hm⟩

/-- **What can be seen of a run is seen at one of its moves.** -/
theorem exists_move_of_mem {ms : List Move} {ev : Event} {s : System} (h : ev ∈ trace limits ms s) :
    ∃ ks m ls t, ms = ks ++ m :: ls ∧ step limits m (after limits ks s) = some (ev, t) ∧
      after limits ls t = after limits ms s := by
  induction ms generalizing s with
  | nil => simp [trace] at h
  | cons m ms ih =>
    simp only [trace] at h
    simp only [after]
    cases hm : step limits m s with
    | none =>
      simp only [hm] at h ⊢
      obtain ⟨ks, n, ls, t, rfl, hn, hls⟩ := ih h
      exact ⟨m :: ks, n, ls, t, rfl, by simp only [after, hm, hn], hls⟩
    | some p =>
      obtain ⟨e, t⟩ := p
      simp only [hm, List.mem_cons] at h ⊢
      rcases h with rfl | h
      · exact ⟨[], m, ms, t, rfl, hm, rfl⟩
      · obtain ⟨ks, n, ls, u, rfl, hn, hls⟩ := ih h
        exact ⟨m :: ks, n, ls, u, rfl, by simp only [after, hm, hn], hls⟩

/-- What can be seen of a run is seen at one of its steps. -/
theorem exists_step_of_mem {ms : List Move} {ev : Event} {s : System} (h : ev ∈ trace limits ms s) :
    ∃ ks m t ls, step limits m (after limits ks s) = some (ev, t) ∧
      after limits ls t = after limits ms s := by
  obtain ⟨ks, m, ls, t, -, hm, hls⟩ := exists_move_of_mem h
  exact ⟨ks, m, t, ls, hm, hls⟩

/-- **What every step preserves holds along a run**, and what every step shows is seen all along it,
as long as what is seen is as assumed. -/
theorem run_induction (limits : DispatchLimits) {P : System → Prop} {A R : Event → Prop}
    (hstep : ∀ {s e t}, P s → Step limits s e t → A e → P t ∧ R e) (ms : List Move) {s : System}
    (hs : P s) (ha : ∀ e ∈ trace limits ms s, A e) :
    P (after limits ms s) ∧ ∀ e ∈ trace limits ms s, R e := by
  induction ms generalizing s with
  | nil => exact ⟨hs, by simp [trace]⟩
  | cons m ms ih =>
    simp only [trace, after] at ha ⊢
    cases hm : step limits m s with
    | none =>
      simp only [hm] at ha ⊢
      exact ih hs ha
    | some p =>
      obtain ⟨e, t⟩ := p
      simp only [hm, List.forall_mem_cons] at ha ⊢
      obtain ⟨ht, he⟩ := hstep hs (step_cases hm) ha.1
      obtain ⟨hafter, hrest⟩ := ih ht ha.2
      exact ⟨hafter, he, hrest⟩

/-- What every step preserves holds after a run. -/
theorem after_induction (limits : DispatchLimits) {P : System → Prop}
    (hstep : ∀ {s e t}, P s → Step limits s e t → P t) (ms : List Move) {s : System} (hs : P s) :
    P (after limits ms s) :=
  (run_induction limits (fun hs h (_ : True) => ⟨hstep hs h, trivial⟩) ms hs fun _ _ => trivial).1

/-- What every step preserves of a state and of what has been seen before it holds after a run. -/
theorem trace_induction (limits : DispatchLimits) {P : List Event → System → Prop}
    (hstep : ∀ {tr s e t}, P tr s → Step limits s e t → P (tr ++ [e]) t) (ms : List Move)
    {tr : List Event} {s : System} (hs : P tr s) :
    P (tr ++ trace limits ms s) (after limits ms s) := by
  induction ms generalizing tr s with
  | nil =>
    rw [trace, List.append_nil]
    exact hs
  | cons m ms ih =>
    simp only [trace, after]
    cases hm : step limits m s with
    | none => exact ih hs
    | some p =>
      obtain ⟨e, t⟩ := p
      have hafter := ih (hstep hs (step_cases hm))
      rwa [List.append_assoc] at hafter

/-- **What closes something for good is seen once at most**, and not at all where it is closed: `O`
holds while it is open. -/
theorem countP_le_one (limits : DispatchLimits) {P O : System → Prop} {A : Event → Prop}
    {p : Event → Bool} (hstep : ∀ {s e t}, P s → Step limits s e t → A e →
      P t ∧ (O t → O s) ∧ (p e = true → O s ∧ ¬ O t)) (ms : List Move) {s : System}
    (hs : P s) (ha : ∀ e ∈ trace limits ms s, A e) :
    (trace limits ms s).countP p ≤ 1 ∧ (¬ O s → (trace limits ms s).countP p = 0) := by
  induction ms generalizing s with
  | nil => exact ⟨Nat.zero_le 1, fun _ => rfl⟩
  | cons m ms ih =>
    simp only [trace] at ha ⊢
    cases hm : step limits m s with
    | none =>
      simp only [hm] at ha ⊢
      exact ih hs ha
    | some q =>
      obtain ⟨e, t⟩ := q
      simp only [hm, List.forall_mem_cons] at ha ⊢
      obtain ⟨ht, hopen, hp⟩ := hstep hs (step_cases hm) ha.1
      obtain ⟨hle, hzero⟩ := ih ht ha.2
      by_cases hpe : p e = true
      · -- it is closed by this step, so nothing of the kind follows
        rw [List.countP_cons_of_pos hpe, hzero (hp hpe).2]
        exact ⟨Nat.le_refl 1, fun hs => absurd (hp hpe).1 hs⟩
      · rw [List.countP_cons_of_neg hpe]
        exact ⟨hle, fun hs => hzero fun ht => hs (hopen ht)⟩

end System

/-! ## Valid systems -/

/-- An operation keeps to its terms from here on. -/
def Thread.IsKept (t : Thread) (s : Site) : Prop :=
  t.rest.Keeps Master.terms t.job.Done t.asked s

/-- A dispatch keeps to its terms from here on, and the store backs its copy. -/
structure Dispatching.IsKept (d : Dispatching) (s : Site) : Prop where
  backs : s.store.Backs d.copy
  keeps : d.rest.Keeps (Dispatch.terms d.copy) (Dispatch.Done d.copy) d.asked s

namespace System

/-- **A valid system**: its site is sound, and whatever is carried on keeps to its terms. While a
recovery goes on there is nothing else. -/
structure Valid (s : System) : Prop where
  site : s.site.Sound
  threads : ∀ t ∈ s.threads, t.IsKept s.site
  dispatch : ∀ d, s.dispatch = some d → d.IsKept s.site
  recovery : ∀ t, s.recovery = some t →
    t.IsKept s.site ∧ t.job = .recoverPending ∧ s.threads = [] ∧ s.dispatch = none

end System

theorem Thread.isKept_start (j : Job) (s : Site) : (start j).IsKept s :=
  j.keeps s

theorem Thread.IsKept.progress {t : Thread} {s u : Site} (h : t.IsKept s) (hsu : s.Progress u) :
    t.IsKept u :=
  Interaction.Keeps.rely h hsu

/-- **What an operation asks is served**, and it is kept after it. -/
theorem Thread.IsKept.advance {t : Thread} {s site : Site} {o : Outside}
    {x : Exchange Request.Answer} {rest : Program (Except MasterError Unit)} (h : t.IsKept s)
    (hs : s.Sound) (hx : t.rest.advance (Site.answer o) s = .inl (x, rest, site)) :
    (∀ e, owed t.asked = some e → x.1 = .push e) ∧ x.1.Served s ∧
      s.answer o x.1 = (x.2, site) ∧ (Thread.mk t.job (t.asked ++ [x]) rest).IsKept site := by
  obtain ⟨⟨howed, hserved⟩, hkeeps⟩ :=
    Interaction.Keeps.advance (T := Master.terms) (o := o) h (.refl hs) hx
  exact ⟨howed, hserved, Interaction.answer_of_advance hx, hkeeps⟩

theorem Thread.IsKept.finish {t : Thread} {s : Site} {o : Outside}
    {r : Option (Except MasterError Unit)} (h : t.IsKept s) (hs : s.Sound)
    (hr : t.rest.advance (Site.answer o) s = .inr r) : t.job.Done t.asked r s :=
  Interaction.Keeps.finish (T := Master.terms) (o := o) h (.refl hs) hr

theorem Dispatching.isKept_start (limits : DispatchLimits) {e : Execution} {s : Site}
    (h : s.store.Backs e) : (start limits e).IsKept s :=
  ⟨h, Dispatch.run_keeps limits h⟩

theorem Dispatching.IsKept.calm {d : Dispatching} {s u : Site} (h : d.IsKept s) (hsu : s.Calm u) :
    d.IsKept u :=
  ⟨h.backs.mono hsu.progress.leadsTo, h.keeps.rely hsu⟩

/-- **What a dispatch asks is allowed to it**, and it is kept after it. -/
theorem Dispatching.IsKept.advance {d : Dispatching} {s site : Site} {o : Outside}
    {x : Exchange Request.Answer} {rest : Program DispatchOutcome} (h : d.IsKept s)
    (hs : s.Sound) (hx : d.rest.advance (Site.answer o) s = .inl (x, rest, site)) :
    x.1.Dispatches d.copy d.asked s ∧ s.answer o x.1 = (x.2, site) ∧
      (Dispatching.mk d.copy (d.asked ++ [x]) rest).IsKept site := by
  obtain ⟨hmay, hkeeps⟩ :=
    Interaction.Keeps.advance (T := Dispatch.terms d.copy) (o := o) h.keeps (.refl hs) hx
  have hanswer := Interaction.answer_of_advance hx
  have hbacks := h.backs.mono (Site.answer_leadsTo (hmay.fits h.backs) o)
  rw [hanswer] at hbacks
  exact ⟨hmay, hanswer, hbacks, hkeeps⟩

theorem Dispatching.IsKept.finish {d : Dispatching} {s : Site} {o : Outside}
    {r : Option DispatchOutcome} (h : d.IsKept s) (hs : s.Sound)
    (hr : d.rest.advance (Site.answer o) s = .inr r) : Dispatch.Done d.copy d.asked r s :=
  Interaction.Keeps.finish (T := Dispatch.terms d.copy) (o := o) h.keeps (.refl hs) hr

namespace System

variable {limits : DispatchLimits} {s t : System} {e : Event}

theorem valid_start (store : Store) : (start store).Valid where
  site := ⟨⟨rfl, rfl, by simp [start]⟩, by simp [start, Queue.empty], rfl⟩
  threads := by simp [start]
  dispatch := by simp [start]
  recovery := by simp [start]

theorem Valid.restarted (h : s.Valid) : s.restarted.Valid where
  site := ⟨h.site.store, by simp [System.restarted, Queue.empty], rfl⟩
  threads := by simp [System.restarted]
  dispatch := by simp [System.restarted]
  recovery t ht := by
    cases ht
    exact ⟨Thread.isKept_start _ _, rfl, rfl, rfl⟩

/-- What is left of the queue when the oldest copy has been taken. -/
theorem receive_eq_some {q queue : Queue} {c : Execution} (h : q.receive = (some c, queue)) :
    q.waiting = c :: queue.waiting ∧ queue.hasConsumer = q.hasConsumer := by
  unfold Queue.receive Queue.take at h
  cases hw : q.waiting with
  | nil => simp [hw] at h
  | cons d ds =>
    simp only [hw, Prod.mk.injEq, Option.some.injEq] at h
    obtain ⟨rfl, rfl⟩ := h
    exact ⟨rfl, rfl⟩

theorem receive_of_waiting {q : Queue} {c : Execution} {rest : List Execution}
    (h : q.waiting = c :: rest) : ∃ p : Queue, q.receive = (some c, p) ∧ p.waiting = rest := by
  refine ⟨_, by simp [Queue.receive, Queue.take, h]; rfl, rfl⟩

theorem Valid.take (h : s.Valid) {c : Execution} {queue : Queue}
    (he : s.site.queue.receive = (some c, queue)) :
    s.site.store.Backs c ∧ s.site.Progress { s.site with queue := queue } := by
  obtain ⟨hw, hc⟩ := receive_eq_some he
  refine ⟨h.site.backs c (by simp [hw]), ⟨h.site.store, fun d hd => ?_, ?_⟩, .refl _⟩
  · exact h.site.backs d (by rw [hw]; exact List.mem_cons_of_mem _ hd)
  · rw [hc, h.site.hasConsumer]

theorem Valid.finish (h : s.Valid) {id : Int} {c : Execution} {status : Status} (now : Instant)
    (he : s.site.store.execution? id = some c) (hr : c.status = .running)
    (hs : status.isFinished = true) :
    s.site.Calm { s.site with store := (s.site.store.setStatus now id status).2 } := by
  have hlead := Store.setStatus_leadsTo now he hr hs
  refine ⟨⟨Store.setStatus_sound now h.site.store he hr hs, fun d hd => ?_, h.site.hasConsumer⟩, ?_,
    fun _ hd => hd⟩
  · exact (h.site.backs d hd).mono hlead
  · intro j d hd
    obtain ⟨f, hf, hdf⟩ := hlead j d hd
    refine ⟨f, hf, hdf, ?_⟩
    rw [Store.execution?_setStatus now he hs, hd] at hf
    obtain rfl := Option.some.inj hf
    split <;> simp [Store.applyUpdate, StatusUpdate.toStatus]

/-- What is carried on stays kept when something happens without any dispatch. -/
theorem Valid.calm (h : s.Valid) {u : Site} (hu : s.site.Calm u) : { s with site := u }.Valid where
  site := hu.sound
  threads k hk := (h.threads k hk).progress hu.progress
  dispatch d hd := (h.dispatch d hd).calm hu
  recovery k hk := ⟨(h.recovery k hk).1.progress hu.progress, (h.recovery k hk).2⟩

/-- **A step keeps a system valid and leads its site on.** -/
theorem Step.valid (h : Step limits s e t) (hs : s.Valid) : t.Valid ∧ s.site.Progress t.site := by
  cases h with
  | begin job hr =>
    -- the site is untouched, and a new operation is kept wherever it begins
    refine ⟨⟨hs.site, fun k hk => ?_, hs.dispatch, fun k hk => by simp [hr] at hk⟩, .refl hs.site⟩
    rcases List.mem_append.mp hk with hk | hk
    · exact hs.threads k hk
    · exact List.mem_singleton.mp hk ▸ Thread.isKept_start job s.site
  | @ask i k x rest site o hk hx =>
    have hkept := hs.threads k (List.mem_of_getElem? hk)
    obtain ⟨-, hserved, hanswer, hkept⟩ := hkept.advance hs.site hx
    -- for all others the request is a calm change
    have hcalm := Site.answer_calm hs.site hserved.fits hserved.minor o
    rw [hanswer] at hcalm
    have hvalid := hs.calm hcalm
    refine ⟨⟨hcalm.sound, fun l hl => ?_, hvalid.dispatch, fun l hl => ?_⟩, hcalm.progress⟩
    · rcases List.mem_or_eq_of_mem_set hl with hl | rfl
      · exact hvalid.threads l hl
      · exact hkept
    · obtain ⟨-, -, hnil, -⟩ := hs.recovery l hl
      simp [hnil] at hk
  | @finishJob i k r o hk hr =>
    refine ⟨⟨hs.site, fun l hl => hs.threads l (List.mem_of_mem_eraseIdx hl), hs.dispatch, ?_⟩,
      .refl hs.site⟩
    intro l hl
    obtain ⟨-, -, hnil, -⟩ := hs.recovery l hl
    simp [hnil] at hk
  | take hr hd he =>
    obtain ⟨hb, hprogress⟩ := hs.take he
    refine ⟨⟨hprogress.sound, fun k hk => (hs.threads k hk).progress hprogress, fun d hd => ?_,
      fun k hk => by simp [hr] at hk⟩, hprogress⟩
    cases hd
    exact Dispatching.isKept_start limits hb
  | @dispatch d x rest site o hd hx =>
    obtain ⟨hmay, hanswer, hkept⟩ := (hs.dispatch d hd).advance hs.site hx
    -- no operation relies on calm, so progress is enough beside a dispatch
    have hprogress := Site.answer_progress hs.site (hmay.fits (hs.dispatch d hd).backs) o
    rw [hanswer] at hprogress
    refine ⟨⟨hprogress.sound, fun k hk => (hs.threads k hk).progress hprogress, fun c hc => ?_,
      fun k hk => ?_⟩, hprogress⟩
    · cases hc
      exact hkept
    · obtain ⟨-, -, -, hnone⟩ := hs.recovery k hk
      simp [hnone] at hd
  | finishDispatch o hd hr =>
    refine ⟨⟨hs.site, hs.threads, by simp, fun k hk => ?_⟩, .refl hs.site⟩
    obtain ⟨hk, hj, hnil, -⟩ := hs.recovery k hk
    exact ⟨hk, hj, hnil, rfl⟩
  | finish now he hr hst =>
    have hcalm := hs.finish now he hr hst
    exact ⟨hs.calm hcalm, hcalm.progress⟩
  | restart => exact ⟨hs.restarted, hs.restarted.site, .refl _⟩
  | @recover k x rest site o hk hx =>
    obtain ⟨hkept, hjob, hnil, hnone⟩ := hs.recovery k hk
    obtain ⟨-, hserved, hanswer, hkept⟩ := hkept.advance hs.site hx
    have hcalm := Site.answer_calm hs.site hserved.fits hserved.minor o
    rw [hanswer] at hcalm
    refine ⟨⟨hcalm.sound, (hs.calm hcalm).threads, (hs.calm hcalm).dispatch, fun l hl => ?_⟩,
      hcalm.progress⟩
    cases hl
    exact ⟨hkept, hjob, hnil, hnone⟩
  | finishRecovery o hk hr =>
    exact ⟨⟨hs.site, hs.threads, hs.dispatch, by simp⟩, .refl hs.site⟩

/-- A run keeps a system valid. -/
theorem Valid.run (h : s.Valid) (limits : DispatchLimits) (ms : List Move) :
    (after limits ms s).Valid :=
  after_induction limits (fun hs h => (h.valid hs).1) ms h

/-- **Every run from the start stays valid.** -/
theorem valid_after (limits : DispatchLimits) (store : Store) (ms : List Move) :
    (after limits ms (start store)).Valid :=
  (valid_start store).run limits ms

/-- **A run leads its site on.** -/
theorem Valid.progress_after (h : s.Valid) (ms : List Move) :
    s.site.Progress (after limits ms s).site := by
  have := after_induction limits (P := fun t => t.Valid ∧ s.site.Progress t.site)
    (fun hs h => ⟨(h.valid hs.1).1, hs.2.trans (h.valid hs.1).2⟩) ms ⟨h, .refl h.site⟩
  exact this.2

/-- A row goes on along a run. -/
theorem Valid.row_after (h : s.Valid) (limits : DispatchLimits) (ms : List Move) {id : Int}
    {c : Execution} (hc : s.site.store.execution? id = some c) :
    ∃ f, (after limits ms s).site.store.execution? id = some f ∧ c.LeadsTo f :=
  (h.progress_after ms).leadsTo id c hc

end System

end WorkflowScheduler
