import WorkflowScheduler.Proofs.Calendar
import WorkflowScheduler.Proofs.Interference
import WorkflowScheduler.Proofs.Rows
import WorkflowScheduler.Queue.Basic
import WorkflowScheduler.Scenario.Basic

/-!
# What programs act on

The programs of a master act on its store, its registry, its queue and its triggers; the clock and
the executors answer from outside, and they may answer anything. A site is sound if its store is and
if every execution in its queue is a copy of a row that is not finished, or was not when it was
copied.

## Main definitions

* `Site`, `Site.answer`: what programs act on, and how it answers
* `Site.Sound`: the store is sound and backs what is queued
* `Site.Progress`: what a site can come to
* `Site.Calm`: what it can come to without any dispatch
* `Request.Fits`, `Request.Minor`: the requests that lead on, and those that do so calmly

## Main results

* `Site.answer_progress`: a request that fits leads on
* `Site.answer_calm`: a minor request leads on calmly
* `Scenario.answerAtOnce_site`: a scenario without planned faults answers as its site
-/

namespace WorkflowScheduler

/-- What the programs of a master act on. -/
structure Site where
  store : Store
  registry : Registry
  queue : Queue
  triggers : TriggerTable

/-- What comes from outside at a request: the time, and the reply of the executor that is called. -/
structure Outside where
  now : Instant
  reply : Except CallError Unit

/-- The requests that a program has made, with their answers. -/
abbrev History := List (Exchange Request.Answer)

/-- Every reading of the clock lies away from the ends of the calendar. -/
def InnerReadings (h : History) : Prop :=
  ∀ now : Instant, ⟨.now, now⟩ ∈ h → now.IsInner

theorem InnerReadings.of_append {h k : History} (hk : InnerReadings (h ++ k)) :
    InnerReadings h ∧ InnerReadings k :=
  ⟨fun now hn => hk now (List.mem_append_left _ hn),
    fun now hn => hk now (List.mem_append_right _ hn)⟩

/-- **How a site answers a request.** -/
def Site.answer (o : Outside) : (r : Request) → Site → r.Answer × Site
  | .store r, s =>
    let (a, store) := Store.answer o.now r s.store
    (a, { s with store := store })
  | .pick, s =>
    let (e, registry) := s.registry.pick
    (e, { s with registry := registry })
  | .evict a, s =>
    let (e, registry) := s.registry.evict a
    (e, { s with registry := registry })
  | .register a registeredAt, s => ((), { s with registry := s.registry.register a registeredAt })
  | .report a h, s => ((), { s with registry := s.registry.report a h })
  | .executors, s => (s.registry.executors, s)
  | .push e, s =>
    let (sent, queue) := s.queue.push e
    (sent, { s with queue := queue })
  | .call _, s => (o.reply, s)
  | .forget _, s => ((), s)
  | .now, s => (o.now, s)
  | .pause _, s => ((), s)
  | .spawnTrigger t, s =>
    let (id, triggers) := s.triggers.spawn o.now t
    (id, { s with triggers := triggers })
  | .enterTrigger k task, s => ((), { s with triggers := s.triggers.enter k task })
  | .removeTrigger k, s =>
    let (found, triggers) := s.triggers.remove k
    (found, { s with triggers := triggers })
  | .removeTriggers group, s =>
    let (n, triggers) := s.triggers.removeGroup group
    (n, { s with triggers := triggers })

namespace Registry

/-- **A pick**: there is no executor, or one of them is picked and the rotation moves on. -/
theorem pick_cases (r : Registry) :
    r.executors = [] ∧ r.pick = (none, r) ∨
      ∃ x ∈ r.executors, r.pick = (some x, { r with cursor := r.cursor + 1 }) := by
  by_cases h : r.executors = []
  · exact .inl ⟨h, by simp [pick, h]⟩
  · have hlt : r.cursor.toNat % r.executors.length < r.executors.length :=
      Nat.mod_lt _ (List.length_pos_iff.mpr h)
    refine .inr ⟨r.executors[r.cursor.toNat % r.executors.length], List.getElem_mem hlt, ?_⟩
    simp [pick, h, List.getElem?_eq_getElem hlt]

theorem pick_executors (r : Registry) : r.pick.2.executors = r.executors := by
  rcases r.pick_cases with ⟨-, hp⟩ | ⟨x, -, hp⟩ <;> rw [hp]

theorem mem_of_pick {r : Registry} {x : Executor} (h : r.pick.1 = some x) : x ∈ r.executors := by
  rcases r.pick_cases with ⟨-, hp⟩ | ⟨y, hy, hp⟩
  · rw [hp] at h
    cases h
  · rw [hp] at h
    exact Option.some.inj h ▸ hy

/-- There is an executor with an address. -/
def Has (r : Registry) (a : Address) : Prop :=
  ∃ x ∈ r.executors, x.address = a

theorem Has.get? {r : Registry} {a : Address} (h : r.Has a) :
    ∃ x, r.get? a = some x ∧ x.address = a := by
  obtain ⟨y, hy, hya⟩ := h
  cases hx : r.get? a with
  | none => exact absurd (decide_eq_true hya) (List.find?_eq_none.mp hx y hy)
  | some x => exact ⟨x, rfl, by simpa using List.find?_some hx⟩

end Registry

/-! ## What a site can come to -/

/-- **A sound site**: its store is sound and backs what is queued, and the queue has a consumer. -/
structure Site.Sound (s : Site) : Prop where
  store : s.store.Sound
  backs : ∀ e ∈ s.queue.waiting, s.store.Backs e
  hasConsumer : s.queue.hasConsumer = true

/-- **What a site can come to**: a sound site in which every row goes on. -/
structure Site.Progress (s t : Site) : Prop where
  sound : t.Sound
  leadsTo : s.store.LeadsTo t.store

/-- **What a site can come to without any dispatch**: no row changes its worker, and what is queued
stays queued. -/
structure Site.Calm (s t : Site) : Prop where
  sound : t.Sound
  rows : ∀ id e, s.store.execution? id = some e →
    ∃ f, t.store.execution? id = some f ∧ e.LeadsTo f ∧ f.worker = e.worker
  waiting : ∀ e ∈ s.queue.waiting, e ∈ t.queue.waiting

/-- The row with an id is there and does not wait any more. -/
def Site.HasLeft (s : Site) (id : Int) : Prop :=
  ∃ e, s.store.execution? id = some e ∧ e.status ≠ .init

namespace Site

variable {s t u : Site}

theorem Progress.refl (h : s.Sound) : s.Progress s :=
  ⟨h, .refl _⟩

theorem Progress.trans (h : s.Progress t) (k : t.Progress u) : s.Progress u :=
  ⟨k.sound, h.leadsTo.trans k.leadsTo⟩

theorem HasLeft.progress {id : Int} (h : s.HasLeft id) (k : s.Progress t) : t.HasLeft id := by
  obtain ⟨e, he, hi⟩ := h
  obtain ⟨f, hf, hef⟩ := k.leadsTo id e he
  exact ⟨f, hf, hef.status_ne_init hi⟩

theorem Calm.refl (h : s.Sound) : s.Calm s :=
  ⟨h, fun _ e he => ⟨e, he, .refl e, rfl⟩, fun _ he => he⟩

theorem Calm.trans (h : s.Calm t) (k : t.Calm u) : s.Calm u where
  sound := k.sound
  rows id e he := by
    obtain ⟨f, hf, hef, hw⟩ := h.rows id e he
    obtain ⟨g, hg, hfg, hv⟩ := k.rows id f hf
    exact ⟨g, hg, hef.trans hfg, hv.trans hw⟩
  waiting e he := k.waiting e (h.waiting e he)

theorem Calm.progress (h : s.Calm t) : s.Progress t :=
  ⟨h.sound, fun id e he => let ⟨f, hf, hef, _⟩ := h.rows id e he; ⟨f, hf, hef⟩⟩

end Site

/-! ## Requests that lead on -/

namespace Request

/-- **A request that leads a site on**: it queues only what the store backs, and it changes the
status of rows only as it may. -/
def Fits (r : Request) (s : Site) : Prop :=
  match r with
  | .push e => s.store.Backs e
  | .store q => q.Fits
  | _ => True

/-- A request that gives no row a worker. -/
def Minor : Request → Prop
  | .store (.transition _ _ u) => u.worker = none
  | _ => True

/-- Whether a request stores an execution. -/
def creates : Request → Bool
  | .store q => q.creates
  | _ => false

/-- What a request puts into the queue. -/
def pushed : Request → List Execution
  | .push e => [e]
  | _ => []

/-- What a request makes of a row. -/
def rowAfter (now : Instant) (r : Request) (e : Execution) : Execution :=
  match r with
  | .store q => q.rowAfter now e
  | _ => e

theorem rowAfter_transition {e : Execution} {id : Int} {expected : Status} (hid : e.id = id)
    (hs : e.status = expected) (now : Instant) (u : StatusUpdate) :
    rowAfter now (.store (.transition id expected u)) e = Store.applyUpdate now u e := by
  simp [rowAfter, StoreRequest.rowAfter, hid, hs]

end Request

namespace Site

variable {s : Site} {o : Outside} {r : Request}

theorem answer_queue (h : s.queue.hasConsumer = true) :
    (s.answer o r).2.queue.waiting = s.queue.waiting ++ r.pushed ∧
      (s.answer o r).2.queue.hasConsumer = true := by
  cases r <;> simp [answer, Queue.push, Queue.raise, Queue.send, Request.pushed, h]

theorem waiting_of_answer {u : Site} {x : Exchange Request.Answer} (hs : s.Sound)
    (hx : s.answer o x.1 = (x.2, u)) : u.queue.waiting = s.queue.waiting ++ x.1.pushed := by
  have := (answer_queue (r := x.1) (o := o) hs.hasConsumer).1
  rwa [hx] at this

theorem answer_push (h : s.queue.hasConsumer = true) (o : Outside) (e : Execution) :
    (s.answer o (.push e)).1 = true := by
  change (s.queue.push e).1 = true
  simp [Queue.push, Queue.raise, Queue.send, h]

/-- **The row with an id after a request.** -/
theorem execution?_answer {id : Int} {e : Execution} (h : s.store.execution? id = some e) :
    (s.answer o r).2.store.execution? id = some (r.rowAfter o.now e) := by
  cases r with
  | store q => exact Store.execution?_answer h
  | _ => exact h

/-- A change of status takes place exactly if the row has the expected status. -/
theorem answer_transition {id : Int} {e : Execution} (h : s.store.execution? id = some e)
    (o : Outside) (expected : Status) (u : StatusUpdate) :
    (s.answer o (.store (.transition id expected u))).1 = .ok (decide (e.status = expected)) := by
  change (s.store.transition o.now id expected u).1 = _
  by_cases hs : e.status = expected <;> simp [Store.transition, h, hs] <;> rfl

/-- A row that a request brings in is the one it asked for. -/
theorem execution?_answer_new {id : Int} {f : Execution} (h : s.store.execution? id = none)
    (hf : (s.answer o r).2.store.execution? id = some f) :
    ∃ n, r = .store (.createExecution n) ∧ f = (s.store.createExecution o.now n).1 := by
  cases r with
  | store q =>
    obtain ⟨n, rfl, rfl⟩ := Store.execution?_answer_new h hf
    exact ⟨n, rfl, rfl⟩
  | _ => simp [answer, h] at hf

theorem answer_rows_length (s : Site) (o : Outside) (r : Request) :
    (s.answer o r).2.store.rows.length = s.store.rows.length + r.creates.toNat := by
  cases r with
  | store q => exact Store.answer_rows_length o.now q s.store
  | _ => rfl

theorem rowAfter_leadsTo (hr : r.Fits s) (now : Instant) (e : Execution) :
    e.LeadsTo (r.rowAfter now e) := by
  cases r with
  | store q => exact StoreRequest.Fits.leadsTo hr now e
  | _ => exact .refl e

theorem answer_leadsTo (hr : r.Fits s) (o : Outside) : s.store.LeadsTo (s.answer o r).2.store :=
  fun _ e he => ⟨_, execution?_answer he, rowAfter_leadsTo hr o.now e⟩

theorem answer_sound (h : s.Sound) (hr : r.Fits s) (o : Outside) : (s.answer o r).2.Sound where
  store := by
    cases r with
    | store q => exact Store.answer_sound h.store hr
    | _ => exact h.store
  backs e he := by
    rw [(answer_queue h.hasConsumer).1, List.mem_append] at he
    refine Store.Backs.mono ?_ (answer_leadsTo hr o)
    rcases he with he | he
    · -- what was queued before goes on with its row
      exact h.backs e he
    · cases r with
      | push d => exact List.mem_singleton.mp he ▸ hr
      | _ => simp [Request.pushed] at he
  hasConsumer := (answer_queue h.hasConsumer).2

/-- **A request that fits leads a site on.** -/
theorem answer_progress (h : s.Sound) (hr : r.Fits s) (o : Outside) :
    s.Progress (s.answer o r).2 :=
  ⟨answer_sound h hr o, answer_leadsTo hr o⟩

theorem rowAfter_worker (hm : r.Minor) (now : Instant) (e : Execution) :
    (r.rowAfter now e).worker = e.worker := by
  unfold Request.rowAfter
  split
  · next q =>
    unfold StoreRequest.rowAfter
    split
    · split
      · simp only [Request.Minor] at hm
        simp [Store.applyUpdate, hm]
      · rfl
    · rfl
  · rfl

/-- **A minor request that fits leads a site on calmly.** -/
theorem answer_calm (h : s.Sound) (hr : r.Fits s) (hm : r.Minor) (o : Outside) :
    s.Calm (s.answer o r).2 where
  sound := answer_sound h hr o
  rows _ e he := ⟨_, execution?_answer he, rowAfter_leadsTo hr o.now e, rowAfter_worker hm o.now e⟩
  waiting e he := by
    rw [(answer_queue h.hasConsumer).1]
    exact List.mem_append_left _ he

end Site

/-- What is answered at one time shows one reading of the clock. -/
theorem InnerReadings.of_answered {turns : List (Turn Request.Answer Site)} {o : Outside}
    (h : ∀ u ∈ turns, Site.answer o u.exchange.1 u.before = (u.exchange.2, u.after))
    (ho : o.now.IsInner) : InnerReadings (turns.map (·.exchange)) := by
  intro now hnow
  obtain ⟨u, hu, hux⟩ := List.mem_map.mp hnow
  have hread := h u hu
  rw [hux] at hread
  have hshown : o.now = now := congrArg Prod.fst hread
  rwa [← hshown]

/-- A site with one workflow and nothing else. -/
def Site.oneWorkflow : Site :=
  ⟨{ Store.empty with workflows := [⟨1, 10, "flow", 42, .short, 0, ""⟩] }, .empty, .empty, .empty⟩

/-! ## Scenarios -/

/-- The site of a scenario. -/
def Scenario.site (sc : Scenario) : Site :=
  ⟨sc.store, sc.registry, sc.queue, sc.triggers⟩

@[simp] theorem Scenario.setWake_site (sc : Scenario) (id : Nat) :
    (sc.setWake id).site = sc.site := by
  unfold setWake
  split <;> rfl

theorem Scenario.call_site {sc : Scenario} (hm : sc.moves = []) (he : sc.evictions = [])
    (c : Call) : (sc.call c).2.site = sc.site := by
  cases c <;> simp [Scenario.call, beforeCall, site, takeFirst, hm, he]

/-- **A scenario without planned faults answers as its site**, at its own time and with the reply
that it has scripted. -/
theorem Scenario.answerAtOnce_site {sc : Scenario} (hp : sc.plan = []) (hm : sc.moves = [])
    (he : sc.evictions = []) (r : Request) :
    ∃ reply, Site.answer ⟨sc.now, reply⟩ r sc.site =
      ((answerAtOnce r sc).1, (answerAtOnce r sc).2.site) := by
  cases r with
  | call c => exact ⟨(sc.call c).1, Prod.ext rfl (call_site hm he c).symm⟩
  | store r =>
    refine ⟨.ok (), ?_⟩
    simp [answerAtOnce, Site.answer, hp, FaultPlan.answer, FaultPlan.next, site]
  | spawnTrigger t =>
    -- a trigger also sets its wake, which is no part of the site
    refine ⟨.ok (), ?_⟩
    simp only [answerAtOnce, setWake_site]
    rfl
  | _ => exact ⟨.ok (), rfl⟩

end WorkflowScheduler
