import Mathlib.Data.Finset.Card
import WorkflowScheduler.Proofs.Load
import WorkflowScheduler.Proofs.Refusals

/-!
# The dispatcher drains

When nothing more is fed to a master, its dispatcher comes to an end, from any store, queue and
registry and whatever the executors answer: it reaches an empty queue or an empty registry after at
most as many dispatches as there is load. Operations that do not feed it may go on beside it, and
executors may record the end of what they run.

## Main definitions

* `Request.Feeds`, `Event.Feeds`: what brings more to do
* `System.along`, `System.seen`: an endless run, move by move
* `System.Fair`: the dispatcher gets its turn again and again
* `System.Draining`: the invariant of a system that is not fed
* `System.Accounted`: a row that waits is queued, or in the hand of the dispatcher

## Main results

* `Site.quiet_answer`: what operations ask without feeding is quiet
* `System.Step.draining`, `System.Step.accounted`: what a step preserves
* `System.dispatch_ends`: every dispatch comes to its end
* `System.round`: a dispatch lowers the load, or there is no executor left
* `System.drains`: the dispatcher drains
-/

namespace WorkflowScheduler

/-! ## What feeds a master -/

/-- A step of the dispatcher. -/
def Event.IsDispatch : Event → Prop
  | .took _ => True
  | .dispatchAsked _ _ => True
  | .dispatchEnded _ _ => True
  | _ => False

/-- A step that gives up an executor. -/
def Event.evicts (a : Address) (ev : Event) : Bool :=
  match ev.exchange? with
  | some ⟨.evict b, _⟩ => b = a
  | _ => false

theorem Event.evicts_iff {a : Address} {ev : Event} :
    ev.evicts a = true ↔ ∃ y, ev.exchange? = some ⟨.evict a, y⟩ := by
  constructor
  · unfold evicts
    split
    · next b y hx =>
      intro hb
      obtain rfl : b = a := of_decide_eq_true hb
      exact ⟨y, hx⟩
    · intro h
      cases h
  · rintro ⟨y, hy⟩
    simp [evicts, hy]

/-- A step that takes a copy out of the queue. -/
def Event.isTake : Event → Bool
  | .took _ => true
  | _ => false

/-- A request that brings more to do: an execution, or an executor or its report. -/
def Request.Feeds : Request → Prop
  | .store (.createExecution _) => True
  | .push _ => True
  | .register _ _ => True
  | .report _ _ => True
  | _ => False

/-- **What brings more to do from outside the dispatcher**; a restart brings back what it finds. -/
def Event.Feeds : Event → Prop
  | .asked _ x => x.1.Feeds
  | .recoveryAsked x => x.1.Feeds
  | .restarted => True
  | _ => False

/-- **What operations ask without feeding is quiet.** -/
theorem Site.quiet_answer {r : Request} (hr : r.IsOrdinary) (hf : ¬ r.Feeds) (s : Site)
    (o : Outside) : s.Quiet (s.answer o r).2 := by
  have hcreates : r.creates = false := by
    cases r with
    | store q =>
      cases q with
      | createExecution n => exact absurd trivial hf
      | _ => rfl
    | _ => rfl
  have hwaits : ∀ id, (s.answer o r).2.Waits id → s.Waits id := by
    intro id hw
    apply waits_answer hcreates _ hw
    rintro j expected v rfl
    -- an operation changes a status only to `KILL`
    obtain rfl : v = .toStatus .kill := hr
    simp [StatusUpdate.toStatus]
  cases r with
  | push e => exact absurd trivial hf
  | register a t => exact absurd trivial hf
  | report a b => exact absurd trivial hf
  | evict a => exact hr.elim
  | pick => exact ⟨rfl, s.registry.pick_executors, hwaits⟩
  | _ => exact ⟨rfl, rfl, hwaits⟩

/-! ## Operations in any site -/

section Jobs

open Operation

theorem Operation.Meets.weaken {α : Type} {op : Operation α}
    {P : History → Option (Except MasterError α) → Prop} (h : op.Meets P) :
    op.Meets fun _ _ => True :=
  h.imp fun _ _ _ => trivial

theorem Operation.Meets.andThen {α β : Type} {op : Operation α} {f : α → Operation β}
    {P : History → Option (Except MasterError α) → Prop} (h : op.Meets P)
    (hf : ∀ a, (f a).Meets fun _ _ => True) : (op >>= f).Meets fun _ _ => True :=
  h.bind hf (fun _ _ _ _ _ _ => trivial) (fun _ _ _ => trivial) fun _ _ => trivial

theorem Master.pushEach_meets (es : List Execution) :
    (Master.pushEach es).Meets fun _ _ => True := by
  induction es with
  | nil => exact .pure trivial
  | cons e es ih =>
    exact Meets.andThen (P := fun _ _ => True) (.request trivial fun _ => trivial) fun _ => ih

theorem Master.recoverPending_meets : Master.recoverPending.Meets fun _ _ => True := by
  apply Meets.andThen (P := fun _ _ => True)
  · exact .store trivial fun _ _ => trivial
  · exact fun rows => (Master.pushEach_meets rows).andThen fun _ => .pure trivial

theorem Master.restore_meets : Master.restore.Meets fun _ _ => True := by
  apply Meets.andThen (P := fun _ _ => True)
  · exact .store trivial fun _ _ => trivial
  · exact fun cs => (Master.installEach_succeeds cs).weaken

/-- **A job asks only what operations ask**, wherever it is carried on. -/
theorem Job.operation_meets (j : Job) : j.operation.Meets fun _ _ => True := by
  cases j with
  | execFlow projectId flowId t set =>
    exact (Master.execFlow_isGuarded projectId flowId t set).andThen fun _ => .pure trivial
  | backfill limit projectId flowId cron start stop =>
    exact (Master.backfill_isGuarded limit projectId flowId cron start stop).andThen fun _ =>
      .pure trivial
  | execAdHoc id => exact (Service.execAdHoc_answers id).andThen fun _ => .pure trivial
  | cancel id => exact (Service.cancelWithin_answers id Master.cancelAttempts).weaken
  | registerExecutor host port t => exact (Master.registerExecutor_isGuarded host port t).weaken
  | reportExecutor host port t ids =>
    exact (Master.reportExecutor_isGuarded host port t ids).weaken
  | setSchedule projectId flowId => exact (Master.setSchedule_isGuarded projectId flowId).weaken
  | deleteSchedule projectId flowId =>
    exact (Master.deleteSchedule_succeeds projectId flowId).andThen fun _ => .pure trivial
  | deleteSchedules projectId =>
    exact (Master.deleteSchedules_succeeds projectId).andThen fun _ => .pure trivial
  | restore => exact Master.restore_meets.andThen fun _ => .pure trivial
  | materialize c t => exact (Master.materialize_isGuarded c t).andThen fun _ => .pure trivial
  | recoverPending => exact Master.recoverPending_meets.andThen fun _ => .pure trivial

end Jobs

/-- An operation that asks only what operations ask, from here on. -/
def Thread.IsOrdinary (t : Thread) (s : Site) : Prop :=
  t.rest.Keeps Master.anyhow (fun _ _ _ => True) t.asked s

theorem Thread.isOrdinary_start (j : Job) (s : Site) : (start j).IsOrdinary s :=
  Interaction.Keeps.imp (j.operation_meets [] s) fun _ _ _ _ => trivial

/-- The dispatch of a copy drains from here on, within a load. -/
def Dispatching.Drains (d : Dispatching) (n : Nat) (s : Site) : Prop :=
  d.rest.Keeps Dispatch.draining (fun _ _ t => Dispatch.Drained d.copy n t) d.asked s

namespace System

variable {limits : DispatchLimits} {s t : System} {ev : Event}

/-! ## Steps -/

/-- **A system that is not fed**: there is a consumer and no recovery, the operations ask only what
operations ask, and the dispatch drains. -/
structure Draining (s : System) : Prop where
  hasConsumer : s.site.queue.hasConsumer = true
  recovery : s.recovery = none
  threads : ∀ k ∈ s.threads, k.IsOrdinary s.site
  dispatch : ∀ d, s.dispatch = some d → ∃ n, d.Drains n s.site

/-- A system at its beginning, with any store, queue and registry. -/
def idle (site : Site) : System :=
  ⟨site, [], none, none⟩

theorem draining_idle {site : Site} (hc : site.queue.hasConsumer = true) :
    (idle site).Draining where
  hasConsumer := hc
  recovery := rfl
  threads := by simp [idle]
  dispatch := by simp [idle]

theorem Draining.threads_at (h : s.Draining) (u : Site) : ∀ k ∈ s.threads, k.IsOrdinary u :=
  fun k hk => Interaction.Keeps.rely (h.threads k hk) trivial

/-- What an operation asks, at a step of it. -/
theorem Draining.asks (hs : s.Draining) {i : Nat} {k : Thread} {x : Exchange Request.Answer}
    {rest : Program (Except MasterError Unit)} {site : Site} {o : Outside}
    (hk : s.threads[i]? = some k)
    (hx : k.rest.advance (Site.answer o) s.site = .inl (x, rest, site)) :
    x.1.IsOrdinary ∧ s.site.answer o x.1 = (x.2, site) ∧
      (Thread.mk k.job (k.asked ++ [x]) rest).IsOrdinary site := by
  obtain ⟨hmay, hkeeps⟩ := Interaction.Keeps.advance (T := Master.anyhow) (o := o)
    (hs.threads k (List.mem_of_getElem? hk)) trivial hx
  exact ⟨hmay, Interaction.answer_of_advance hx, hkeeps⟩

/-- What a dispatch asks, at a step of it. -/
theorem Draining.dispatches (hs : s.Draining) {d : Dispatching} {x : Exchange Request.Answer}
    {rest : Program DispatchOutcome} {site : Site} {o : Outside} (hd : s.dispatch = some d)
    (hx : d.rest.advance (Site.answer o) s.site = .inl (x, rest, site)) :
    Dispatch.Drains x.1 s.site ∧ s.site.answer o x.1 = (x.2, site) ∧
      ∀ n, d.Drains n s.site → (Dispatching.mk d.copy (d.asked ++ [x]) rest).Drains n site := by
  obtain ⟨n, hn⟩ := hs.dispatch d hd
  refine ⟨?_, Interaction.answer_of_advance hx, fun n hn => ?_⟩
  · exact (Interaction.Keeps.advance (T := Dispatch.draining) (o := o) hn (.refl _) hx).1
  · exact (Interaction.Keeps.advance (T := Dispatch.draining) (o := o) hn (.refl _) hx).2

/-- **A step beside the dispatcher is quiet**, and leaves the dispatch as it is. -/
theorem Step.quiet (h : Step limits s ev t) (hs : s.Draining) (hf : ¬ ev.Feeds)
    (hd : ¬ ev.IsDispatch) : s.site.Quiet t.site ∧ t.dispatch = s.dispatch := by
  cases h with
  | begin job hr => exact ⟨.refl _, rfl⟩
  | @ask i k x rest site o hk hx =>
    obtain ⟨hmay, hanswer, -⟩ := hs.asks hk hx
    have hquiet := Site.quiet_answer hmay hf s.site o
    rw [hanswer] at hquiet
    exact ⟨hquiet, rfl⟩
  | finishJob o hk hr => exact ⟨.refl _, rfl⟩
  | finish now he hr hst =>
    exact ⟨⟨rfl, rfl, fun _ hw => Site.waits_of_setStatus now he hst hw⟩, rfl⟩
  | restart => exact absurd trivial hf
  | recover o hk hx =>
    rw [hs.recovery] at hk
    cases hk
  | finishRecovery o hk hr => exact ⟨.refl _, rfl⟩
  | _ => exact absurd trivial hd

/-- **A step that does not feed a system keeps it draining.** -/
theorem Step.draining (h : Step limits s ev t) (hs : s.Draining) (hf : ¬ ev.Feeds) :
    t.Draining := by
  -- beside the dispatcher the dispatch relies on the step being quiet
  have hquiet : ¬ ev.IsDispatch → t.site.queue.hasConsumer = true ∧
      ∀ d, t.dispatch = some d → ∃ n, d.Drains n t.site := by
    intro hd
    obtain ⟨hq, hsame⟩ := h.quiet hs hf hd
    refine ⟨hq.queue ▸ hs.hasConsumer, fun d hd => ?_⟩
    obtain ⟨n, hn⟩ := hs.dispatch d (hsame ▸ hd)
    exact ⟨n, Interaction.Keeps.rely hn hq⟩
  cases h with
  | begin job hr =>
    obtain ⟨hc, hd⟩ := hquiet id
    refine ⟨hc, hs.recovery, fun k hk => ?_, hd⟩
    rcases List.mem_append.mp hk with hk | hk
    · exact hs.threads k hk
    · exact List.mem_singleton.mp hk ▸ Thread.isOrdinary_start job s.site
  | @ask i k x rest site o hk hx =>
    obtain ⟨hc, hd⟩ := hquiet id
    refine ⟨hc, hs.recovery, fun l hl => ?_, hd⟩
    rcases List.mem_or_eq_of_mem_set hl with hl | rfl
    · exact hs.threads_at site l hl
    · exact (hs.asks hk hx).2.2
  | finishJob o hk hr =>
    exact ⟨hs.hasConsumer, hs.recovery, fun l hl => hs.threads l (List.mem_of_mem_eraseIdx hl),
      hs.dispatch⟩
  | take hr hd he =>
    have hc := (receive_eq_some he).2.trans hs.hasConsumer
    refine ⟨hc, hs.recovery, hs.threads_at _, fun d hd => ?_⟩
    cases hd
    exact ⟨_, Dispatch.run_drains limits hc (Nat.le_refl _)⟩
  | @dispatch d x rest site o hd hx =>
    obtain ⟨n, hn⟩ := hs.dispatch d hd
    obtain ⟨-, hanswer, hdrains⟩ := hs.dispatches hd hx
    have hc := (Site.answer_queue (r := x.1) (o := o) hs.hasConsumer).2
    rw [hanswer] at hc
    refine ⟨hc, hs.recovery, hs.threads_at _, fun d' hd' => ?_⟩
    cases hd'
    exact ⟨n, hdrains n hn⟩
  | finishDispatch o hd hr => exact ⟨hs.hasConsumer, hs.recovery, hs.threads, by simp⟩
  | finish now he hr hst =>
    obtain ⟨hc, hd⟩ := hquiet id
    exact ⟨hc, hs.recovery, hs.threads_at _, hd⟩
  | restart => exact absurd trivial hf
  | recover o hk hx =>
    rw [hs.recovery] at hk
    cases hk
  | finishRecovery o hk hr =>
    rw [hs.recovery] at hk
    cases hk

/-! ## Executors are given up once -/

/-- An executor that is there after what a dispatch asks was there before, and it is not the one
that is given up. -/
theorem has_of_drains {u : Site} {r : Request} {o : Outside} {a : Address}
    (hr : Dispatch.Drains r u) (h : (u.answer o r).2.registry.Has a) :
    u.registry.Has a ∧ r ≠ .evict a := by
  obtain ⟨x, hx, hxa⟩ := h
  cases r with
  | evict b =>
    obtain ⟨hx, hne⟩ := List.mem_filter.mp hx
    refine ⟨⟨x, hx, hxa⟩, ?_⟩
    rintro ⟨⟩
    simp [hxa] at hne
  | pick =>
    have hx : x ∈ u.registry.pick.2.executors := hx
    rw [Registry.pick_executors] at hx
    exact ⟨⟨x, hx, hxa⟩, by simp⟩
  | register b t => exact hr.elim
  | report b y => exact hr.elim
  | _ => exact ⟨⟨x, hx, hxa⟩, by simp⟩

/-- **An executor that is given up is there, and not there any more**; and none comes in. -/
theorem Step.evicts (h : Step limits s ev t) (hs : s.Draining) (hf : ¬ ev.Feeds) (a : Address) :
    (t.site.registry.Has a → s.site.registry.Has a) ∧
      (ev.evicts a = true → s.site.registry.Has a ∧ ¬ t.site.registry.Has a) := by
  by_cases hd : ev.IsDispatch
  · cases h with
    | take hr hn he => exact ⟨fun h => h, fun h => by cases h⟩
    | @dispatch d x rest site o hn hx =>
      obtain ⟨hdrains, hanswer, -⟩ := hs.dispatches hn hx
      have hhas (b : Address) : site.registry.Has b → s.site.registry.Has b ∧ x.1 ≠ .evict b := by
        intro hb
        apply has_of_drains (o := o) hdrains
        rw [hanswer]
        exact hb
      refine ⟨fun h => (hhas a h).1, fun he => ?_⟩
      obtain ⟨y, ⟨⟩⟩ := Event.evicts_iff.mp he
      exact ⟨hdrains, fun h => (hhas a h).2 rfl⟩
    | finishDispatch o hn hr => exact ⟨fun h => h, fun h => by cases h⟩
    | _ => exact hd.elim
  · obtain ⟨hquiet, -⟩ := h.quiet hs hf hd
    constructor
    · intro hhas
      rw [Registry.Has, hquiet.executors] at hhas
      exact hhas
    · intro he
      obtain ⟨y, hy⟩ := Event.evicts_iff.mp he
      cases h with
      | ask o hk hx =>
        cases hy
        exact (hs.asks hk hx).1.elim
      | recover o hk hx =>
        rw [hs.recovery] at hk
        cases hk
      | dispatch o hn hx => exact absurd trivial hd
      | _ => cases hy

/-- **Every executor is given up at most once** while a system is not fed. -/
theorem Draining.countP_evicts_le_one (hs : s.Draining) (ms : List Move)
    (hf : ∀ ev ∈ trace limits ms s, ¬ ev.Feeds) (a : Address) :
    (trace limits ms s).countP (Event.evicts a) ≤ 1 := by
  refine (countP_le_one limits (P := Draining) (O := fun u => u.site.registry.Has a)
    (A := fun ev => ¬ ev.Feeds) (fun hs h hf => ?_) ms hs hf).1
  obtain ⟨hhas, hevicts⟩ := h.evicts hs hf a
  exact ⟨h.draining hs hf, hhas, hevicts⟩

/-! ## Rows that wait -/

/-- **A row that waits is accounted for**: a copy of it in `INIT` is queued, or the dispatcher has
one in hand. -/
def Accounted (s : System) (id : Int) : Prop :=
  s.site.Waits id → s.site.Awaits id ∨
    ∃ d, s.dispatch = some d ∧ d.copy.id = id ∧ d.copy.status = .init

/-- **A step keeps a row accounted for.** -/
theorem Step.accounted (h : Step limits s ev t) (hs : s.Draining) (hf : ¬ ev.Feeds) {id : Int}
    (hid : s.Accounted id) : t.Accounted id := by
  intro hw
  by_cases hd : ev.IsDispatch
  · cases h with
    | take hr hn he =>
      -- the copy that is taken goes from the queue into the hand
      rcases hid hw with ⟨c, hc, hcid, hci⟩ | ⟨d, hd, -⟩
      · rw [(receive_eq_some he).1] at hc
        rcases List.mem_cons.mp hc with rfl | hc
        · exact .inr ⟨_, rfl, hcid, hci⟩
        · exact .inl ⟨c, hc, hcid, hci⟩
      · rw [hn] at hd
        cases hd
    | @dispatch d x rest site o hn hx =>
      obtain ⟨hdrains, hanswer, -⟩ := hs.dispatches hn hx
      have hsite : site = (s.site.answer o x.1).2 := by rw [hanswer]
      have hw : site.Waits id := hw
      rw [hsite] at hw
      rcases hid (hdrains.waits hw) with hq | ⟨d', hd', hdid, hdi⟩
      · left
        show site.Awaits id
        rw [hsite]
        exact hq.answer o x.1
      · rw [hn] at hd'
        cases hd'
        exact .inr ⟨_, rfl, hdid, hdi⟩
    | @finishDispatch d r o hn hr =>
      rcases hid hw with hq | ⟨d', hd', hdid, hdi⟩
      · exact .inl hq
      · rw [hn] at hd'
        cases hd'
        obtain ⟨n, hkeeps⟩ := hs.dispatch d hn
        have hdone := Interaction.Keeps.finish (T := Dispatch.draining) (o := o) hkeeps (.refl _) hr
        exact .inl (hdid ▸ hdone.waits hdi (hdid ▸ hw))
    | _ => exact hd.elim
  · obtain ⟨hquiet, hsame⟩ := h.quiet hs hf hd
    rcases hid (hquiet.waits id hw) with hq | hhand
    · exact .inl (hquiet.awaits hq)
    · right
      rw [hsame]
      exact hhand

/-- **A row is accounted for once a copy of it in `INIT` has been queued.** -/
theorem Step.accounted_of_push (h : Step limits s ev t) (hs : s.Draining) {b : Bool}
    (he : ev.exchange? = some ⟨.push e, b⟩) (hi : e.status = .init) : t.Accounted e.id := by
  obtain ⟨o, ho⟩ := h.answered he
  have hawaits := Site.awaits_push hs.hasConsumer o hi
  rw [ho] at hawaits
  exact fun _ => .inl hawaits

/-! ## Endless runs -/

/-- **The dispatcher gets its turn again and again.** -/
structure Fair (m : Nat → Move) : Prop where
  takes : ∀ n, ∃ k ≥ n, m k = .take
  dispatches : ∀ n, ∃ k ≥ n, ∃ o, m k = .dispatch o

section Endless

variable (limits : DispatchLimits) (m : Nat → Move) (s : System)

/-- The state of an endless run after so many moves. -/
def along (n : Nat) : System :=
  after limits ((List.range n).map m) s

/-- What has been seen of an endless run after so many moves. -/
def seen (n : Nat) : List Event :=
  trace limits ((List.range n).map m) s

/-- How many copies have been taken out of the queue after so many moves. -/
def takes (n : Nat) : Nat :=
  (seen limits m s n).countP Event.isTake

/-- An endless run that is not fed. -/
structure Unfed : Prop where
  start : s.Draining
  feeds : ∀ n, ∀ ev ∈ seen limits m s n, ¬ ev.Feeds

end Endless

variable {m : Nat → Move}

/-- One more move: it is not possible, or it is a step that is seen. -/
theorem along_succ (limits : DispatchLimits) (m : Nat → Move) (s : System) (n : Nat) :
    (along limits m s (n + 1) = along limits m s n ∧ seen limits m s (n + 1) = seen limits m s n) ∨
      ∃ ev, step limits (m n) (along limits m s n) = some (ev, along limits m s (n + 1)) ∧
        seen limits m s (n + 1) = seen limits m s n ++ [ev] := by
  unfold along seen
  rw [List.range_succ, List.map_append, after_append, trace_append]
  simp only [List.map_cons, List.map_nil, after, trace]
  cases hm : step limits (m n) (after limits ((List.range n).map m) s) with
  | none => exact .inl ⟨rfl, List.append_nil _⟩
  | some p => exact .inr ⟨p.1, rfl, rfl⟩

theorem along_of_step {n : Nat} {ev : Event} {t : System}
    (h : step limits (m n) (along limits m s n) = some (ev, t)) :
    along limits m s (n + 1) = t ∧ seen limits m s (n + 1) = seen limits m s n ++ [ev] := by
  unfold along seen at *
  rw [List.range_succ, List.map_append, after_append, trace_append]
  simp only [List.map_cons, List.map_nil, after, trace, h]
  exact ⟨trivial, trivial⟩

namespace Unfed

/-- An endless run that is not fed is draining all along. -/
theorem draining (h : Unfed limits m s) (n : Nat) : (along limits m s n).Draining := by
  have hrun := run_induction limits (P := Draining) (A := fun ev => ¬ ev.Feeds)
    (R := fun _ => True) (fun hs hstep hf => ⟨hstep.draining hs hf, trivial⟩)
    ((List.range n).map m) h.start (h.feeds n)
  exact hrun.1

/-- A step of an endless run does not feed. -/
theorem not_feeds (h : Unfed limits m s) {n : Nat} {ev : Event} {t : System}
    (hstep : step limits (m n) (along limits m s n) = some (ev, t)) : ¬ ev.Feeds := by
  apply h.feeds (n + 1)
  rw [(along_of_step hstep).2]
  exact List.mem_append_right _ (List.mem_singleton.mpr rfl)

end Unfed

/-- What the dispatcher does, it does at its moves. -/
theorem move_of_isDispatch {mv : Move} (h : step limits mv s = some (ev, t))
    (hd : ev.IsDispatch) :
    (mv = .take ∧ s.dispatch = none) ∨ ∃ o, mv = .dispatch o ∧ s.dispatch ≠ none := by
  cases mv with
  | take =>
    simp only [step] at h
    split at h
    · next hr hn he => exact .inl ⟨rfl, hn⟩
    · cases h
  | dispatch o =>
    simp only [step] at h
    split at h
    · cases h
    · next d hn => exact .inr ⟨o, rfl, by simp [hn]⟩
  | begin job =>
    simp only [step] at h
    split at h <;> cases h
    exact hd.elim
  | work i o =>
    simp only [step] at h
    split at h
    · cases h
    · split at h <;> cases h <;> exact hd.elim
  | finish id status now =>
    simp only [step] at h
    split at h
    · cases h
    · split at h <;> cases h
      exact hd.elim
  | restart =>
    cases h
    exact hd.elim
  | recover o =>
    simp only [step] at h
    split at h
    · cases h
    · split at h <;> cases h <;> exact hd.elim

/-- A move at which the dispatcher does nothing leaves its dispatch as it is. -/
theorem Unfed.beside (h : Unfed limits m s) {n : Nat}
    (htake : m n = .take → (along limits m s n).dispatch ≠ none)
    (hdispatch : ∀ o, m n = .dispatch o → (along limits m s n).dispatch = none) :
    (along limits m s n).site.Quiet (along limits m s (n + 1)).site ∧
      (along limits m s (n + 1)).dispatch = (along limits m s n).dispatch ∧
      takes limits m s (n + 1) = takes limits m s n := by
  rcases along_succ limits m s n with ⟨hsame, hseen⟩ | ⟨ev, hstep, hseen⟩
  · unfold takes
    rw [hsame, hseen]
    exact ⟨.refl _, rfl, rfl⟩
  · have hd : ¬ ev.IsDispatch := by
      intro hd
      rcases move_of_isDispatch hstep hd with ⟨hm, hn⟩ | ⟨o, hm, hn⟩
      · exact htake hm hn
      · exact hn (hdispatch o hm)
    obtain ⟨hquiet, hsame⟩ := (step_cases hstep).quiet (h.draining n) (h.not_feeds hstep) hd
    refine ⟨hquiet, hsame, ?_⟩
    unfold takes
    rw [hseen, List.countP_append]
    cases ev with
    | took e => exact absurd trivial hd
    | _ => rfl

/-- What holds at a moment and is left as it is by every move but those of a kind, holds still at
the first move of that kind. -/
theorem exists_first {P K : Nat → Prop} {n k : Nat} (hn : P n) (hnk : n ≤ k) (hk : K k)
    (hstep : ∀ i, n ≤ i → P i → ¬ K i → P (i + 1)) : ∃ i ≥ n, K i ∧ P i := by
  by_contra hno
  have hkeep : ∀ i, n ≤ i → P i := by
    intro i hi
    induction i, hi using Nat.le_induction with
    | base => exact hn
    | succ i hi ih => exact hstep i hi ih fun hK => hno ⟨i, hi, hK, ih⟩
  exact hno ⟨k, hnk, hk, hkeep k hnk⟩

/-- The dispatch that is carried on gets its next turn. -/
theorem Unfed.next_turn (h : Unfed limits m s) (hm : Fair m) {n bound : Nat} {d : Dispatching}
    (hd : (along limits m s n).dispatch = some d)
    (hdrains : d.Drains bound (along limits m s n).site) :
    ∃ i ≥ n, ∃ o, m i = .dispatch o ∧ (along limits m s i).dispatch = some d ∧
      d.Drains bound (along limits m s i).site ∧ takes limits m s i = takes limits m s n := by
  obtain ⟨k, hnk, hk⟩ := hm.dispatches n
  let P (i : Nat) : Prop := (along limits m s i).dispatch = some d ∧
    d.Drains bound (along limits m s i).site ∧ takes limits m s i = takes limits m s n
  have hkept : ∀ i, n ≤ i → P i → ¬ (∃ o, m i = .dispatch o) → P (i + 1) := by
    rintro i - ⟨hdi, hdrains, htakes⟩ hother
    obtain ⟨hquiet, hsame, hcount⟩ := h.beside (n := i) (fun _ => by simp [hdi])
      (fun o ho => absurd ⟨o, ho⟩ hother)
    exact ⟨hsame.trans hdi, Interaction.Keeps.rely hdrains hquiet, hcount.trans htakes⟩
  obtain ⟨i, hi, ⟨o, ho⟩, hP⟩ := exists_first (P := P) ⟨hd, hdrains, rfl⟩ hnk hk hkept
  exact ⟨i, hi, o, ho, hP⟩

/-- The end of a dispatch that drains, at its turn. -/
theorem ends_at {i bound : Nat} {d : Dispatching} {o : Outside}
    {r : Option DispatchOutcome} (ho : m i = .dispatch o)
    (hd : (along limits m s i).dispatch = some d)
    (hdrains : d.Drains bound (along limits m s i).site)
    (hr : d.rest.advance (Site.answer o) (along limits m s i).site = .inr r) :
    (along limits m s (i + 1)).dispatch = none ∧
      Dispatch.Drained d.copy bound (along limits m s (i + 1)).site ∧
      takes limits m s (i + 1) = takes limits m s i := by
  have hstep : step limits (m i) (along limits m s i) =
      some (.dispatchEnded d.copy r, { along limits m s i with dispatch := none }) := by
    simp only [ho, step, hd, hr]
  obtain ⟨hnext, hseen⟩ := along_of_step hstep
  rw [hnext]
  refine ⟨rfl, ?_, ?_⟩
  · exact Interaction.Keeps.finish (T := Dispatch.draining) (o := o) hdrains (.refl _) hr
  · unfold takes
    rw [hseen, List.countP_append]
    rfl

/-- **Every dispatch comes to its end**, and takes no other copy on its way. -/
theorem Unfed.dispatch_ends (h : Unfed limits m s) (hm : Fair m) {c : Execution} {bound : Nat}
    {rest : Program DispatchOutcome} : ∀ {n : Nat} {asked : History},
    (along limits m s n).dispatch = some ⟨c, asked, rest⟩ →
    (Dispatching.mk c asked rest).Drains bound (along limits m s n).site →
    ∃ k, n < k ∧ (along limits m s k).dispatch = none ∧
      Dispatch.Drained c bound (along limits m s k).site ∧
      takes limits m s k = takes limits m s n := by
  -- on what is left of the dispatch: each of its turns takes one request away
  induction rest with
  | done a =>
    intro n asked hd hdrains
    obtain ⟨i, hi, o, ho, hdi, hdrains, htakes⟩ := h.next_turn hm hd hdrains
    obtain ⟨hnone, hdone, hcount⟩ := ends_at ho hdi hdrains rfl
    exact ⟨i + 1, by omega, hnone, hdone, hcount.trans htakes⟩
  | crash =>
    intro n asked hd hdrains
    obtain ⟨i, hi, o, ho, hdi, hdrains, htakes⟩ := h.next_turn hm hd hdrains
    obtain ⟨hnone, hdone, hcount⟩ := ends_at ho hdi hdrains rfl
    exact ⟨i + 1, by omega, hnone, hdone, hcount.trans htakes⟩
  | ask r next ih =>
    intro n asked hd hdrains
    obtain ⟨i, hi, o, ho, hdi, hdrains, htakes⟩ := h.next_turn hm hd hdrains
    obtain ⟨a, site, ha⟩ : ∃ a site, (along limits m s i).site.answer o r = (a, site) :=
      ⟨_, _, rfl⟩
    have hadvance : (Interaction.ask r next).advance (Site.answer o) (along limits m s i).site =
        .inl (⟨r, a⟩, next a, site) := by
      simp only [Interaction.advance, ha]
    have hstep : step limits (m i) (along limits m s i) = some (.dispatchAsked c ⟨r, a⟩,
        { along limits m s i with site := site, dispatch := some ⟨c, asked ++ [⟨r, a⟩], next a⟩ }) := by
      simp only [ho, step, hdi, hadvance]
    obtain ⟨hnext, hseen⟩ := along_of_step hstep
    have hlater := ((h.draining i).dispatches hdi hadvance).2.2 bound hdrains
    obtain ⟨k, hk, hnone, hdone, hcount⟩ :=
      ih a (n := i + 1) (by rw [hnext]) (by rw [hnext]; exact hlater)
    refine ⟨k, by omega, hnone, hdone, ?_⟩
    rw [hcount, ← htakes]
    unfold takes
    rw [hseen, List.countP_append]
    rfl

/-- **A round of the dispatcher lowers the load**, or there is no executor left. -/
theorem Unfed.round (h : Unfed limits m s) (hm : Fair m) {n : Nat}
    (hd : (along limits m s n).dispatch = none)
    (hw : (along limits m s n).site.queue.waiting ≠ []) :
    ∃ k, n < k ∧ (along limits m s k).dispatch = none ∧
      takes limits m s k = takes limits m s n + 1 ∧
      ((along limits m s k).site.load < (along limits m s n).site.load ∨
        (along limits m s k).site.registry.executors = []) := by
  obtain ⟨j, hnj, hj⟩ := hm.takes n
  let P (i : Nat) : Prop := (along limits m s i).dispatch = none ∧
    (along limits m s n).site.Quiet (along limits m s i).site ∧
    takes limits m s i = takes limits m s n
  have hkept : ∀ i, n ≤ i → P i → ¬ m i = .take → P (i + 1) := by
    rintro i - ⟨hdi, hquiet, htakes⟩ hother
    obtain ⟨hstep, hsame, hcount⟩ := h.beside (n := i) (fun hi => absurd hi hother) fun _ _ => hdi
    exact ⟨hsame.trans hdi, hquiet.trans hstep, hcount.trans htakes⟩
  obtain ⟨i, hi, htake, hdi, hquiet, htakes⟩ :=
    exists_first (P := P) ⟨hd, .refl _, rfl⟩ hnj hj hkept
  -- the oldest copy is taken, and its dispatch begins
  obtain ⟨c, rest, hrest⟩ := List.exists_cons_of_ne_nil (hquiet.queue ▸ hw)
  obtain ⟨q, hq, hqrest⟩ := receive_of_waiting hrest
  have hstep : step limits (m i) (along limits m s i) = some (.took c, { along limits m s i with
      site := { (along limits m s i).site with queue := q }, dispatch := some (.start limits c) }) := by
    simp only [htake, step, (h.draining i).recovery, hdi, hq]
  obtain ⟨hnext, hseen⟩ := along_of_step hstep
  have hc := (h.draining (i + 1)).hasConsumer
  have hbegun : (along limits m s (i + 1)).dispatch = some (.start limits c) := by rw [hnext]
  have hdrains : (Dispatching.start limits c).Drains (along limits m s (i + 1)).site.load
      (along limits m s (i + 1)).site := Dispatch.run_drains limits hc (Nat.le_refl _)
  obtain ⟨k, hk, hnone, hdone, hcount⟩ := h.dispatch_ends hm hbegun hdrains
  refine ⟨k, by omega, hnone, ?_, ?_⟩
  · rw [hcount, ← htakes]
    unfold takes
    rw [hseen, List.countP_append]
    rfl
  · refine hdone.load.imp_left fun hload => ?_
    have hqload : (along limits m s (i + 1)).site.load + 1 = (along limits m s i).site.load := by
      rw [hnext]
      show q.waiting.length + (along limits m s i).site.registry.load + 1 =
        (along limits m s i).site.queue.waiting.length + (along limits m s i).site.registry.load
      rw [hqrest, hrest, List.length_cons]
      omega
    rw [hquiet.load] at hqload
    omega

/-- **The dispatcher stops** within the load. -/
theorem Unfed.stops (h : Unfed limits m s) (hm : Fair m) {bound : Nat} : ∀ {n : Nat},
    (along limits m s n).dispatch = none → (along limits m s n).site.load ≤ bound →
    ∃ k ≥ n, (along limits m s k).dispatch = none ∧
      ((along limits m s k).site.queue.waiting = [] ∨
        (along limits m s k).site.registry.executors = []) ∧
      takes limits m s k ≤ takes limits m s n + bound := by
  -- on the bound: each round takes one copy, and leaves less than it has found
  induction bound with
  | zero =>
    intro n hd hload
    have hempty : (along limits m s n).site.queue.waiting = [] := by
      unfold Site.load at hload
      exact List.length_eq_zero_iff.mp (by omega)
    exact ⟨n, Nat.le_refl n, hd, .inl hempty, Nat.le_refl _⟩
  | succ bound ih =>
    intro n hd hload
    by_cases hw : (along limits m s n).site.queue.waiting = []
    · exact ⟨n, Nat.le_refl n, hd, .inl hw, Nat.le_add_right _ _⟩
    · obtain ⟨k, hk, hnone, hcount, hless | hempty⟩ := h.round hm hd hw
      · obtain ⟨l, hl, hnone, hend, hle⟩ := ih hnone (by omega)
        exact ⟨l, by omega, hnone, hend, by omega⟩
      · exact ⟨k, by omega, hnone, .inr hempty, by omega⟩

/-- A row is accounted for all along once a copy of it in `INIT` has been queued, at the beginning
or by a push. -/
theorem Unfed.accounted (h : Unfed limits m s) {id : Int} {n : Nat}
    (hid : s.site.Awaits id ∨ ∃ ev ∈ seen limits m s n, ∃ (e : Execution) (b : Bool),
      ev.exchange? = some ⟨.push e, b⟩ ∧ e.id = id ∧ e.status = .init) :
    (along limits m s n).Accounted id := by
  have hkept : ∀ (ms : List Move) {u : System}, u.Draining →
      (∀ ev ∈ trace limits ms u, ¬ ev.Feeds) → u.Accounted id →
      (after limits ms u).Accounted id := by
    intro ms u hu hf hid
    exact (run_induction limits (P := fun u => u.Draining ∧ u.Accounted id)
      (A := fun ev => ¬ ev.Feeds) (R := fun _ => True)
      (fun hs hstep hf => ⟨⟨hstep.draining hs.1 hf, hstep.accounted hs.1 hf hs.2⟩, trivial⟩)
      ms ⟨hu, hid⟩ hf).1.2
  rcases hid with hawaits | ⟨ev, hev, e, b, hx, rfl, hi⟩
  · exact hkept _ h.start (h.feeds n) fun _ => .inl hawaits
  · obtain ⟨ks, mv, ls, t, hms, hmv, hls⟩ := exists_move_of_mem hev
    have htrace : seen limits m s n = trace limits ks s ++ ev :: trace limits ls t := by
      unfold seen
      rw [hms, trace_append]
      simp only [trace, hmv]
    have hks : ∀ ev ∈ trace limits ks s, ¬ ev.Feeds := fun x hx =>
      h.feeds n x (htrace ▸ List.mem_append_left _ hx)
    have hdraining : (after limits ks s).Draining :=
      (run_induction limits (P := Draining) (A := fun ev => ¬ ev.Feeds) (R := fun _ => True)
        (fun hs hstep hf => ⟨hstep.draining hs hf, trivial⟩) ks h.start hks).1
    have hpush := step_cases hmv
    have hnot := h.feeds n ev hev
    have hend := hkept ls (hpush.draining hdraining hnot)
      (fun x hx => h.feeds n x (htrace ▸ List.mem_append_right _ (List.mem_cons_of_mem _ hx)))
      (hpush.accounted_of_push hdraining hx hi)
    rw [hls] at hend
    exact hend

/-- **The dispatcher drains.** From any store, queue and registry, if nothing is fed to the master,
the dispatcher reaches an empty queue or an empty registry after at most as many dispatches as
copies wait, and for each executor one more than it has reported executions. It gives up every
executor at most once; and when it has emptied the queue, no row waits of which a copy in `INIT` was
ever queued. -/
theorem drains (limits : DispatchLimits) {site : Site} {m : Nat → Move}
    (hc : site.queue.hasConsumer = true) (hm : Fair m)
    (hf : ∀ n, ∀ ev ∈ seen limits m (idle site) n, ¬ ev.Feeds) :
    (∃ n, (along limits m (idle site) n).dispatch = none ∧
      ((along limits m (idle site) n).site.queue.waiting = [] ∨
        (along limits m (idle site) n).site.registry.executors = []) ∧
      (seen limits m (idle site) n).countP Event.isTake ≤ site.queue.waiting.length +
        (site.registry.executors.map fun x => 1 + x.execIds.toFinset.card).sum) ∧
    (∀ n a, (seen limits m (idle site) n).countP (Event.evicts a) ≤ 1) ∧
    ∀ n, (along limits m (idle site) n).dispatch = none →
      (along limits m (idle site) n).site.queue.waiting = [] → ∀ id,
      (site.Awaits id ∨ ∃ ev ∈ seen limits m (idle site) n, ∃ (e : Execution) (b : Bool),
        ev.exchange? = some ⟨.push e, b⟩ ∧ e.id = id ∧ e.status = .init) →
      ¬ (along limits m (idle site) n).site.Waits id := by
  have h : Unfed limits m (idle site) := ⟨draining_idle hc, hf⟩
  have hload : site.load = site.queue.waiting.length +
      (site.registry.executors.map fun x => 1 + x.execIds.toFinset.card).sum := by
    unfold Site.load Registry.load
    congr 2
    apply List.map_congr_left
    intro x _
    have hnodup : x.execIds.Nodup := x.ascending.imp fun h => Int.ne_of_lt h
    rw [Executor.load, List.toFinset_card_of_nodup hnodup]
  refine ⟨?_, fun n a => ?_, fun n hd hq id hid hw => ?_⟩
  · obtain ⟨n, -, hd, hend, htakes⟩ := h.stops hm (n := 0) rfl (Nat.le_refl site.load)
    refine ⟨n, hd, hend, ?_⟩
    rw [← hload]
    exact Nat.le_trans htakes (by rw [show takes limits m (idle site) 0 = 0 from rfl, Nat.zero_add])
  · exact h.start.countP_evicts_le_one _ (hf n) a
  · -- nothing is queued, and nothing is in hand
    rcases h.accounted hid hw with ⟨d, hd, -⟩ | ⟨d, hd', -⟩
    · rw [hq] at hd
      cases hd
    · rw [hd] at hd'
      cases hd'

/-- The dispatcher by itself: it takes a copy or goes on with its dispatch, in turns. -/
def alternating (o : Outside) (k : Nat) : Move :=
  if k % 2 = 0 then .take else .dispatch o

theorem fair_alternating (o : Outside) : Fair (alternating o) where
  takes n := ⟨2 * n, by omega, by simp [alternating]⟩
  dispatches n := ⟨2 * n + 1, by omega, o, by simp [alternating, Nat.add_mod]⟩

/-- The dispatcher does not feed itself from outside. -/
theorem not_feeds_alternating (limits : DispatchLimits) (o : Outside) (s : System) (n : Nat) :
    ∀ ev ∈ seen limits (alternating o) s n, ¬ ev.Feeds := by
  intro ev hev
  obtain ⟨ks, mv, ls, t, hms, hmv, -⟩ := exists_move_of_mem hev
  have hmem : mv ∈ (List.range n).map (alternating o) := by
    rw [hms]
    exact List.mem_append_right _ List.mem_cons_self
  obtain ⟨k, -, rfl⟩ := List.mem_map.mp hmem
  unfold alternating at hmv
  split at hmv
  · simp only [step] at hmv
    split at hmv <;> cases hmv
    exact id
  · simp only [step] at hmv
    split at hmv
    · cases hmv
    · split at hmv <;> cases hmv <;> exact id

/-- A site with one execution that waits, and with one executor that has reported another one. -/
def oneReported : Site :=
  (after ⟨1, 0⟩ (Move.alone (.registerExecutor "a" 9000 ⟨0, 0⟩) ++
    Move.alone (.execFlow 10 1 ⟨0, 0⟩ .none) ++ Move.dispatchAlone .answering ++
    Move.alone (.reportExecutor "a" 9000 ⟨0, 0⟩ [1]) ++
    Move.alone (.execFlow 10 1 ⟨0, 0⟩ .none)) (start .oneFlow)).site

set_option maxRecDepth 100000 in
/-- The only executor cannot be reached: what it has reported is queued as well, and no executor is
left. -/
theorem drains_silent :
    oneReported.queue.waiting.map (·.id) = [2] ∧
      oneReported.registry.executors.map (·.execIds) = [[1]] ∧
      (along ⟨1, 0⟩ (alternating .silent) (idle oneReported) 20).site.queue.waiting.map (·.id) =
        [2, 1] ∧
      ∃ n, (along ⟨1, 0⟩ (alternating .silent) (idle oneReported) n).dispatch = none ∧
        ((along ⟨1, 0⟩ (alternating .silent) (idle oneReported) n).site.queue.waiting = [] ∨
          (along ⟨1, 0⟩ (alternating .silent) (idle oneReported) n).site.registry.executors =
            []) ∧
        (seen ⟨1, 0⟩ (alternating .silent) (idle oneReported) n).countP Event.isTake ≤ 3 := by
  have hconsumer : oneReported.queue.hasConsumer = true := rfl
  obtain ⟨⟨n, hd, hend, hle⟩, -, -⟩ := drains ⟨1, 0⟩ hconsumer
    (fair_alternating .silent) (not_feeds_alternating _ _ _)
  exact ⟨rfl, rfl, rfl, n, hd, hend, hle⟩

end System

end WorkflowScheduler
