import WorkflowScheduler.Proofs.Reactions
import WorkflowScheduler.Proofs.RegistryHistory

/-!
# What one dispatch may do

A dispatch of a copy has the store, the registry and the queue to itself, but for the calls: while
an executor is called, others may write the status of any row, and the executor may reply anything.
Whatever they do, the dispatch ends in one of a few ways. It submits the copy to one executor, again
only after a refusal, and it changes at most the row of the copy, by one comparison with the status
that the copy has.

## Main definitions

* `Dispatch.Concludes`: what a dispatch does after its last submit
* `Dispatch.Effect`: what a whole dispatch does
* `Dispatch.Submitting`: the course of a dispatch that submits its copy

## Main results

* `Dispatch.Follows.concludes`: what follows the submits is one of the ways to conclude
* `Dispatch.Submitting.effect`: the effect of a dispatch that submits its copy
* `Dispatch.run_effect`: every dispatch ends, and what it has done until then
-/

namespace WorkflowScheduler

namespace Dispatch

variable {e : Execution} {a : Address} {s t u : Site} {us vs : Turns}
  {result : Option DispatchOutcome}

/-! ## After the last submit -/

/-- The turn of a comparison with the row of a copy. -/
def comparison (e : Execution) (update : StatusUpdate) (s : Site) (changed : Bool) (t : Site) :
    Turn Request.Answer Site :=
  ⟨s, ⟨.store (.transition e.id e.status update), .ok changed⟩, t⟩

/-- **How a dispatch ends after its last submit**, by the last reply and by what has become of the
row. The entry is what the executor had registered. -/
inductive Concludes (e : Execution) (entry : Executor) (s : Site) :
    Except CallError Unit → Turns → DispatchOutcome → Site → Prop
  | dispatched (now : Instant) (hs : s.Expects e) :
      Concludes e entry s (.ok ())
        [comparison e (.runningOn entry.address.display) s true
          (s.changed e now (.runningOn entry.address.display))]
        (.dispatched entry.address) (s.changed e now (.runningOn entry.address.display))
  | cancelled (o : Reaction) (hs : ¬ s.Expects e) :
      Concludes e entry s (.ok ())
        [comparison e (.runningOn entry.address.display) s false s,
          ⟨s, ⟨.call (.cancel entry.address e.id), o.reply⟩,
            { s with store := s.store.written o.writes }⟩]
        .abandoned { s with store := s.store.written o.writes }
  | failed (reason : String) (now : Instant) (hs : s.Expects e) :
      Concludes e entry s (.error (.rejected reason))
        [comparison e (.toStatus .failed) s true (s.changed e now (.toStatus .failed))]
        .failed (s.changed e now (.toStatus .failed))
  | outrun (reason : String) (hs : ¬ s.Expects e) :
      Concludes e entry s (.error (.rejected reason))
        [comparison e (.toStatus .failed) s false s] .abandoned s
  | lost (reason : String) {us : Turns} {ws : List StatusWrite} (hs : s.Expects e)
      (hus : ∀ u ∈ us, IsMild u) :
      Concludes e entry s (.error (.transport reason)) us
        (.executorLost entry.address (resubmitted s.queue
          (orphans (s.store.written ws) entry.address.display e.id entry.execIds)))
        (failedOver s e entry ws)
  | dropped (reason : String) {u : Turn Request.Answer Site} (hs : ¬ s.Expects e) (hu : IsQuiet u) :
      Concludes e entry s (.error (.transport reason)) [u] .abandoned s

theorem commit_ran {entry : Executor} (hrow : s.store.Has e.id)
    (h : (commit e entry.address).Ran Site.react Eq s us result t) :
    ∃ o, result = some o ∧ Concludes e entry s (.ok ()) us o t := by
  rw [commit_eq] at h
  cases h with
  | @ask _ _ _ s _ turns _ o hs hr =>
    subst hs
    by_cases ha : s.Expects e
    · rw [react_transition o ha] at hr ⊢
      cases hr with
      | done ht =>
        subst ht
        exact ⟨_, rfl, .dispatched o.now ha⟩
    · rw [react_transition_moved o hrow ha] at hr ⊢
      cases hr with
      | ask o' hs hr =>
        subst hs
        cases hr with
        | done ht =>
          subst ht
          exact ⟨_, rfl, .cancelled o' ha⟩

theorem markFailed_ran {entry : Executor} (reason : String) (hrow : s.store.Has e.id)
    (h : (markFailed e).Ran Site.react Eq s us result t) :
    ∃ o, result = some o ∧ Concludes e entry s (.error (.rejected reason)) us o t := by
  rw [markFailed_eq] at h
  cases h with
  | @ask _ _ _ s _ turns _ o hs hr =>
    subst hs
    by_cases ha : s.Expects e
    · rw [react_transition o ha] at hr ⊢
      cases hr with
      | done ht =>
        subst ht
        exact ⟨_, rfl, .failed reason o.now ha⟩
    · rw [react_transition_moved o hrow ha] at hr ⊢
      cases hr with
      | done ht =>
        subst ht
        exact ⟨_, rfl, .outrun reason ha⟩

theorem unreachable_ran {entry : Executor} (reason : String)
    (hentry : s.registry.get? entry.address = some entry)
    (h : ((stillPending e).bind fun b =>
      if b then failOver e entry.address else .done .abandoned).Ran Site.react Eq s us result t) :
    ∃ o, result = some o ∧ Concludes e entry s (.error (.transport reason)) us o t := by
  obtain ⟨x, b, vs, rfl, hx, hb, hr⟩ := stillPending_ran h
  have hquiet : IsQuiet ⟨s, x, s⟩ := ⟨by rw [hx]; rfl, by rw [hx]; rfl, rfl⟩
  cases b with
  | true =>
    obtain ⟨hvs, ws, rfl, rfl⟩ := failOver_ran hentry hr
    exact ⟨_, rfl, .lost reason (hb.mp rfl) (List.forall_mem_cons.mpr ⟨.inl hquiet, hvs⟩)⟩
  | false =>
    cases hr with
    | done ht =>
      subst ht
      exact ⟨_, rfl, .dropped reason (fun hs => by simpa using hb.mpr hs) hquiet⟩

/-- **What follows the submits concludes the dispatch**, as the last reply says. -/
theorem Follows.concludes {n : Nat} {vs : List Submission} {p : Program DispatchOutcome}
    {entry : Executor} {v : Submission} (hp : Follows e entry.address n vs p)
    (hv : vs.getLast? = some v) (hrow : s.store.Has e.id)
    (hentry : s.registry.get? entry.address = some entry)
    (h : p.Ran Site.react Eq s us result t) :
    ∃ o, result = some o ∧ Concludes e entry s v.reply us o t ∧
      (v.IsRefused → vs.length = n ∧ ∀ w ∈ vs, w.IsRefused) := by
  cases hp with
  | refused hn hvs =>
    obtain ⟨reason, hreason⟩ := hvs v (List.mem_of_getLast? hv)
    obtain ⟨o, ho, hc⟩ := markFailed_ran reason hrow h
    exact ⟨o, ho, hreason ▸ hc, fun _ => ⟨hn, hvs⟩⟩
  | accepted hl hr =>
    obtain rfl := Option.some.inj (hl.symm.trans hv)
    obtain ⟨o, ho, hc⟩ := commit_ran hrow h
    exact ⟨o, ho, hr ▸ hc, fun ⟨_, hne⟩ => by rw [hr] at hne; cases hne⟩
  | unreachable hl hr =>
    obtain rfl := Option.some.inj (hl.symm.trans hv)
    obtain ⟨o, ho, hc⟩ := unreachable_ran _ hentry h
    exact ⟨o, ho, hr ▸ hc, fun ⟨_, hne⟩ => by rw [hr] at hne; cases hne⟩

/-- The dispatch writes nothing: another store is left behind only where it goes out to an executor. -/
def Unwritten (us : Turns) : Prop :=
  ∀ u ∈ us, u.exchange.1.goesOut = false → u.after.store = u.before.store

/-- A mild turn is no call and no change of status, and nothing is written. -/
theorem IsMild.cases {u : Turn Request.Answer Site} (h : IsMild u) :
    submission? u = none ∧ u.exchange.1.call? = none ∧ u.exchange.1.isTransition = false ∧
      (u.exchange.1.goesOut = false → u.after.store = u.before.store) := by
  obtain ⟨s, ⟨r, x⟩, t⟩ := u
  rcases h with hq | ⟨a, rfl⟩
  · cases r with
    | call c => cases hq.goesOut
    | _ => exact ⟨rfl, rfl, hq.isTransition, fun _ => hq.store⟩
  · exact ⟨rfl, rfl, rfl, fun hout => by cases hout⟩

theorem mild_eq (h : ∀ u ∈ us, IsMild u) :
    submissions us = [] ∧ calls us = [] ∧ transitions us = 0 ∧ Unwritten us := by
  refine ⟨?_, ?_, ?_, fun u hu => (h u hu).cases.2.2.2⟩
  · exact List.filterMap_eq_nil_iff.mpr fun u hu => (h u hu).cases.1
  · exact List.filterMap_eq_nil_iff.mpr fun u hu => (h u hu).cases.2.1
  · exact List.countP_eq_zero.mpr fun u hu => by simp [(h u hu).cases.2.2.1]

theorem quiet_eq (h : ∀ u ∈ us, IsQuiet u) :
    submissions us = [] ∧ calls us = [] ∧ transitions us = 0 ∧ Unwritten us :=
  mild_eq fun u hu => .inl (h u hu)

namespace Concludes

variable {entry : Executor} {reply : Except CallError Unit} {o : DispatchOutcome}

theorem submissions_eq (h : Concludes e entry s reply us o t) : submissions us = [] := by
  cases h with
  | lost _ _ hus => exact (mild_eq hus).1
  | dropped _ _ hu => exact (quiet_eq (List.forall_mem_singleton.mpr hu)).1
  | _ => rfl

theorem transitions_le (h : Concludes e entry s reply us o t) : transitions us ≤ 1 := by
  cases h with
  | lost _ _ hus => exact (mild_eq hus).2.2.1 ▸ Nat.zero_le 1
  | dropped _ _ hu => exact (quiet_eq (List.forall_mem_singleton.mpr hu)).2.2.1 ▸ Nat.zero_le 1
  | _ => exact Nat.le_refl 1

/-- While the row waits for the dispatch, there is no call but the submits. -/
theorem calls_eq_nil (h : Concludes e entry s reply us o t) (hs : s.Expects e) : calls us = [] := by
  cases h with
  | lost _ _ hus => exact (mild_eq hus).2.1
  | dropped _ ha | cancelled _ ha | outrun _ ha => exact absurd hs ha
  | dispatched | failed => rfl

/-- The only turn that writes is the comparison with the row. -/
theorem writesFor (h : Concludes e entry s reply us o t) :
    ∀ u ∈ us, u.exchange.1.goesOut = false → WritesFor e u := by
  cases h with
  | dispatched now =>
    exact List.forall_mem_singleton.mpr fun _ => .inr ⟨now, _, rfl, rfl⟩
  | failed _ now =>
    exact List.forall_mem_singleton.mpr fun _ => .inr ⟨now, _, rfl, rfl⟩
  | cancelled o =>
    refine List.forall_mem_cons.mpr ⟨fun _ => .inl rfl, List.forall_mem_singleton.mpr ?_⟩
    exact fun hout => by cases hout
  | outrun => exact List.forall_mem_singleton.mpr fun _ => .inl rfl
  | lost _ _ hus => exact fun u hu hout => .inl ((mild_eq hus).2.2.2 u hu hout)
  | dropped _ _ hu => exact List.forall_mem_singleton.mpr fun _ => .inl hu.store

theorem dispatched_iff (h : Concludes e entry s reply us o t) (a : Address) :
    o = .dispatched a ↔ entry.address = a ∧ reply = .ok () ∧ s.Expects e := by
  cases h <;> simp [*]

theorem failed_iff (h : Concludes e entry s reply us o t) :
    o = .failed ↔ (∃ reason, reply = .error (.rejected reason)) ∧ s.Expects e := by
  cases h <;> simp [*]

theorem lost_iff (h : Concludes e entry s reply us o t) (a : Address) :
    (∃ ids, o = .executorLost a ids) ↔
      entry.address = a ∧ (∃ reason, reply = .error (.transport reason)) ∧ s.Expects e := by
  cases h <;> simp [*]

theorem ne_stalled (h : Concludes e entry s reply us o t) : o ≠ .stalled := by
  cases h <;> simp

theorem of_dispatched {a : Address} (h : Concludes e entry s reply us (.dispatched a) t) :
    ∃ now, t = s.changed e now (.runningOn a.display) := by
  cases h with
  | dispatched now => exact ⟨now, rfl⟩

theorem of_failed (h : Concludes e entry s reply us .failed t) :
    ∃ now, t = s.changed e now (.toStatus .failed) := by
  cases h with
  | failed _ now => exact ⟨now, rfl⟩

theorem of_lost {a : Address} {ids : List Int}
    (h : Concludes e entry s reply us (.executorLost a ids) t) :
    Unwritten us ∧ a = entry.address ∧ (∃ ws, t = failedOver s e entry ws) ∧
      ids = resubmitted s.queue (orphans t.store a.display e.id entry.execIds) := by
  cases h with
  | lost _ _ hus => exact ⟨(mild_eq hus).2.2.2, rfl, ⟨_, rfl⟩, rfl⟩

/-- **If the row has moved, nothing is written**, and a copy that was accepted is cancelled. -/
theorem of_moved (h : Concludes e entry s reply us o t) (hs : ¬ s.Expects e) :
    o = .abandoned ∧ Unwritten us ∧ t = { s with store := t.store } ∧
      calls us = if reply = .ok () then [.cancel entry.address e.id] else [] := by
  cases h with
  | dispatched _ ha | failed _ _ ha | lost _ ha => exact absurd ha hs
  | cancelled o =>
    refine ⟨rfl, ?_, rfl, rfl⟩
    refine List.forall_mem_cons.mpr ⟨fun _ => rfl, List.forall_mem_singleton.mpr ?_⟩
    exact fun hout => by cases hout
  | outrun => exact ⟨rfl, List.forall_mem_singleton.mpr fun _ => rfl, rfl, rfl⟩
  | dropped _ _ hu =>
    obtain ⟨-, hcalls, -, hus⟩ := quiet_eq (List.forall_mem_singleton.mpr hu)
    exact ⟨rfl, hus, rfl, hcalls⟩

end Concludes

/-! ## The whole dispatch -/

/-- **What a whole dispatch does**, by what the executor has replied and by whether the row was then
in the status of the copy. -/
structure Effect (limits : DispatchLimits) (e : Execution) (s : Site) (us : Turns)
    (o : DispatchOutcome) (t : Site) : Prop where
  /-- At most one comparison with the status of the copy is asked for, and nothing else is written. -/
  transitions_le : transitions us ≤ 1
  writesFor : ∀ u ∈ us, u.exchange.1.goesOut = false → WritesFor e u
  /-- All submits go to the executor that is picked, and each but the last is refused. -/
  picked : ∀ v ∈ submissions us, ∃ x, s.registry.pick.1 = some x ∧ v.executor = x.address
  submissions_le : (submissions us).length ≤ max limits.retryCount 1
  refused : ∀ v ∈ (submissions us).dropLast, v.IsRefused
  /-- The row is gone or has moved at the first check: nothing happens at all. -/
  gone : ¬ s.Expects e → o = .abandoned ∧ (∀ u ∈ us, u.exchange.1.goesOut = false) ∧ t = s
  /-- There is no executor: the copy is queued again. -/
  stalled : o = .stalled ↔ s.Expects e ∧ s.registry.executors = []
  of_stalled : o = .stalled → (∀ u ∈ us, u.exchange.1.goesOut = false) ∧
    t = { s with queue := (s.queue.push e).2 } ∧
      (s.queue.hasConsumer = true → t.queue.waiting = s.queue.waiting ++ [e])
  /-- An executor accepts, and the row still waits: it runs there. -/
  dispatched : ∀ a, o = .dispatched a ↔ ∃ v, (submissions us).getLast? = some v ∧
    v.executor = a ∧ v.reply = .ok () ∧ v.after.Expects e
  of_dispatched : ∀ a, o = .dispatched a → t.queue = s.queue ∧ t.registry = s.registry.turned ∧
    ∃ row, t.store.execution? e.id = some row ∧ row.status = .running ∧
      row.worker = some a.display
  /-- Every attempt is refused, and the row still waits: it has failed. -/
  failed : o = .failed ↔ (submissions us).length = max limits.retryCount 1 ∧
    (∀ v ∈ submissions us, v.IsRefused) ∧
      ∃ v, (submissions us).getLast? = some v ∧ v.after.Expects e
  of_failed : o = .failed → t.queue = s.queue ∧ t.registry = s.registry.turned ∧
    ∃ row, t.store.execution? e.id = some row ∧ row.status = .failed
  /-- The executor is not reached, and the row still waits: the executor is removed, and no other,
  and the copy and what the executor leaves behind are queued. -/
  lost : ∀ a, (∃ ids, o = .executorLost a ids) ↔ ∃ v reason, (submissions us).getLast? = some v ∧
    v.executor = a ∧ v.reply = .error (.transport reason) ∧ v.after.Expects e
  of_lost : ∀ a ids, o = .executorLost a ids → Unwritten us ∧
    ∃ entry, s.registry.get? a = some entry ∧
      s.registry.turned.Removes a t.registry ∧
      t.queue = pushAll s.queue (e :: orphans t.store a.display e.id entry.execIds) ∧
      ids = resubmitted s.queue (orphans t.store a.display e.id entry.execIds)
  /-- The row has moved during the last submit: nothing is written, and a copy that was accepted is
  cancelled. -/
  of_moved : ∀ v, (submissions us).getLast? = some v → ¬ v.after.Expects e → o = .abandoned ∧
    Unwritten us ∧ t.queue = s.queue ∧ t.registry = s.registry.turned ∧
      calls us = List.replicate (submissions us).length
          (.submit v.executor e.projectId e.id e.flowKind) ++
        if v.reply = .ok () then [.cancel v.executor e.id] else []
  /-- As long as the row waits, the executor is only called to submit. -/
  calls_eq : ∀ v, (submissions us).getLast? = some v → v.after.Expects e →
    calls us = List.replicate (submissions us).length
      (.submit v.executor e.projectId e.id e.flowKind)

variable {limits : DispatchLimits} {o : DispatchOutcome}

/-- The effect of a dispatch that ends without a submit. -/
theorem Effect.of_quiet (hus : ∀ u ∈ us, IsQuiet u)
    (hgone : ¬ s.Expects e → o = .abandoned ∧ t = s)
    (hstalled : s.Expects e → s.registry.executors = [] ∧ o = .stalled ∧
      t = { s with queue := (s.queue.push e).2 }) : Effect limits e s us o t := by
  obtain ⟨hsub, -, htr, hunwritten⟩ := quiet_eq hus
  have hin : ∀ u ∈ us, u.exchange.1.goesOut = false := fun u hu => (hus u hu).goesOut
  have ho : o = .abandoned ∧ ¬ s.Expects e ∨ o = .stalled ∧ s.Expects e := by
    by_cases ha : s.Expects e
    · exact .inr ⟨(hstalled ha).2.1, ha⟩
    · exact .inl ⟨(hgone ha).1, ha⟩
  constructor
  case transitions_le => exact htr ▸ Nat.zero_le 1
  case writesFor => exact fun u hu hout => .inl (hunwritten u hu hout)
  case gone => exact fun ha => ⟨(hgone ha).1, hin, (hgone ha).2⟩
  case stalled =>
    rcases ho with ⟨rfl, ha⟩ | ⟨rfl, ha⟩
    · simp [ha]
    · simp [ha, (hstalled ha).1]
  case of_stalled =>
    rintro rfl
    obtain ⟨h, -⟩ | ⟨-, ha⟩ := ho
    · cases h
    · obtain ⟨-, -, rfl⟩ := hstalled ha
      exact ⟨hin, rfl, fun hc => (Site.answer_queue (r := .push e) (o := ⟨⟨0, 0⟩, .ok ()⟩) hc).1⟩
  all_goals rcases ho with ⟨rfl, -⟩ | ⟨rfl, -⟩ <;> simp [hsub]

theorem execution?_changed (hs : s.Expects e) (now : Instant) (update : StatusUpdate) :
    ∃ row, (s.changed e now update).store.execution? e.id = some row ∧
      row.status = update.status ∧ ∀ w, update.worker = some w → row.worker = some w := by
  obtain ⟨row, hrow, -⟩ := hs
  refine ⟨Store.applyUpdate now update row, ?_, rfl, fun w hw => ?_⟩
  · simp [Site.changed, Store.execution?_applyUpdate, hrow]
  · simp [Store.applyUpdate, hw]

/-- **The course of a dispatch that submits its copy**: what comes before the submits is quiet, and
what follows the last of them concludes the dispatch. -/
structure Submitting (limits : DispatchLimits) (e : Execution) (s : Site) (entry : Executor)
    (v : Submission) (head us vs : Turns) (o : DispatchOutcome) (t : Site) : Prop where
  expects : s.Expects e
  pick : ∃ x, s.registry.pick.1 = some x ∧ entry.address = x.address
  registered : s.registry.get? entry.address = some entry
  quiet : ∀ u ∈ head, IsQuiet u
  submits : Submits e entry.address { s with registry := s.registry.pick.2 } us v.after
  length_le : (submissions us).length ≤ max limits.retryCount 1
  refused : ∀ w ∈ (submissions us).dropLast, w.IsRefused
  last : (submissions us).getLast? = some v
  all_refused : v.IsRefused → (submissions us).length = max limits.retryCount 1 ∧
    ∀ w ∈ submissions us, w.IsRefused
  concludes : Concludes e entry v.after v.reply vs o t

namespace Submitting

variable {entry : Executor} {v : Submission} {head : Turns}

theorem submissions_eq (h : Submitting limits e s entry v head us vs o t) :
    submissions (head ++ (us ++ vs)) = submissions us := by
  simp [(quiet_eq h.quiet).1, h.concludes.submissions_eq]

theorem calls_eq (h : Submitting limits e s entry v head us vs o t) :
    calls (head ++ (us ++ vs)) = List.replicate (submissions us).length
      (.submit entry.address e.projectId e.id e.flowKind) ++ calls vs := by
  simp [(quiet_eq h.quiet).2.1, h.submits.calls_eq]

theorem transitions_eq (h : Submitting limits e s entry v head us vs o t) :
    transitions (head ++ (us ++ vs)) = transitions vs := by
  simp [(quiet_eq h.quiet).2.2.1, h.submits.transitions_eq]

theorem executor_eq (h : Submitting limits e s entry v head us vs o t) :
    v.executor = entry.address :=
  h.submits.executor_eq v (List.mem_of_getLast? h.last)

/-- The submits change neither the queue nor the registry, in which the pick has moved on. -/
theorem after_eq (h : Submitting limits e s entry v head us vs o t) :
    v.after.queue = s.queue ∧ v.after.registry = s.registry.turned := by
  obtain ⟨x, hpick, -⟩ := h.pick
  have hframe := h.submits.frame.1
  refine ⟨by rw [hframe], ?_⟩
  rw [hframe]
  exact Registry.pick_snd hpick

theorem executors_ne_nil (h : Submitting limits e s entry v head us vs o t) :
    s.registry.executors ≠ [] := by
  obtain ⟨x, hpick, -⟩ := h.pick
  intro hnil
  have hx := Registry.mem_of_pick hpick
  rw [hnil] at hx
  cases hx

/-- What holds of the quiet turns and of those after the submits holds of all that do not go out to an
executor. -/
theorem forall_inside (h : Submitting limits e s entry v head us vs o t)
    {P : Turn Request.Answer Site → Prop} (hhead : ∀ w ∈ head, P w)
    (hvs : ∀ w ∈ vs, w.exchange.1.goesOut = false → P w) :
    ∀ w ∈ head ++ (us ++ vs), w.exchange.1.goesOut = false → P w := by
  intro w hmem hout
  rcases List.mem_append.mp hmem with hmem | hmem
  · exact hhead w hmem
  rcases List.mem_append.mp hmem with hmem | hmem
  · -- every submit goes out
    have hgoes := h.submits.goesOut w hmem
    rw [hout] at hgoes
    cases hgoes
  · exact hvs w hmem hout

theorem unwritten (h : Submitting limits e s entry v head us vs o t) (hvs : Unwritten vs) :
    Unwritten (head ++ (us ++ vs)) :=
  h.forall_inside (fun w hw => (h.quiet w hw).store) hvs

/-- **The effect of a dispatch that submits its copy.** -/
theorem effect (h : Submitting limits e s entry v head us vs o t) :
    Effect limits e s (head ++ (us ++ vs)) o t := by
  have hc := h.concludes
  obtain ⟨hqueue, hregistry⟩ := h.after_eq
  constructor
  case transitions_le => exact h.transitions_eq ▸ hc.transitions_le
  case writesFor => exact h.forall_inside (fun w hw => .inl (h.quiet w hw).store) hc.writesFor
  case picked =>
    obtain ⟨x, hpick, haddress⟩ := h.pick
    rw [h.submissions_eq]
    exact fun w hw => ⟨x, hpick, (h.submits.executor_eq w hw).trans haddress⟩
  case submissions_le => exact h.submissions_eq ▸ h.length_le
  case refused => exact h.submissions_eq ▸ h.refused
  case gone => exact fun ha => absurd h.expects ha
  case stalled => simp [hc.ne_stalled, h.executors_ne_nil]
  case of_stalled => exact fun ho => absurd ho hc.ne_stalled
  case dispatched =>
    intro a
    rw [h.submissions_eq, h.last, hc.dispatched_iff, ← h.executor_eq]
    simp
  case of_dispatched =>
    rintro a rfl
    obtain ⟨now, rfl⟩ := hc.of_dispatched
    obtain ⟨row, hrow, hstatus, hworker⟩ :=
      execution?_changed ((hc.dispatched_iff a).mp rfl).2.2 now (.runningOn a.display)
    exact ⟨hqueue, hregistry, row, hrow, hstatus, hworker _ rfl⟩
  case failed =>
    rw [h.submissions_eq, h.last, hc.failed_iff]
    constructor
    · rintro ⟨hreply, ha⟩
      exact ⟨(h.all_refused hreply).1, (h.all_refused hreply).2, _, rfl, ha⟩
    · rintro ⟨-, hvs, _, ⟨⟩, ha⟩
      exact ⟨hvs _ (List.mem_of_getLast? h.last), ha⟩
  case of_failed =>
    rintro rfl
    obtain ⟨now, rfl⟩ := hc.of_failed
    obtain ⟨row, hrow, hstatus, -⟩ :=
      execution?_changed (hc.failed_iff.mp rfl).2 now (.toStatus .failed)
    exact ⟨hqueue, hregistry, row, hrow, hstatus⟩
  case lost =>
    intro a
    rw [h.submissions_eq, h.last, hc.lost_iff, ← h.executor_eq]
    constructor
    · rintro ⟨rfl, ⟨reason, hreply⟩, ha⟩
      exact ⟨_, reason, rfl, rfl, hreply, ha⟩
    · rintro ⟨_, reason, ⟨⟩, rfl, hreply, ha⟩
      exact ⟨rfl, ⟨reason, hreply⟩, ha⟩
  case of_lost =>
    rintro a ids rfl
    obtain ⟨hvs, rfl, ⟨ws, ht⟩, rfl⟩ := hc.of_lost
    refine ⟨h.unwritten hvs, entry, h.registered, ?_, ?_, ?_⟩
    · rw [ht, failedOver, hregistry]
      exact Registry.removes_evict _ _
    · rw [ht, failedOver, hqueue]
    · rw [hqueue]
  case of_moved =>
    rw [h.submissions_eq, h.last, h.calls_eq, ← h.executor_eq]
    rintro _ ⟨⟩ ha
    obtain ⟨rfl, hvs, ht, hcalls⟩ := hc.of_moved ha
    refine ⟨rfl, h.unwritten hvs, ?_, ?_, ?_⟩
    · rw [ht, hqueue]
    · rw [ht, hregistry]
    · rw [hcalls, h.executor_eq]
  case calls_eq =>
    rw [h.submissions_eq, h.last, h.calls_eq, ← h.executor_eq]
    rintro _ ⟨⟩ ha
    rw [hc.calls_eq_nil ha, List.append_nil]

end Submitting

/-- The effect of the submits to the executor that is picked. -/
theorem attempts_effect {x : Executor} {head : Turns} (hs : s.Expects e)
    (hpick : s.registry.pick.1 = some x) (hhead : ∀ u ∈ head, IsQuiet u)
    (h : (attempts e x.address (max limits.retryCount 1)).Ran Site.react Eq
      { s with registry := s.registry.pick.2 } us result t) :
    ∃ o, result = some o ∧ Effect limits e s (head ++ us) o t := by
  obtain ⟨entry, hentry, haddress⟩ :=
    Registry.Has.get? (r := s.registry) ⟨x, Registry.mem_of_pick hpick, rfl⟩
  obtain ⟨n, hn⟩ : ∃ n, max limits.retryCount 1 = n + 1 := ⟨max limits.retryCount 1 - 1, by omega⟩
  obtain ⟨vs, ws, u, p, rfl, hvs, hle, hrefused, hp, hran⟩ := attempts_ran h
  obtain ⟨v, hv⟩ := Follows.exists_last (hn ▸ hp)
  have hrow : u.store.Has e.id := hvs.frame.2 (hs.imp fun _ h => h.1)
  have hregistered : u.registry.get? entry.address = some entry := by
    rw [hvs.frame.1]
    simpa [Registry.get?, Registry.pick_executors, haddress] using hentry
  rw [← haddress] at hvs hp hentry
  obtain ⟨o, ho, hc, hall⟩ := hp.concludes hv hrow hregistered hran
  obtain rfl := hvs.after_eq hv
  exact ⟨o, ho, Submitting.effect ⟨hs, ⟨x, hpick, haddress⟩, hentry, hhead, hvs, hle, hrefused, hv,
    hall, hc⟩⟩

/-- The effect of a dispatch whose row has been found in the status of the copy. -/
theorem choose_effect {u₀ : Turn Request.Answer Site} (hs : s.Expects e) (hu₀ : IsQuiet u₀)
    (h : (choose limits e).Ran Site.react Eq s us result t) :
    ∃ o, result = some o ∧ Effect limits e s (u₀ :: us) o t := by
  cases h with
  | @ask _ _ _ s _ turns _ o hst hr =>
    subst hst
    have hanswer : Site.react o .pick s =
        (s.registry.pick.1, { s with registry := s.registry.pick.2 }) := rfl
    rw [hanswer] at hr ⊢
    have hpicked : ∀ x : Option Executor, IsQuiet ⟨s, ⟨.pick, x⟩,
        { s with registry := s.registry.pick.2 }⟩ := fun x => ⟨rfl, rfl, rfl⟩
    rcases s.registry.pick_cases with ⟨hnil, hpick⟩ | ⟨x, hx, hpick⟩
    · -- there is no executor: after a pause the copy is queued again
      rw [hpick] at hr hpicked ⊢
      cases hr with
      | ask o' hst hr =>
        subst hst
        cases hr with
        | ask o'' hst hr =>
          subst hst
          cases hr with
          | done hst =>
            subst hst
            refine ⟨_, rfl, .of_quiet ?_ (fun ha => absurd hs ha) fun _ => ⟨hnil, rfl, rfl⟩⟩
            simp only [List.forall_mem_cons]
            exact ⟨hu₀, hpicked _, ⟨rfl, rfl, rfl⟩, ⟨rfl, rfl, rfl⟩, by simp⟩
    · have hx : s.registry.pick.1 = some x := by rw [hpick]
      rw [hx] at hr ⊢
      have hhead := List.forall_mem_cons.mpr
        ⟨hu₀, List.forall_mem_singleton.mpr (hpicked (some x))⟩
      exact attempts_effect hs hx hhead hr

/-- **Every course of a dispatch ends, and it has had one of the effects above.** -/
theorem run_ran (h : (run limits e).Ran Site.react Eq s us result t) :
    ∃ o, result = some o ∧ Effect limits e s us o t := by
  rw [run_eq] at h
  obtain ⟨x, b, vs, rfl, hx, hb, hr⟩ := stillPending_ran h
  have hquiet : IsQuiet ⟨s, x, s⟩ := ⟨by rw [hx]; rfl, by rw [hx]; rfl, rfl⟩
  cases b with
  | true => exact choose_effect (hb.mp rfl) hquiet hr
  | false =>
    have hgone : ¬ s.Expects e := fun hs => by simpa using hb.mpr hs
    cases hr with
    | done hst =>
      subst hst
      exact ⟨_, rfl, .of_quiet (List.forall_mem_singleton.mpr hquiet) (fun _ => ⟨rfl, rfl⟩)
        fun ha => absurd ha hgone⟩

end Dispatch

end WorkflowScheduler
