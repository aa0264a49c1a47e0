import WorkflowScheduler.Proofs.Addresses
import WorkflowScheduler.Proofs.Reactions
import WorkflowScheduler.Proofs.RegistryHistory

/-!
# The executions that a lost executor leaves behind

When an executor is given up, what it reported last may be out of date or wrong. What is queued
again is decided by the rows: those that are not finished and are recorded on this very executor, or
have not been handed out to anybody. This module states what a loss does while nothing else happens,
and which executions it queues.

## Main definitions

* `Registry.reported`: what an executor has reported last
* `Dispatch.strandedOn`: the rows that are queued again when an executor is lost
* `Dispatch.Loss`: what the loss of an executor does

## Main results

* `Dispatch.mem_strandedOn`: which rows are queued again
* `Dispatch.failOver_alone`: what is queued, and where the executor goes
* `Dispatch.failOver_loss`: the loss of an executor queues exactly what it leaves behind
-/

namespace WorkflowScheduler

/-- **An execution is left behind on an executor** if it has not ended, and its row names the
executor, or nobody while it still waits. -/
theorem Execution.isOrphanOf_iff {d : Execution} {executor : String} :
    d.isOrphanOf executor = true ↔ d.status.isFinished = false ∧
      (d.worker = some executor ∨ d.worker = none ∧ d.status = .init) := by
  unfold isOrphanOf
  cases d.worker <;> simp

/-- The ids that an executor has reported last; none if there is no such executor. -/
def Registry.reported (r : Registry) (a : Address) : List Int :=
  match r.get? a with
  | none => []
  | some x => x.execIds

theorem Registry.mem_reported {n : Int} {r : Registry} {a : Address} : n ∈ r.reported a ↔
    ∃ x h, r.get? a = some x ∧ x.heartbeat = some h ∧ n ∈ h.execIds := by
  unfold reported
  cases r.get? a with
  | none => simp
  | some x => cases hb : x.heartbeat <;> simp [Executor.execIds, hb, IdSet.mem_iff]

theorem Registry.pairwise_reported (r : Registry) (a : Address) :
    (r.reported a).Pairwise (· < ·) := by
  unfold reported
  split
  · exact .nil
  · next x _ => exact x.ascending

namespace Dispatch

variable {s t : Site} {e d : Execution} {a : Address}

/-! ## Orphans -/

theorem mem_orphans {store : Store} {executor : String} {except : Int} {ids : List Int} :
    d ∈ orphans store executor except ids ↔ d.id ∈ ids ∧ d.id ≠ except ∧
      store.execution? d.id = some d ∧ d.isOrphanOf executor = true := by
  simp only [orphans, List.mem_filterMap, List.mem_filter, decide_eq_true_eq, orphan?,
    Option.filter_eq_some_iff]
  constructor
  · rintro ⟨id, ⟨hid, hne⟩, hrow, horphan⟩
    obtain rfl := Store.execution?_id hrow
    exact ⟨hid, hne, hrow, horphan⟩
  · rintro ⟨hid, hne, hrow, horphan⟩
    exact ⟨d.id, ⟨hid, hne⟩, hrow, horphan⟩

/-- The orphans stand in the order of the ids that they come from. -/
theorem orphans_ids_sublist (store : Store) (executor : String) (except : Int) (ids : List Int) :
    ((orphans store executor except ids).map (·.id)).Sublist ids := by
  refine .trans ?_ (List.filter_sublist (p := (· ≠ except)))
  unfold orphans
  induction ids.filter (· ≠ except) with
  | nil => exact .slnil
  | cons id ids ih =>
    cases hid : orphan? store executor id with
    | none =>
      rw [List.filterMap_cons_none hid]
      exact ih.cons id
    | some row =>
      obtain rfl := Store.execution?_id (Option.filter_eq_some_iff.mp hid).1
      rw [List.filterMap_cons_some hid]
      exact ih.cons_cons row.id

/-- **The rows that are queued again when an executor is lost**, beside the execution at hand. -/
def strandedOn (s : Site) (a : Address) (e : Execution) : List Execution :=
  orphans s.store a.display e.id (s.registry.reported a)

/-- **Which rows are queued again.** -/
theorem mem_strandedOn : d ∈ strandedOn s a e ↔ d.id ∈ s.registry.reported a ∧ d.id ≠ e.id ∧
    s.store.execution? d.id = some d ∧ d.status.isFinished = false ∧
      (d.worker = some a.display ∨ d.worker = none ∧ d.status = .init) := by
  rw [strandedOn, mem_orphans, Execution.isOrphanOf_iff]

/-- An executor that is not registered leaves nothing behind. -/
theorem strandedOn_of_unknown (h : s.registry.get? a = none) (e : Execution) :
    strandedOn s a e = [] := by
  simp [strandedOn, Registry.reported, h, orphans]

/-! ## The loss -/

/-- The site after an executor has been given up. -/
def givenUp (s : Site) (a : Address) (e : Execution) : Site :=
  { s with
    queue := pushAll s.queue (e :: strandedOn s a e)
    registry := (s.registry.evict a).2 }

/-- At calls nothing is written by others. -/
def alone (o : Outside) : Reaction :=
  ⟨o, []⟩

theorem react_alone (o : Outside) (r : Request) (s : Site) :
    Site.react (alone o) r s = s.answer o r := by
  cases r <;> rfl

/-- **An executor is given up while nothing else happens**: the execution at hand is queued, then
the executor is evicted, and what it leaves behind is queued. -/
theorem failOver_alone {us : Turns} {result : Option DispatchOutcome}
    (h : (failOver e a).Ran Site.answer Eq s us result t) :
    t = givenUp s a e ∧
      result = some (.executorLost a (resubmitted s.queue (strandedOn s a e))) := by
  rw [failOver_eq] at h
  cases h with
  | ask o hs hr =>
    subst hs
    cases hr with
    | ask o' hu hr =>
      subst hu
      cases hr with
      | ask o'' hv hr =>
        subst hv
        have hanswer : ((Site.answer o (.push e) s).2.answer o' (.evict a)).1 =
            s.registry.get? a := rfl
        rw [hanswer] at hr
        cases hentry : s.registry.get? a with
        | none =>
          -- the executor has been given up before
          have hnil := strandedOn_of_unknown hentry e
          rw [hentry] at hr
          cases hr with
          | done hst => exact ⟨by rw [givenUp, hnil, ← hst]; rfl, by simp [hnil, resubmitted]⟩
        | some x =>
          have hreported : s.registry.reported a = x.execIds := by
            simp [Registry.reported, hentry]
          obtain rfl := Registry.address_of_get? hentry
          rw [hentry] at hr
          obtain ⟨listed, hresubmit, rfl⟩ := Interaction.Ran.of_map hr
          obtain ⟨-, rfl, rfl⟩ := resubmit_ran (hresubmit.of_answer alone react_alone)
          refine ⟨by rw [givenUp, strandedOn, hreported]; rfl, ?_⟩
          rw [strandedOn, hreported, ← resubmitted_push s.queue e]
          rfl

/-- **What the loss of an executor does**: which executions are queued behind the one at hand, and
which ids are listed. -/
structure Loss (s : Site) (a : Address) (e : Execution) (ds : List Execution) (ids : List Int)
    (t : Site) : Prop where
  store : t.store = s.store
  triggers : t.triggers = s.triggers
  /-- The executor is removed, and no other. -/
  registry : s.registry.Removes a t.registry
  /-- What is left behind: the current rows of the ids in the last heartbeat of the executor, except
  the execution at hand, that have not ended and are recorded on this executor, or wait and are
  recorded on none. -/
  mem_iff : ∀ d, d ∈ ds ↔
    (∃ x h, s.registry.get? a = some x ∧ x.heartbeat = some h ∧ d.id ∈ h.execIds) ∧
      d.id ≠ e.id ∧ s.store.execution? d.id = some d ∧ d.status.isFinished = false ∧
        (d.worker = some a.display ∨ d.worker = none ∧ d.status = .init)
  /-- Each stands there once, in the order of the ids. -/
  ascending : (ds.map (·.id)).Pairwise (· < ·)
  /-- Each is pushed, after the execution at hand. -/
  queue : t.queue = pushAll s.queue (e :: ds)
  of_hasConsumer : s.queue.hasConsumer = true →
    t.queue.waiting = s.queue.waiting ++ e :: ds ∧ ids = ds.map (·.id)
  of_closed : s.queue.hasConsumer = false → t.queue = s.queue ∧ ids = []
  /-- An executor that is not registered leaves nothing behind. -/
  of_unknown : s.registry.get? a = none → ds = [] ∧ ids = []
  /-- Nothing is queued that is recorded on another executor. -/
  not_others : ∀ d ∈ ds, ∀ b, b ≠ a → d.worker ≠ some b.display

theorem loss_alone (s : Site) (a : Address) (e : Execution) :
    Loss s a e (strandedOn s a e) (resubmitted s.queue (strandedOn s a e)) (givenUp s a e) where
  store := rfl
  triggers := rfl
  registry := s.registry.removes_evict a
  mem_iff d := by rw [mem_strandedOn, Registry.mem_reported]
  ascending := (s.registry.pairwise_reported a).sublist (orphans_ids_sublist _ _ _ _)
  queue := rfl
  of_hasConsumer hc := ⟨waiting_pushAll hc _, by simp [resubmitted, hc]⟩
  of_closed hc := ⟨pushAll_of_closed hc _, by simp [resubmitted, hc]⟩
  of_unknown hnone := by simp [strandedOn_of_unknown hnone, resubmitted]
  not_others d hd b hb hworker := by
    rcases (mem_strandedOn.mp hd).2.2.2.2 with ha | ⟨hnone, -⟩
    · exact hb (Address.display_injective (Option.some.inj (hworker.symm.trans ha)))
    · rw [hnone] at hworker
      cases hworker

theorem failOver_course (e : Execution) (a : Address) (outside : Nat → Outside) (s : Site) :
    ((failOver e a).course Site.answer outside s).2 =
      (some (.executorLost a (resubmitted s.queue (strandedOn s a e))), givenUp s a e) := by
  obtain ⟨ht, hresult⟩ :=
    failOver_alone (Interaction.ran_course Site.answer (failOver e a) outside s)
  exact Prod.ext hresult ht

/-- An executor that is not registered is lost: only the execution at hand is queued. -/
theorem failOver_unknown (ha : s.registry.get? a = none) (e : Execution)
    (outside : Nat → Outside) :
    ((failOver e a).course Site.answer outside s).2 =
        (some (.executorLost a []), givenUp s a e) ∧
      Loss s a e [] [] (givenUp s a e) := by
  have hloss := loss_alone s a e
  have hcourse := failOver_course e a outside s
  rw [strandedOn_of_unknown ha] at hloss hcourse
  have hnil : resubmitted s.queue [] = [] := by simp [resubmitted]
  rw [hnil] at hloss hcourse
  exact ⟨hcourse, hloss⟩

/-- **The loss of an executor queues exactly what it leaves behind.** Whatever the store, the
registry and the queue hold, and whatever the executor has reported last, the loss has the effect
above; and if the same executor is lost once more, only the execution at hand is queued. -/
theorem failOver_loss (s : Site) (e : Execution) (a : Address) (outside : Nat → Outside) :
    ∃ ds ids t,
      ((failOver e a).course Site.answer outside s).2 = (some (.executorLost a ids), t) ∧
      Loss s a e ds ids t ∧
      ∀ g later, ∃ u,
        ((failOver g a).course Site.answer later t).2 = (some (.executorLost a []), u) ∧
        Loss t a g [] [] u := by
  have hloss := loss_alone s a e
  refine ⟨_, _, _, failOver_course e a outside s, hloss, fun g later => ?_⟩
  -- the registry does not know the executor any more
  have hgone : (givenUp s a e).registry.get? a = none := (hloss.registry.get? a).trans (if_pos rfl)
  exact ⟨_, failOver_unknown hgone g later⟩

/-- A row of a flow. -/
def rowOf (id : Int) (status : Status) (worker : Option String) : Execution :=
  { Store.newRow id ⟨0, 0⟩ (.ofWorkflow ⟨1, 10, "flow", 42, .short, 0, ""⟩ .direct ⟨0, 0⟩) with
    status := status
    worker := worker }

/-- An executor has reported six executions: one runs there, one has ended, one waits and is
recorded nowhere, one runs elsewhere, one is the execution at hand, and one does not exist. -/
def sixReported : Site :=
  ⟨{ Store.empty with
      rows := [rowOf 1 .running "a:1", rowOf 2 .success "a:1", rowOf 3 .init none,
        rowOf 4 .running "b:1", rowOf 5 .init none]
      lastId := 5 },
    .after [.register ⟨"b", 1⟩ ⟨0, 0⟩, .report ⟨"a", 1⟩ ⟨0, 0⟩ [3, 6, 1, 4, 5, 2]], .empty, .empty⟩

/-- Of six executions two are left behind. -/
theorem failOver_loss_sixReported :
    ∃ ds t, ((failOver (rowOf 5 .init none) ⟨"a", 1⟩).course Site.answer
        (fun _ => ⟨⟨0, 0⟩, .ok ()⟩) sixReported).2 = (some (.executorLost ⟨"a", 1⟩ [1, 3]), t) ∧
      Loss sixReported ⟨"a", 1⟩ (rowOf 5 .init none) ds [1, 3] t ∧
      t.queue.waiting.map (·.id) = [5, 1, 3] := by
  obtain ⟨ds, ids, t, ht, hloss, -⟩ :=
    failOver_loss sixReported (rowOf 5 .init none) ⟨"a", 1⟩ fun _ => ⟨⟨0, 0⟩, .ok ()⟩
  have hresult : ((failOver (rowOf 5 .init none) ⟨"a", 1⟩).course Site.answer
      (fun _ => ⟨⟨0, 0⟩, .ok ()⟩) sixReported).2.1 = some (.executorLost ⟨"a", 1⟩ [1, 3]) := by
    decide +kernel
  rw [ht] at hresult
  obtain rfl : ids = [1, 3] := by simpa using hresult
  obtain ⟨hwaiting, hids⟩ := hloss.of_hasConsumer rfl
  refine ⟨ds, t, ht, hloss, ?_⟩
  rw [hwaiting, List.map_append, List.map_cons, ← hids]
  rfl

end Dispatch

end WorkflowScheduler
