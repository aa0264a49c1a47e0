import Mathlib.Algebra.GroupWithZero.Nat
import WorkflowScheduler.Proofs.Pending

/-!
# The load of a site

What the dispatcher has still to do: the copies that wait, and for each executor one round in which
it is given up and one for each execution that it has reported. A dispatch takes a copy out of the
queue; all it puts back is paid for by the executor that it gives up. So it leaves less to do than
it has found, or there is no executor left.

## Main definitions

* `Site.load`: what is still to do
* `Site.Quiet`: what others may do to a site without feeding it
* `Site.Awaits`: a copy in `INIT` waits in the queue
* `Dispatch.draining`: the terms of a dispatch in a site that is not fed
* `Dispatch.Drained`: what holds when a dispatch has ended

## Main results

* `Registry.load_evict`: an eviction takes the load of the executor away
* `Dispatch.run_drains`: a dispatch adds nothing to the load, or no executor is left
-/

namespace WorkflowScheduler

/-! ## Load -/

/-- The load of an executor: one, and what it has reported. -/
def Executor.load (x : Executor) : Nat :=
  1 + x.execIds.length

/-- The load of the executors of a registry. -/
def Registry.load (r : Registry) : Nat :=
  (r.executors.map Executor.load).sum

/-- **The load of a site**: what waits, and what its executors can leave behind. -/
def Site.load (s : Site) : Nat :=
  s.queue.waiting.length + s.registry.load

/-- The executors with an address are no part of what is left when it is given up. -/
theorem load_filter_le (a : Address) (es : List Executor) :
    ((es.filter fun e => e.address ≠ a).map Executor.load).sum ≤ (es.map Executor.load).sum := by
  induction es with
  | nil => exact Nat.le_refl _
  | cons e es ih =>
    by_cases he : e.address = a
    · rw [List.filter_cons_of_neg (by simp [he]), List.map_cons, List.sum_cons]
      exact Nat.le_add_left_of_le ih
    · rw [List.filter_cons_of_pos (by simp [he]), List.map_cons, List.map_cons, List.sum_cons,
        List.sum_cons]
      exact Nat.add_le_add_left ih _

/-- The load of the entry that is found for an address is no part of what is left without it. -/
theorem load_filter_add_le {a : Address} {x : Executor} {es : List Executor}
    (h : es.find? (·.address = a) = some x) :
    ((es.filter fun e => e.address ≠ a).map Executor.load).sum + x.load ≤
      (es.map Executor.load).sum := by
  induction es with
  | nil => cases h
  | cons e es ih =>
    by_cases he : e.address = a
    · -- the entry that is found is the first one, and its address goes with all its entries
      rw [List.find?_cons_of_pos (by simp [he])] at h
      obtain rfl := Option.some.inj h
      rw [List.filter_cons_of_neg (by simp [he]), List.map_cons, List.sum_cons, Nat.add_comm]
      exact Nat.add_le_add_left (load_filter_le a es) _
    · rw [List.find?_cons_of_neg (by simp [he])] at h
      rw [List.filter_cons_of_pos (by simp [he]), List.map_cons, List.map_cons, List.sum_cons,
        List.sum_cons, Nat.add_assoc]
      exact Nat.add_le_add_left (ih h) _

/-- **An eviction takes the load of the executor away.** -/
theorem Registry.load_evict {r : Registry} {a : Address} {x : Executor} (h : r.get? a = some x) :
    (r.evict a).2.load + x.load ≤ r.load :=
  load_filter_add_le h

/-- What waits after a push: what is pushed comes last, if there is a consumer. -/
theorem Queue.push_waiting (q : Queue) (e : Execution) :
    (q.push e).2.waiting = q.waiting ++ if q.hasConsumer then [e] else [] := by
  unfold push send
  by_cases hc : q.hasConsumer = true
  · simp [raise, hc]
  · simp [raise, lower, hc]

/-! ## Sites that are not fed -/

/-- A copy in `INIT` of an execution waits in the queue. -/
def Site.Awaits (s : Site) (id : Int) : Prop :=
  ∃ d ∈ s.queue.waiting, d.id = id ∧ d.status = .init

/-- **What others may do to a site without feeding it**: nothing is queued, no executor comes or
goes, and no row begins to wait. -/
structure Site.Quiet (s t : Site) : Prop where
  queue : t.queue = s.queue
  executors : t.registry.executors = s.registry.executors
  waits : ∀ id, t.Waits id → s.Waits id

namespace Site

variable {s t u : Site}

theorem Quiet.refl (s : Site) : s.Quiet s :=
  ⟨rfl, rfl, fun _ h => h⟩

theorem Quiet.trans (h : s.Quiet t) (k : t.Quiet u) : s.Quiet u :=
  ⟨k.queue.trans h.queue, k.executors.trans h.executors, fun id hid => h.waits id (k.waits id hid)⟩

theorem Quiet.load (h : s.Quiet t) : t.load = s.load := by
  rw [Site.load, Site.load, Registry.load, Registry.load, h.queue, h.executors]

theorem Quiet.awaits (h : s.Quiet t) {id : Int} (hs : s.Awaits id) : t.Awaits id := by
  rw [Awaits, h.queue]
  exact hs

theorem Quiet.has (h : s.Quiet t) {a : Address} (hs : s.registry.Has a) : t.registry.Has a := by
  rw [Registry.Has, h.executors]
  exact hs

/-- A push adds one to the load at most. -/
theorem load_push_le (s : Site) (o : Outside) (d : Execution) :
    (s.answer o (.push d)).2.load ≤ s.load + 1 := by
  show (s.queue.push d).2.waiting.length + s.registry.load ≤
    s.queue.waiting.length + s.registry.load + 1
  rw [Queue.push_waiting, List.length_append]
  split
  · rw [List.length_singleton]
    omega
  · rw [List.length_nil]
    omega

/-- What waits still waits after a push. -/
theorem Awaits.push {id : Int} (h : s.Awaits id) (o : Outside) (d : Execution) :
    (s.answer o (.push d)).2.Awaits id := by
  obtain ⟨c, hc, hid⟩ := h
  refine ⟨c, ?_, hid⟩
  show c ∈ (s.queue.push d).2.waiting
  rw [Queue.push_waiting]
  exact List.mem_append_left _ hc

/-- What is pushed waits, as long as there is a consumer. -/
theorem awaits_push (hc : s.queue.hasConsumer = true) (o : Outside) {d : Execution}
    (hd : d.status = .init) : (s.answer o (.push d)).2.Awaits d.id := by
  refine ⟨d, ?_, rfl, hd⟩
  show d ∈ (s.queue.push d).2.waiting
  rw [Queue.push_waiting, if_pos hc]
  exact List.mem_append_right _ (List.mem_singleton.mpr rfl)

/-- An eviction takes the load of the executor away from a site. -/
theorem load_evict {a : Address} {x : Executor} (h : s.registry.get? a = some x) (o : Outside) :
    (s.answer o (.evict a)).2.load + x.load ≤ s.load := by
  show s.queue.waiting.length + (s.registry.evict a).2.load + x.load ≤
    s.queue.waiting.length + s.registry.load
  rw [Nat.add_assoc]
  exact Nat.add_le_add_left (Registry.load_evict h) _

/-- What waits still waits after a request. -/
theorem Awaits.answer {id : Int} (h : s.Awaits id) (o : Outside) (r : Request) :
    (s.answer o r).2.Awaits id := by
  cases r with
  | push d => exact h.push o d
  | _ => exact h

/-- A row that waits after a request has waited before, if the request neither stores an execution
nor leads a row to `INIT`. -/
theorem waits_answer {r : Request} {o : Outside} {id : Int} (hc : r.creates = false)
    (hr : ∀ j expected v, r = .store (.transition j expected v) → v.status ≠ .init)
    (h : (s.answer o r).2.Waits id) : s.Waits id := by
  obtain ⟨f, hf, hi⟩ := h
  cases he : s.store.execution? id with
  | none =>
    obtain ⟨n, rfl, -⟩ := execution?_answer_new he hf
    cases hc
  | some e =>
    rw [execution?_answer he] at hf
    obtain rfl := Option.some.inj hf
    refine ⟨e, he, ?_⟩
    unfold Request.rowAfter StoreRequest.rowAfter at hi
    split at hi
    · split at hi
      · next j expected v =>
        split at hi
        · exact absurd hi (hr j expected v rfl)
        · exact hi
      · exact hi
    · exact hi

/-- A change of the status of a row that leads from `INIT` to another status leaves none waiting. -/
theorem not_waits_transition (s : Site) (o : Outside) {e : Execution} {v : StatusUpdate}
    (he : e.status = .init) (hv : v.status ≠ .init) :
    ¬ (s.answer o (.store (.transition e.id e.status v))).2.Waits e.id := by
  rintro ⟨f, hf, hi⟩
  cases hd : s.store.execution? e.id with
  | none =>
    obtain ⟨n, hn, -⟩ := execution?_answer_new hd hf
    cases hn
  | some d =>
    rw [execution?_answer hd] at hf
    obtain rfl := Option.some.inj hf
    simp only [Request.rowAfter, StoreRequest.rowAfter, Store.execution?_id hd, true_and] at hi
    split at hi
    · exact hv hi
    · next hs => exact hs (hi.trans he.symm)

end Site

/-! ## Dispatches in a site that is not fed -/

namespace Dispatch

/-- What a dispatch asks in a site that is not fed: it gives up only executors that are there, and
lets no row wait. -/
def Drains (r : Request) (s : Site) : Prop :=
  match r with
  | .store (.execution _) => True
  | .store (.transition _ _ u) => u.status ≠ .init
  | .evict a => s.registry.Has a
  | .push _ => True
  | .call _ => True
  | .pick => True
  | .forget _ => True
  | .pause _ => True
  | _ => False

/-- What a dispatch asks lets no row wait. -/
theorem Drains.waits {r : Request} {s : Site} {o : Outside} {id : Int} (h : Drains r s)
    (hw : (s.answer o r).2.Waits id) : s.Waits id := by
  cases r with
  | store q =>
    cases q with
    | execution j => exact hw
    | transition j expected v =>
      apply Site.waits_answer rfl _ hw
      rintro _ _ _ ⟨⟩
      exact h
    | _ => exact h.elim
  | _ => exact hw

/-- **The terms of a dispatch in a site that is not fed.** -/
def draining : Terms Request.Answer Site Outside where
  answer := Site.answer
  rely := Site.Quiet
  may _ r s := Drains r s
  rely_trans := Site.Quiet.trans
  rely_self _ := .refl _

/-- **What holds when the dispatch of a copy has ended**: the load is bounded, or there is no
executor left; and a row that still waits has a copy in `INIT` in the queue. -/
structure Drained (e : Execution) (n : Nat) (t : Site) : Prop where
  load : t.load ≤ n ∨ t.registry.executors = []
  waits : e.status = .init → t.Waits e.id → t.Awaits e.id

theorem Drained.quiet {e : Execution} {n : Nat} {s t : Site} (h : Drained e n s)
    (hst : s.Quiet t) : Drained e n t where
  load := by
    rw [hst.load, hst.executors]
    exact h.load
  waits hi hw := hst.awaits (h.waits hi (hst.waits _ hw))

theorem Drained.of_not_waits {e : Execution} {n : Nat} {s : Site} (hn : s.load ≤ n)
    (hw : e.status = .init → ¬ s.Waits e.id) : Drained e n s :=
  ⟨.inl hn, fun hi h => absurd h (hw hi)⟩

variable {e : Execution} {h : History} {s : Site} {n : Nat}

theorem stillPending_drains (s : Site) :
    (stillPending e).Keeps draining (fun _ b t => s.Quiet t ∧ ∃ p, b = some p ∧
      (p = false → e.status = .init → ¬ t.Waits e.id)) h s := by
  rw [stillPending_eq]
  refine fun t ht => ⟨trivial, fun o => ?_⟩
  have hanswer : draining.answer o (.store (.execution e.id)) t =
      (.ok (t.store.execution? e.id), t) := rfl
  rw [hanswer]
  cases hrow : t.store.execution? e.id with
  | none =>
    -- there is no such row, and none comes in
    refine fun u hu => ⟨ht.trans hu, false, rfl, fun _ _ hw => ?_⟩
    obtain ⟨f, hf, -⟩ := hu.waits _ hw
    rw [hrow] at hf
    cases hf
  | some row =>
    refine fun u hu => ⟨ht.trans hu, row.status == e.status, rfl, fun hne hi hw => ?_⟩
    obtain ⟨f, hf, hfi⟩ := hu.waits _ hw
    rw [hrow] at hf
    obtain rfl := Option.some.inj hf
    simp [hfi, hi] at hne

/-- **A commit adds nothing to the load**, and the row waits no more. -/
theorem commit_drains (hs : s.load ≤ n) (a : Address) :
    (commit e a).Keeps draining (fun _ _ t => Drained e n t) h s := by
  rw [commit_eq]
  refine fun t ht => ⟨by simp [draining, Drains, StatusUpdate.runningOn], fun o => ?_⟩
  have hdone : Drained e n
      (t.answer o (.store (.transition e.id e.status (.runningOn a.display)))).2 :=
    .of_not_waits (ht.load ▸ hs) fun hi =>
      t.not_waits_transition o hi (by simp [StatusUpdate.runningOn])
  cases (draining.answer o (.store (.transition e.id e.status (.runningOn a.display))) t).1 with
  | error f => exact fun u hu => hdone.quiet hu
  | ok granted =>
    cases granted with
    | true => exact fun u hu => hdone.quiet hu
    | false => exact fun u hu => ⟨trivial, fun o' v hv => (hdone.quiet hu).quiet hv⟩

theorem markFailed_drains (hs : s.load ≤ n) :
    (markFailed e).Keeps draining (fun _ _ t => Drained e n t) h s := by
  rw [markFailed_eq]
  refine fun t ht => ⟨by simp [draining, Drains, StatusUpdate.toStatus], fun o => ?_⟩
  have hdone : Drained e n
      (t.answer o (.store (.transition e.id e.status (.toStatus .failed)))).2 :=
    .of_not_waits (ht.load ▸ hs) fun hi =>
      t.not_waits_transition o hi (by simp [StatusUpdate.toStatus])
  cases (draining.answer o (.store (.transition e.id e.status (.toStatus .failed))) t).1 with
  | error f => exact fun u hu => hdone.quiet hu
  | ok granted => cases granted <;> exact fun u hu => hdone.quiet hu

/-- Each id that is left is worth one more copy in the queue. -/
theorem resubmits_drained (e : Execution) (executor : String) (n : Nat) :
    Resubmits draining executor e.id fun ids _ s =>
      s.load + ids.length ≤ n ∧ (e.status = .init → s.Awaits e.id) where
  skip := fun ⟨hs, hw⟩ => ⟨by rw [List.length_cons] at hs; omega, hw⟩
  may _ _ _ := trivial
  pass := by
    rintro id ids h s t o _ _ - ⟨hs, hw⟩ ht ⟨⟩ -
    rw [List.length_cons, ← ht.load] at hs
    exact ⟨Nat.le_of_succ_le hs, fun hi => ht.awaits (hw hi)⟩
  push := by
    rintro id ids h s t o u v row - ⟨hs, hw⟩ ht hread - hv
    obtain ⟨-, rfl⟩ := Prod.mk.inj hread
    refine ⟨trivial, fun {o' w sent} hsent => ?_⟩
    obtain rfl : (v.answer o' (.push row)).2 = w := congrArg Prod.snd hsent
    have hle := v.load_push_le o' row
    rw [List.length_cons, ← (ht.trans hv).load] at hs
    exact ⟨by omega, fun hi => ((ht.trans hv).awaits (hw hi)).push o' row⟩

/-- **What a lost executor held adds one for each execution** to the load at most. -/
theorem resubmit_drains {executor : String} {ids : List Int} (hs : s.load + ids.length ≤ n)
    (hw : e.status = .init → s.Awaits e.id) :
    (resubmit executor e.id ids).Keeps draining (fun _ o t => o.isSome ∧ t.load ≤ n ∧
      (e.status = .init → t.Awaits e.id)) h s :=
  (resubmits_drained e executor n).keeps
    (fun ⟨hs, hw⟩ ht => ⟨ht.load ▸ hs, fun hi => ht.awaits (hw hi)⟩) ⟨hs, hw⟩

/-- **What the loss of an executor puts into the queue is paid for by the executor.** -/
theorem failOver_drains (hc : s.queue.hasConsumer = true) (hs : s.load ≤ n) {a : Address}
    (ha : s.registry.Has a) :
    (failOver e a).Keeps draining (fun _ _ t => Drained e n t) h s := by
  rw [failOver_eq]
  intro t ht
  refine ⟨trivial, fun o => ?_⟩
  have hpush : (t.answer o (.push e)).2.load ≤ n + 1 := by
    have hle := t.load_push_le o e
    rw [ht.load] at hle
    omega
  have hawaits : e.status = .init → (t.answer o (.push e)).2.Awaits e.id :=
    Site.awaits_push (ht.queue ▸ hc) o
  intro u hu
  have hu : (t.answer o (.push e)).2.Quiet u := hu
  have hhas : u.registry.Has a := hu.has (a := a) (ht.has ha)
  obtain ⟨x, hx, hxa⟩ := hhas.get?
  refine ⟨hhas, fun o' => ?_⟩
  have hevict : (u.answer o' (.evict a)).2.load + x.load ≤ n + 1 := by
    have hle := Site.load_evict hx o'
    rw [hu.load] at hle
    omega
  intro v hv
  have hv : (u.answer o' (.evict a)).2.Quiet v := hv
  have hawaits : e.status = .init → v.Awaits e.id := fun hi =>
    hv.awaits (hu.awaits (hawaits hi))
  refine ⟨trivial, fun _ => ?_⟩
  have hanswer : (draining.answer o' (.evict a) u).1 = some x := hx
  rw [hanswer]
  have hleft : v.load + x.execIds.length ≤ n := by
    rw [hv.load]
    unfold Executor.load at hevict
    omega
  refine Interaction.Keeps.bind (resubmit_drains (n := n) hleft hawaits) ?_ ?_
  · intro ids k w hw w' hw'
    obtain ⟨-, hload, hawaits⟩ := hw w' hw'
    exact ⟨.inl hload, fun hi _ => hawaits hi⟩
  · rintro k w ⟨hnone, -⟩
    cases hnone

/-- An attempt to submit needs the executor to be there only when it is given up. -/
theorem attempts_drains (hc : s.queue.hasConsumer = true) (hs : s.load ≤ n) {a : Address}
    (ha : s.registry.Has a) (k : Nat) :
    (attempts e a k).Keeps draining (fun _ _ t => Drained e n t) h s := by
  induction k generalizing h s with
  | zero => exact markFailed_drains hs
  | succ k ih =>
    rw [attempts_succ]
    refine fun t ht => ⟨trivial, fun o => ?_⟩
    have hc := ht.queue ▸ hc
    have hs := ht.load ▸ hs
    have ha := ht.has ha
    have hanswer : draining.answer o (.call (.submit a e.projectId e.id e.flowKind)) t =
        (o.reply, t) := rfl
    rw [hanswer]
    rcases o.reply with (reason | reason) | _
    · refine Interaction.Keeps.bind (stillPending_drains t) ?_ fun _ _ hu => by simp at hu
      refine fun b l u hu => Interaction.Keeps.of_rely fun v hv => ?_
      obtain ⟨htv, p, hp, hw⟩ := hu v hv
      obtain rfl := Option.some.inj hp
      cases b with
      | true => exact failOver_drains (htv.queue ▸ hc) (htv.load ▸ hs) (htv.has ha)
      | false =>
        have hdone : Drained e n v := .of_not_waits (htv.load ▸ hs) (hw rfl)
        exact fun w hvw => hdone.quiet hvw
    · exact ih hc hs ha
    · exact commit_drains hs a

/-- **A dispatch adds nothing to the load**, or no executor is left. -/
theorem run_drains (limits : DispatchLimits) (hc : s.queue.hasConsumer = true) (hs : s.load ≤ n) :
    (run limits e).Keeps draining (fun _ _ t => Drained e n t) h s := by
  rw [run_eq]
  refine Interaction.Keeps.bind (stillPending_drains s) ?_ fun _ _ hu => by simp at hu
  refine fun b l u hu => Interaction.Keeps.of_rely fun v hv => ?_
  obtain ⟨hsv, p, hp, hw⟩ := hu v hv
  obtain rfl := Option.some.inj hp
  have hc := hsv.queue ▸ hc
  have hs := hsv.load ▸ hs
  cases b with
  | false =>
    have hdone : Drained e n v := .of_not_waits hs (hw rfl)
    exact fun w hvw => hdone.quiet hvw
  | true =>
    refine fun t ht => ⟨trivial, fun o => ?_⟩
    have hpicked : (draining.answer o .pick t).1 = t.registry.pick.1 := rfl
    have hquiet : t.Quiet (t.answer o .pick).2 :=
      ⟨rfl, t.registry.pick_executors, fun _ hw => hw⟩
    rw [hpicked]
    rcases t.registry.pick_cases with ⟨hnil, hp⟩ | ⟨x, hx, hp⟩
    · -- there is no executor: the copy is queued again after the pause
      rw [hp]
      refine fun u hu => ⟨trivial, fun _ w hw => ⟨trivial, fun o' x hx => ?_⟩⟩
      have htw : t.Quiet w := (hquiet.trans hu).trans hw
      refine Drained.quiet ⟨.inr ?_, fun hi _ => ?_⟩ hx
      · exact htw.executors.trans hnil
      · exact Site.awaits_push (htw.queue ▸ (ht.queue ▸ hc)) o' hi
    · rw [hp]
      have htv := ht.trans hquiet
      exact attempts_drains (htv.queue ▸ hc) (htv.load ▸ hs)
        (hquiet.has ⟨x, hx, rfl⟩) _

end Dispatch

end WorkflowScheduler
