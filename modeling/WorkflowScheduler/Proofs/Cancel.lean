import WorkflowScheduler.Proofs.Writes

/-!
# Cancelled executions

A cancel ends in one of two ways. A row that waits is killed, and nothing hands it out any more. A
row that has a worker is left as it is, and its cancel is passed on: the worker decides what becomes
of it. So such a row still goes to another executor when the worker is given up.

## Main definitions

* `Event.Kills`: a step that kills a row that waits
* `Event.records`: a step by which an executor records an end

## Main results

* `System.cancel_final`: what a cancel that has succeeded leaves behind
* `System.forwarded_cancel_not_final`: an execution whose cancel was passed on is handed out again
-/

namespace WorkflowScheduler

/-- A step that has killed a row that waits. -/
def Event.Kills (id : Int) (ev : Event) : Prop :=
  ev.exchange? = some ⟨.store (.transition id .init (.toStatus .kill)), .ok true⟩

/-- A step by which an executor records the end of what it runs. -/
def Event.records : Event → Bool
  | .finished _ _ => true
  | _ => false

namespace System

variable {limits : DispatchLimits} {s : System} {id : Int}

/-- A row that has been killed while it waited has no worker. -/
theorem Step.row_of_kills {t : System} {ev : Event} (h : Step limits s ev t) (hv : s.Valid)
    (hk : ev.Kills id) :
    ∃ e, t.site.store.execution? id = some e ∧ e.status = .kill ∧ e.worker = none := by
  obtain ⟨e, now, he, hi, hrow⟩ := h.row_of_transition hk
  have hcycle := hv.site.store.lifecycle e (Store.execution?_mem he)
  refine ⟨_, hrow, rfl, ?_⟩
  simp [Store.applyUpdate, StatusUpdate.toStatus, (hcycle.of_init hi).1]

/-- **A row that has been killed while it waited stays killed**, and it has no worker. -/
theorem Valid.row_of_kills (hv : s.Valid) {ms : List Move}
    (hk : ∃ ev ∈ trace limits ms s, ev.Kills id) :
    ∃ e, (after limits ms s).site.store.execution? id = some e ∧ e.status = .kill ∧
      e.worker = none := by
  obtain ⟨ev, hev, hk⟩ := hk
  obtain ⟨ks, m, t, ls, hm, hls⟩ := exists_step_of_mem hev
  have hstep := step_cases hm
  have hvk := hv.run limits ks
  obtain ⟨e, he, hkill, hw⟩ := hstep.row_of_kills hvk hk
  obtain ⟨f, hf, hef⟩ := (hstep.valid hvk).1.row_after limits ls he
  rw [hls, hef.eq_of_finished (by simp [hkill, Status.isFinished])] at hf
  exact ⟨e, hf, hkill, hw⟩

theorem Valid.killed (hs : s.Valid) {ms : List Move} {ev : Event} (h : ev ∈ trace limits ms s)
    (hx : ev.Kills id) :
    ∃ e, (after limits ms s).site.store.execution? id = some e ∧ e.status = .kill := by
  obtain ⟨e, he, hk, -⟩ := hs.row_of_kills ⟨ev, h, hx⟩
  exact ⟨e, he, hk⟩

/-- **What a cancel that has succeeded leaves behind.** The row does not wait any more. If a cancel
has killed it, it stays killed, and a finished row keeps its worker and is never handed out again. A
row that runs keeps its worker and is not handed out either, provided that no copy of it in
`RUNNING` is around, and as long as its worker is not given up as one that holds it. -/
theorem cancel_final (limits : DispatchLimits) (store : Store) (ms : List Move) (id : Int)
    (h : (trace limits ms (start store)).getLast? = some (.ended (.cancel id) (some (.ok ())))) :
    ∃ e, (after limits ms (start store)).site.store.execution? id = some e ∧ e.status ≠ .init ∧
      ((∃ ev ∈ trace limits ms (start store), ev.Kills id) → e.status = .kill) ∧
      (e.status.isFinished = true →
        IsFinal limits (after limits ms (start store)) id e.worker fun _ => True) ∧
      ((after limits ms (start store)).NoRunningCopy id e.worker →
        IsFinal limits (after limits ms (start store)) id e.worker fun ev =>
          ¬ ev.Loses id e.worker) := by
  have hkilled : (∃ ev ∈ trace limits ms (start store), ev.Kills id) → ∃ e,
      (after limits ms (start store)).site.store.execution? id = some e ∧ e.status = .kill := by
    rintro ⟨ev, hmem, hx⟩
    exact (valid_start store).killed hmem hx
  obtain ⟨ks, m, hstep⟩ := exists_step_of_getLast? h
  have hv := valid_after limits store ks
  have hv' := valid_after limits store ms
  generalize trace limits ms (start store) = seen at *
  generalize after limits ms (start store) = t at *
  generalize after limits ks (start store) = s at *
  -- the run ends with the end of the cancel, so that the terms of the job hold
  generalize hev : Event.ended (.cancel id) (some (.ok ())) = ev at hstep
  cases step_cases hstep with
  | @finishJob i k r o hk hr =>
    obtain ⟨hjob, hok⟩ := Event.ended.inj hev
    have hdone := ((hv.threads k (List.mem_of_getElem? hk)).finish hv.site hr).2
    rw [← hjob] at hdone
    obtain ⟨e, he, hi⟩ := hdone hok.symm
    refine ⟨e, he, hi, fun hx => ?_, fun hfin => ?_, fun hnone => ?_⟩
    · obtain ⟨f, hf, hk⟩ := hkilled hx
      obtain rfl : e = f := Option.some.inj (he.symm.trans hf)
      exact hk
    · exact Settled.isFinal ⟨e, he, hi, rfl, .inl hfin⟩ hv'
    · exact Settled.isFinal ⟨e, he, hi, rfl, .inr ⟨hnone, fun _ hn => hn⟩⟩ hv'
  | _ => cases hev

/-- The cancel of an execution is passed on to the executor that has reported it. -/
def forwarded : List Move :=
  Move.alone (.registerExecutor "a" 9000 ⟨0, 0⟩) ++
  Move.alone (.execFlow 10 1 ⟨0, 0⟩ Settings.none) ++ Move.dispatchAlone .answering ++
  Move.alone (.reportExecutor "a" 9000 ⟨0, 0⟩ [1]) ++ Move.alone (.cancel 1)

/-- The executor is given up, and another one is there. -/
def givenUp : List Move :=
  Move.alone (.execFlow 10 1 ⟨0, 0⟩ Settings.none) ++ Move.dispatchAlone .silent ++
  Move.alone (.registerExecutor "b" 9000 ⟨0, 0⟩)

set_option maxRecDepth 100000 in
/-- The execution stays with its executor as long as that is not given up. -/
theorem cancel_final_forwarded :
    (trace ⟨1, 0⟩ forwarded (start .oneFlow)).getLast? = some (.ended (.cancel 1) (some (.ok ()))) ∧
    IsFinal ⟨1, 0⟩ (after ⟨1, 0⟩ forwarded (start .oneFlow)) 1 (some "a:9000")
      (fun ev => ¬ ev.Loses 1 (some "a:9000")) := by
  have hlast : (trace ⟨1, 0⟩ forwarded (start .oneFlow)).getLast? =
      some (.ended (.cancel 1) (some (.ok ()))) := rfl
  obtain ⟨e, he, -, -, -, hfinal⟩ := cancel_final ⟨1, 0⟩ .oneFlow forwarded 1 hlast
  have hrow : ((after ⟨1, 0⟩ forwarded (start .oneFlow)).site.store.execution? 1).map (·.worker) =
      some (some "a:9000") := rfl
  rw [he] at hrow
  obtain hw : e.worker = some "a:9000" := Option.some.inj hrow
  rw [hw] at hfinal
  have hqueue : (after ⟨1, 0⟩ forwarded (start .oneFlow)).site.queue.waiting = [] := rfl
  have hidle : (after ⟨1, 0⟩ forwarded (start .oneFlow)).dispatch = none := rfl
  exact ⟨hlast, hfinal (.of_idle (by simp [hqueue]) hidle)⟩

/-- The two copies in the queue are dispatched. -/
def takenTwice : List Move :=
  Move.dispatchAlone .answering ++ Move.dispatchAlone .answering

set_option maxRecDepth 100000 in
/-- **An execution whose cancel was passed on is handed out again** after its executor has been
given up, though no executor records anything: a dispatch that begins later submits it to another
executor, which becomes its worker. -/
theorem forwarded_cancel_not_final :
    (trace ⟨1, 0⟩ forwarded (start .oneFlow)).getLast? = some (.ended (.cancel 1) (some (.ok ()))) ∧
    (∀ ev ∈ trace ⟨1, 0⟩ (forwarded ++ givenUp ++ takenTwice) (start .oneFlow),
      ev.records = false) ∧
    (after ⟨1, 0⟩ (forwarded ++ givenUp) (start .oneFlow)).dispatch = none ∧
    (∃ c, .dispatchAsked c ⟨.call (.submit ⟨"b", 9000⟩ 10 1 .short), .ok ()⟩ ∈
      trace ⟨1, 0⟩ takenTwice (after ⟨1, 0⟩ (forwarded ++ givenUp) (start .oneFlow))) ∧
    let s := (after ⟨1, 0⟩ (forwarded ++ givenUp ++ takenTwice) (start .oneFlow)).site.store
    (s.execution? 1).map (fun e => (e.status, e.worker)) = some (.running, some "b:9000") := by
  have hseen : (trace ⟨1, 0⟩ (forwarded ++ givenUp ++ takenTwice) (start .oneFlow)).all
      (fun ev => !ev.records) = true := rfl
  have hidle : (after ⟨1, 0⟩ (forwarded ++ givenUp) (start .oneFlow)).dispatch = none := rfl
  refine ⟨rfl, fun ev hev => ?_, hidle, ?_, rfl⟩
  · simpa using List.all_eq_true.mp hseen ev hev
  · exact ⟨_, List.mem_of_getElem? (i := 9) rfl⟩

end System

end WorkflowScheduler
