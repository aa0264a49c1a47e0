import WorkflowScheduler.Proofs.System

/-!
# The rows along a run

Whatever operations, dispatches, executors and restarts do and in whichever order: ids are given
once and never again, every row agrees with its status, every row goes forward, and only copies of
unfinished rows are queued.

## Main definitions

* `Event.creates`: a step that stores an execution

## Main results

* `System.rows_length_after`: there are as many rows as have been stored
* `System.row_lifecycle`: the rows along every run
-/

namespace WorkflowScheduler

/-- Whether a step has stored an execution. -/
def Event.creates (e : Event) : Bool :=
  e.exchange?.any fun x => x.1.creates

namespace System

variable {limits : DispatchLimits} {s t : System} {e : Event}

theorem Step.rows_length (h : Step limits s e t) :
    t.site.store.rows.length = s.site.store.rows.length + e.creates.toNat := by
  cases hx : e.exchange? with
  | some x =>
    obtain ⟨o, ha⟩ := h.answered hx
    have := Site.answer_rows_length s.site o x.1
    simpa [ha, Event.creates, hx] using this
  | none =>
    cases h with
    | finish now he hr hs =>
      rw [Store.setStatus_eq now he hs]
      simp [Store.modifyRow, Event.creates, Event.exchange?]
    | ask o ht ha => cases hx
    | dispatch o hd ha => cases hx
    | recover o ht ha => cases hx
    | _ => rfl

/-- **There are as many rows as have been stored.** -/
theorem rows_length_after (ms : List Move) (s : System) :
    (after limits ms s).site.store.rows.length =
      s.site.store.rows.length + (trace limits ms s).countP Event.creates := by
  -- on the moves: each that is possible adds as many rows as its event says
  induction ms generalizing s with
  | nil => rfl
  | cons m ms ih =>
    simp only [after, trace]
    cases hm : step limits m s with
    | none => exact ih s
    | some p =>
      obtain ⟨e, t⟩ := p
      have := (step_cases hm).rows_length
      simp only [ih t, this, List.countP_cons]
      cases e.creates
      · rfl
      · simp only [Bool.toNat_true, if_true]
        omega

/-- **The rows along every run.** Of a run from a store without executions, whatever its moves are:
only unfinished copies are queued; the ids are those from 1 on, as many as have been stored; every
row agrees with its status; and whatever comes later, every row goes on from what it is. -/
theorem row_lifecycle (limits : DispatchLimits) (store : Store) (ms later : List Move) :
    let s := after limits ms (start store)
    (∀ e ∈ s.site.queue.waiting, e.status.isFinished = false) ∧
      s.site.store.rows.map (·.id) =
        (List.range ((trace limits ms (start store)).countP Event.creates)).map
          (fun n : Nat => (n : Int) + 1) ∧
      (∀ e ∈ s.site.store.rows, e.Lifecycle) ∧
      s.site.store.LeadsTo (after limits later s).site.store := by
  have hvalid := valid_after limits store ms
  refine ⟨fun e he => (hvalid.site.backs e he).1.isFinished, ?_, hvalid.site.store.lifecycle,
    (hvalid.progress_after later).leadsTo⟩
  rw [hvalid.site.store.ids, rows_length_after]
  simp [start]

end System

end WorkflowScheduler
