import Mathlib.Data.List.Nodup
import WorkflowScheduler.Store.Request

/-!
# The life of a row

Rows are never removed, and each change of a row goes forward: the description of the execution
stays, the ordinal of the status does not fall, and a row that has reached a terminal status does
not change any more. This module states it as a relation between an earlier and a later state, and
shows which changes of a store are within it.

## Main definitions

* `Execution.LeadsTo`: a row can come to be another one
* `Execution.Lifecycle`: worker, start time and end time agree with the status
* `Store.Sound`: the ids are `1, …, k`, and every row agrees with its status
* `Store.LeadsTo`: every row of a store goes on in another store
* `Store.Backs`: an unfinished copy of a row that goes on in a store
* `StoreRequest.Fits`: a request that leads rows on
* `StoreRequest.rowAfter`: what a request makes of a row

## Main results

* `Store.execution?_answer`: the row with an id after a request
* `Store.answer_sound`: a request that fits keeps a store sound
* `StoreRequest.Fits.leadsTo`: it leads every row on
* `Store.setStatus_sound`, `Store.setStatus_leadsTo`: so does the end of a running execution
-/

namespace WorkflowScheduler

/-! ## Rows -/

/-- **A row can come to be another one**: only status, worker, start time and end time may differ;
the status does not fall, worker and start time do not get lost, and a terminal row is final. -/
structure Execution.LeadsTo (e f : Execution) : Prop where
  fixed : { f with
    status := e.status, worker := e.worker, startTime := e.startTime, endTime := e.endTime } = e
  ordinal_le : e.status.ordinal ≤ f.status.ordinal
  worker_isSome : e.worker.isSome → f.worker.isSome
  startTime_eq : e.startTime.isSome → f.startTime = e.startTime
  eq_of_finished : e.status.isFinished = true → f = e

namespace Execution.LeadsTo

variable {e f g : Execution}

theorem refl (e : Execution) : e.LeadsTo e :=
  ⟨rfl, Nat.le_refl _, fun hw => hw, fun _ => rfl, fun _ => rfl⟩

theorem trans (h : e.LeadsTo f) (k : f.LeadsTo g) : e.LeadsTo g where
  fixed := by
    have hf := h.fixed
    rw [← k.fixed] at hf
    exact hf
  ordinal_le := Nat.le_trans h.ordinal_le k.ordinal_le
  worker_isSome hw := k.worker_isSome (h.worker_isSome hw)
  startTime_eq hs := by
    have hf := h.startTime_eq hs
    rw [k.startTime_eq (hf ▸ hs), hf]
  eq_of_finished hd := by
    obtain rfl := h.eq_of_finished hd
    exact k.eq_of_finished hd

/-- A row that has left `INIT` does not come back to it. -/
theorem status_ne_init (h : e.LeadsTo f) (he : e.status ≠ .init) : f.status ≠ .init := by
  intro hf
  -- no other status has an ordinal as low as that of `INIT`
  have := h.ordinal_le
  rw [hf] at this
  cases hs : e.status <;> simp_all [Status.ordinal]

theorem status_eq_init (h : e.LeadsTo f) (hf : f.status = .init) : e.status = .init :=
  Decidable.byContradiction fun he => h.status_ne_init he hf

end Execution.LeadsTo

/-- **Worker and times agree with the status.** A row that waits has none of them, one that runs has
a worker and a start time, and an end time is there exactly at the end. -/
structure Execution.Lifecycle (e : Execution) : Prop where
  status_cases : e.status = .init ∨ e.status = .running ∨ e.status.isFinished = true
  of_init : e.status = .init → e.worker = none ∧ e.startTime = none ∧ e.endTime = none
  of_running : e.status = .running → e.worker.isSome ∧ e.startTime.isSome ∧ e.endTime = none
  endTime_isSome_iff : e.endTime.isSome ↔ e.status.isFinished = true

/-- A row that is neither finished nor on a worker still waits. -/
theorem Execution.Lifecycle.status_eq_init {e : Execution} (h : e.Lifecycle)
    (hf : e.status.isFinished = false) (hw : e.worker = none) : e.status = .init := by
  rcases h.status_cases with hi | hr | hd
  · exact hi
  · have := (h.of_running hr).1
    simp [hw] at this
  · simp [hf] at hd

/-- An update to running names a worker, and one to a terminal status names none. -/
def StatusUpdate.IsRegular (u : StatusUpdate) : Prop :=
  (u.status = .running ∧ u.worker.isSome) ∨ (u.status.isFinished = true ∧ u.worker = none)

theorem StatusUpdate.isRegular_runningOn (w : String) : (runningOn w).IsRegular :=
  .inl ⟨rfl, rfl⟩

theorem StatusUpdate.isRegular_toStatus {s : Status} (h : s.isFinished = true) :
    (toStatus s).IsRegular :=
  .inr ⟨h, rfl⟩

/-- The statuses that queued copies carry. -/
def Status.IsPending (s : Status) : Prop := s = .init ∨ s = .running

theorem Status.IsPending.isFinished {s : Status} (h : s.IsPending) : s.isFinished = false := by
  rcases h with rfl | rfl <;> rfl

namespace Store

variable {now : Instant} {u : StatusUpdate} {e : Execution}

@[simp] theorem applyUpdate_id (now : Instant) (u : StatusUpdate) (e : Execution) :
    (applyUpdate now u e).id = e.id := rfl

theorem lifecycle_applyUpdate (hu : u.IsRegular) (hp : e.status.IsPending) (he : e.Lifecycle) :
    (applyUpdate now u e).Lifecycle := by
  -- a pending row has no end time, and an update sets one only together with a terminal status
  have hend : e.endTime = none := by
    rcases hp with hi | hr
    · exact (he.of_init hi).2.2
    · exact (he.of_running hr).2.2
  rcases hu with ⟨hs, hw⟩ | ⟨hs, hw⟩
  · obtain ⟨w, hw⟩ := Option.isSome_iff_exists.mp hw
    constructor <;> simp [applyUpdate, hs, hw, hend, Status.isFinished]
  · have hne : u.status ≠ .init ∧ u.status ≠ .running := by
      constructor <;> intro h <;> simp [h, Status.isFinished] at hs
    constructor <;> simp [applyUpdate, hs, hne.1, hne.2]

theorem leadsTo_applyUpdate (hu : u.IsRegular) (hp : e.status.IsPending) :
    e.LeadsTo (applyUpdate now u e) where
  fixed := rfl
  ordinal_le := by
    rcases hu with ⟨hs, -⟩ | ⟨hs, -⟩
    · rcases hp with hi | hr <;> simp [applyUpdate, *, Status.ordinal]
    · -- the terminal statuses are those with the highest ordinals
      have hle : e.status.ordinal ≤ 3 := by rcases hp with hi | hr <;> simp [*, Status.ordinal]
      exact Nat.le_trans hle (Nat.le_of_succ_le ((Status.isFinished_iff _).mp hs))
  worker_isSome hw := by
    simp only [applyUpdate]
    cases u.worker with
    | none => exact hw
    | some w => rfl
  startTime_eq hs := by
    obtain ⟨t, ht⟩ := Option.isSome_iff_exists.mp hs
    simp [applyUpdate, ht]
  eq_of_finished hd := by simp [hp.isFinished] at hd

/-! ## Stores -/

/-- **A sound store**: its rows have the ids from 1 on without a gap, in order, and every row agrees
with its status. -/
structure Sound (s : Store) : Prop where
  ids : s.rows.map (·.id) = (List.range s.rows.length).map fun n : Nat => (n : Int) + 1
  lastId_eq : s.lastId = s.rows.length
  lifecycle : ∀ e ∈ s.rows, e.Lifecycle

/-- **Every row of a store goes on in another store**, under its id. -/
def LeadsTo (s t : Store) : Prop :=
  ∀ id e, s.execution? id = some e → ∃ f, t.execution? id = some f ∧ e.LeadsTo f

/-- **A copy that a store backs**: it is unfinished, and its row goes on from it. -/
def Backs (s : Store) (e : Execution) : Prop :=
  e.status.IsPending ∧ ∃ f, s.execution? e.id = some f ∧ e.LeadsTo f

theorem LeadsTo.refl (s : Store) : s.LeadsTo s :=
  fun _ e he => ⟨e, he, .refl e⟩

theorem LeadsTo.trans {s t v : Store} (h : s.LeadsTo t) (k : t.LeadsTo v) : s.LeadsTo v := by
  intro id e he
  obtain ⟨f, hf, hef⟩ := h id e he
  obtain ⟨g, hg, hfg⟩ := k id f hf
  exact ⟨g, hg, hef.trans hfg⟩

theorem Backs.mono {s t : Store} (h : s.Backs e) (k : s.LeadsTo t) : t.Backs e := by
  obtain ⟨hp, f, hf, hef⟩ := h
  obtain ⟨g, hg, hfg⟩ := k _ f hf
  exact ⟨hp, g, hg, hef.trans hfg⟩

theorem execution?_id {s : Store} {id : Int} (h : s.execution? id = some e) : e.id = id := by
  simpa using List.find?_some h

theorem execution?_mem {s : Store} {id : Int} (h : s.execution? id = some e) : e ∈ s.rows :=
  List.mem_of_find?_eq_some h

/-- A row that waits for dispatch backs its own copy. -/
theorem Backs.of_execution? {s : Store} {id : Int} (h : s.execution? id = some e)
    (hp : e.status.IsPending) : s.Backs e :=
  ⟨hp, e, by rw [execution?_id h, h], .refl e⟩

namespace Sound

variable {s : Store}

theorem nodup_ids (h : s.Sound) : (s.rows.map (·.id)).Nodup := by
  rw [h.ids]
  refine List.Nodup.map ?_ List.nodup_range
  intro a b hab
  simp only at hab
  omega

theorem eq_of_id_eq (h : s.Sound) {e f : Execution} (he : e ∈ s.rows) (hf : f ∈ s.rows)
    (hid : e.id = f.id) : e = f :=
  List.inj_on_of_nodup_map h.nodup_ids he hf hid

theorem id_le (h : s.Sound) {e : Execution} (he : e ∈ s.rows) : e.id ≤ s.lastId := by
  have hm : e.id ∈ s.rows.map (·.id) := List.mem_map_of_mem he
  rw [h.ids, List.mem_map] at hm
  obtain ⟨n, hn, hid⟩ := hm
  rw [List.mem_range] at hn
  rw [h.lastId_eq]
  omega

theorem execution?_of_mem (h : s.Sound) {e : Execution} (he : e ∈ s.rows) :
    s.execution? e.id = some e := by
  cases hf : s.execution? e.id with
  | none =>
    have := List.find?_eq_none.mp hf e he
    simp at this
  | some f => rw [h.eq_of_id_eq (execution?_mem hf) he (execution?_id hf)]

theorem execution?_lastId (h : s.Sound) : s.execution? (s.lastId + 1) = none := by
  cases hf : s.execution? (s.lastId + 1) with
  | none => rfl
  | some f =>
    have := h.id_le (execution?_mem hf)
    rw [execution?_id hf] at this
    omega

end Sound

/-! ## Single changes -/

theorem execution?_createExecution (s : Store) (now : Instant) (n : NewExecution) (id : Int) :
    (s.createExecution now n).2.execution? id =
      (s.execution? id).or
        (if id = s.lastId + 1 then some (newRow (s.lastId + 1) now n) else none) := by
  by_cases hid : id = s.lastId + 1
  · simp [createExecution, execution?, List.find?_append, newRow, hid]
  · have : ¬ s.lastId + 1 = id := fun h => hid h.symm
    simp [createExecution, execution?, List.find?_append, newRow, hid, this]

theorem createExecution_sound {s : Store} (h : s.Sound) (now : Instant) (n : NewExecution) :
    (s.createExecution now n).2.Sound where
  ids := by
    simp [createExecution, newRow, List.range_succ, h.ids, h.lastId_eq]
  lastId_eq := by simp [createExecution, h.lastId_eq]
  lifecycle e he := by
    rcases List.mem_append.mp he with he | he
    · exact h.lifecycle e he
    · obtain rfl := List.mem_singleton.mp he
      constructor <;> simp [newRow, Status.isFinished]

theorem modifyRow_sound {s : Store} (h : s.Sound) {id : Int} {f : Execution → Execution}
    (hid : ∀ e, (f e).id = e.id)
    (hf : ∀ e, s.execution? id = some e → (f e).Lifecycle) :
    (s.modifyRow id f).Sound where
  ids := by
    have hid : ∀ e : Execution, (if e.id = id then f e else e).id = e.id := by
      intro e
      split
      · exact hid e
      · rfl
    simp only [modifyRow, List.map_map, List.length_map, ← h.ids]
    exact List.map_congr_left fun e _ => hid e
  lastId_eq := by simp [modifyRow, h.lastId_eq]
  lifecycle e he := by
    obtain ⟨d, hd, rfl⟩ := List.mem_map.mp he
    split
    · next hdid => exact hf d (hdid ▸ h.execution?_of_mem hd)
    · exact h.lifecycle d hd

/-- A row after a change of one row. -/
theorem execution?_modifyRow (s : Store) (id : Int) {f : Execution → Execution}
    (hid : ∀ e, (f e).id = e.id) (j : Int) :
    (s.modifyRow id f).execution? j =
      (s.execution? j).map fun e => if j = id then f e else e := by
  have hpred : (fun e => decide (e.id = j)) ∘ (fun e => if e.id = id then f e else e) =
      fun e => decide (e.id = j) := by
    funext e
    simp only [Function.comp]
    split
    · rw [hid]
    · rfl
  simp only [execution?, modifyRow, List.find?_map, hpred]
  cases he : s.rows.find? fun e => e.id = j with
  | none => rfl
  | some e =>
    have : e.id = j := by simpa using List.find?_some he
    simp [this]

theorem execution?_applyUpdate (s : Store) (id : Int) (j : Int) :
    (s.modifyRow id (applyUpdate now u)).execution? j =
      (s.execution? j).map fun e => if j = id then applyUpdate now u e else e :=
  execution?_modifyRow s id (applyUpdate_id now u) j

/-! ## Requests -/

theorem insertMasterRecord_rows (s : Store) (host : String) (port : UInt16) :
    (s.insertMasterRecord now host port).2.rows = s.rows ∧
      (s.insertMasterRecord now host port).2.lastId = s.lastId := by
  unfold insertMasterRecord
  split <;> exact ⟨rfl, rfl⟩

theorem touchMasterRecord_rows (s : Store) (host : String) (port : UInt16) :
    (s.touchMasterRecord now host port).2.rows = s.rows ∧
      (s.touchMasterRecord now host port).2.lastId = s.lastId := by
  unfold touchMasterRecord
  split
  · exact ⟨rfl, rfl⟩
  · dsimp only
    split <;> exact ⟨rfl, rfl⟩

theorem execution?_congr {s t : Store} (h : t.rows = s.rows) (id : Int) :
    t.execution? id = s.execution? id := by
  rw [execution?, execution?, h]

theorem Sound.congr {s t : Store} (hs : s.Sound) (h : t.rows = s.rows ∧ t.lastId = s.lastId) :
    t.Sound :=
  ⟨by rw [h.1, hs.ids], by rw [h.1, h.2, hs.lastId_eq], by rw [h.1]; exact hs.lifecycle⟩

theorem transition_snd (s : Store) (now : Instant) (id : Int) (expected : Status)
    (u : StatusUpdate) :
    (s.transition now id expected u).2 =
      if (s.execution? id).any (·.status = expected) then s.modifyRow id (applyUpdate now u)
      else s := by
  unfold transition
  cases s.execution? id with
  | none => rfl
  | some e => by_cases he : e.status = expected <;> simp [he]

theorem transition_eq_true {s : Store} {id : Int} {expected : Status}
    (h : (s.transition now id expected u).1 = .ok true) :
    ∃ e, s.execution? id = some e ∧ e.status = expected := by
  unfold transition at h
  split at h
  · cases h
  · next e he =>
    by_cases hs : e.status = expected
    · exact ⟨e, he, hs⟩
    · simp [hs] at h

end Store

/-- **A request that leads rows on**: a change of status starts from a status that copies carry, and
it is regular. -/
def StoreRequest.Fits : StoreRequest → Prop
  | .transition _ expected u => expected.IsPending ∧ u.IsRegular
  | _ => True

/-- Whether a request stores an execution. -/
def StoreRequest.creates : StoreRequest → Bool
  | .createExecution _ => true
  | _ => false

/-- What a request makes of a row. -/
def StoreRequest.rowAfter (now : Instant) (r : StoreRequest) (e : Execution) : Execution :=
  match r with
  | .transition id expected u =>
    if e.id = id ∧ e.status = expected then Store.applyUpdate now u e else e
  | _ => e

theorem StoreRequest.Fits.leadsTo {r : StoreRequest} (h : r.Fits) (now : Instant) (e : Execution) :
    e.LeadsTo (r.rowAfter now e) := by
  unfold rowAfter
  split
  · split
    · next hid => exact Store.leadsTo_applyUpdate h.2 (hid.2 ▸ h.1)
    · exact .refl e
  · exact .refl e

namespace Store

variable {now : Instant} {r : StoreRequest} {s : Store} {e : Execution} {id : Int}

/-- **The row with an id after a request.** -/
theorem execution?_answer (h : s.execution? id = some e) :
    (answer now r s).2.execution? id = some (r.rowAfter now e) := by
  have hid := execution?_id h
  cases r with
  | createExecution n => simp [answer, execution?_createExecution, h, StoreRequest.rowAfter]
  | transition j expected u =>
    simp only [answer, transition_snd, StoreRequest.rowAfter, hid]
    by_cases hj : id = j
    · -- the row that the request is about changes only from the expected status
      subst hj
      by_cases hs : e.status = expected
      · simp [h, hs, execution?_applyUpdate]
      · simp [h, hs]
    · split
      · simp [execution?_applyUpdate, h, hj]
      · simp [h, hj]
  | insertMasterRecord host port =>
    exact (execution?_congr (s.insertMasterRecord_rows host port).1 id).trans h
  | touchMasterRecord host port =>
    exact (execution?_congr (s.touchMasterRecord_rows host port).1 id).trans h
  | _ => exact h

/-- A row that a request brings in is the one it asked for. -/
theorem execution?_answer_new {f : Execution} (h : s.execution? id = none)
    (hf : (answer now r s).2.execution? id = some f) :
    ∃ n, r = .createExecution n ∧ f = (s.createExecution now n).1 := by
  cases r with
  | createExecution n =>
    simp only [answer, execution?_createExecution, h, Option.none_or] at hf
    split at hf
    · exact ⟨n, rfl, (Option.some.inj hf).symm⟩
    · simp at hf
  | transition j expected u =>
    simp only [answer, transition_snd] at hf
    split at hf
    · simp [execution?_applyUpdate, h] at hf
    · simp [h] at hf
  | insertMasterRecord host port =>
    have := (execution?_congr (s.insertMasterRecord_rows host port).1 id).symm.trans hf
    simp [h] at this
  | touchMasterRecord host port =>
    have := (execution?_congr (s.touchMasterRecord_rows host port).1 id).symm.trans hf
    simp [h] at this
  | _ => simp [answer, h] at hf

theorem transition_sound (h : s.Sound) {expected : Status} {u : StatusUpdate}
    (hp : expected.IsPending) (hu : u.IsRegular) : (s.transition now id expected u).2.Sound := by
  rw [transition_snd]
  split
  · next hany =>
    refine modifyRow_sound h (fun _ => rfl) fun e he => ?_
    have hs : e.status = expected := by simpa [he] using hany
    exact lifecycle_applyUpdate hu (hs ▸ hp) (h.lifecycle e (execution?_mem he))
  · exact h

/-- **A request that fits keeps a store sound.** -/
theorem answer_sound (h : s.Sound) (hr : r.Fits) : (answer now r s).2.Sound := by
  cases r with
  | createExecution n => exact createExecution_sound h now n
  | transition id expected u => exact transition_sound h hr.1 hr.2
  | insertMasterRecord host port => exact h.congr (s.insertMasterRecord_rows host port)
  | touchMasterRecord host port => exact h.congr (s.touchMasterRecord_rows host port)
  | _ => exact h

theorem answer_rows_length (now : Instant) (r : StoreRequest) (s : Store) :
    (answer now r s).2.rows.length = s.rows.length + r.creates.toNat := by
  cases r with
  | createExecution n => simp [answer, createExecution, StoreRequest.creates]
  | transition id expected u =>
    simp only [answer, transition_snd]
    split <;> simp [modifyRow, StoreRequest.creates]
  | insertMasterRecord host port =>
    exact congrArg List.length (s.insertMasterRecord_rows host port).1
  | touchMasterRecord host port => exact congrArg List.length (s.touchMasterRecord_rows host port).1
  | _ => rfl

/-! ## The end of a running execution -/

section SetStatus

variable {st : Status}

/-- The end that an executor records is an update of the status. -/
theorem setStatus_eq (now : Instant) (he : s.execution? id = some e)
    (hst : st.isFinished = true) :
    (s.setStatus now id st).2 = s.modifyRow id (applyUpdate now (.toStatus st)) := by
  have hne : st ≠ .running := by rintro rfl; simp [Status.isFinished] at hst
  have hrow : (fun e : Execution =>
      { e with status := st, endTime := if st.isFinished then some now else e.endTime }) =
      applyUpdate now (.toStatus st) := by
    funext e
    simp [applyUpdate, StatusUpdate.toStatus, hne, hst]
  simp only [setStatus, he, hrow]

theorem setStatus_sound (now : Instant) (h : s.Sound) (he : s.execution? id = some e)
    (hr : e.status = .running) (hst : st.isFinished = true) : (s.setStatus now id st).2.Sound := by
  rw [setStatus_eq now he hst]
  refine modifyRow_sound h (fun _ => rfl) fun d hd => ?_
  obtain rfl : e = d := Option.some.inj (he.symm.trans hd)
  exact lifecycle_applyUpdate (StatusUpdate.isRegular_toStatus hst) (.inr hr)
    (h.lifecycle e (execution?_mem he))

/-- The rows after an executor has recorded an end. -/
theorem execution?_setStatus (now : Instant) (he : s.execution? id = some e)
    (hst : st.isFinished = true) (j : Int) :
    (s.setStatus now id st).2.execution? j =
      (s.execution? j).map fun d => if j = id then applyUpdate now (.toStatus st) d else d := by
  rw [setStatus_eq now he hst, execution?_applyUpdate]

theorem setStatus_leadsTo (now : Instant) (he : s.execution? id = some e)
    (hr : e.status = .running) (hst : st.isFinished = true) :
    s.LeadsTo (s.setStatus now id st).2 := by
  intro j d hd
  refine ⟨_, by rw [execution?_setStatus now he hst, hd]; rfl, ?_⟩
  split
  · next hj =>
    obtain rfl : e = d := Option.some.inj (he.symm.trans (hj ▸ hd))
    exact leadsTo_applyUpdate (StatusUpdate.isRegular_toStatus hst) (.inr hr)
  · exact .refl d

end SetStatus

end Store

end WorkflowScheduler
