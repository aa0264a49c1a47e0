import WorkflowScheduler.Proofs.FailOver
import WorkflowScheduler.Proofs.Reactions

/-!
# A store that cannot be reached

A store that is not in memory may fail to answer. A dispatch that cannot read a row goes on as if
nothing had changed, so its copy is not lost by that. But where it cannot record what has become of
the copy, it ends without queueing the copy again, and where it cannot read a row that a lost
executor had reported, it passes over that row. This module shows that nothing else is lost: a copy
whose row still waits is queued again exactly if no change of its status was left unanswered, and an
orphan is queued again exactly if it could be read.

## Main definitions

* `Contact`, `Site.answerIfReached`: how a site answers if its store may be out of reach
* `Site.Beside`: what others may do beside the dispatch of a copy
* `Dispatch.Requeued`, `Dispatch.Unrecorded`: a copy was queued again; a change of its status was
  left unanswered
* `Dispatch.Spares`: what a dispatch has kept when it has ended

## Main results

* `Site.Attended.beside`: what others do in a running system is within `Site.Beside`
* `Dispatch.requeued_iff`: what is queued again if the store may be out of reach
-/

namespace WorkflowScheduler

/-! ## Sites whose store may be out of reach -/

/-- What comes from outside at a request, and why the store is out of reach, if it is. -/
structure Contact extends Outside where
  outage : Option String

/-- **How a site answers if its store may be out of reach**: then the store says so, and nothing
changes. -/
def Site.answerIfReached (o : Contact) : (r : Request) → Site → r.Answer × Site
  | .store r, s =>
    match o.outage with
    | some reason => (.error (.unavailable reason), s)
    | none => s.answer o.toOutside (.store r)
  | r, s => s.answer o.toOutside r

/-- **What others may do to a site beside the dispatch of a copy**: rows stay, they do not become
orphans of an executor, and finished ones keep their status; the row of the copy does not come back
to the status of the copy; and the queue keeps its consumer. -/
structure Site.Beside (e : Execution) (s t : Site) : Prop where
  rows : ∀ id g, s.store.execution? id = some g → ∃ f, t.store.execution? id = some f ∧
    (∀ w, f.isOrphanOf w = true → g.isOrphanOf w = true) ∧
    (g.status.isFinished = true → f.status = g.status)
  left : ¬ s.Expects e → ¬ t.Expects e
  hasConsumer : t.queue.hasConsumer = s.queue.hasConsumer

namespace Site

variable {e : Execution} {s t u : Site}

theorem Beside.refl (e : Execution) (s : Site) : s.Beside e s :=
  ⟨fun _ g hg => ⟨g, hg, fun _ h => h, fun _ => rfl⟩, id, rfl⟩

theorem Beside.trans (h : s.Beside e t) (k : t.Beside e u) : s.Beside e u where
  rows id g hg := by
    obtain ⟨f, hf, hfg, hfin⟩ := h.rows id g hg
    obtain ⟨d, hd, hdf, hdfin⟩ := k.rows id f hf
    refine ⟨d, hd, fun w hw => hfg w (hdf w hw), fun hg => ?_⟩
    rw [hdfin (by rwa [hfin hg]), hfin hg]
  left hs := k.left (h.left hs)
  hasConsumer := k.hasConsumer.trans h.hasConsumer

/-- A change of anything but the store, by which the queue keeps its consumer. -/
theorem Beside.of_store (hstore : t.store = s.store)
    (hconsumer : t.queue.hasConsumer = s.queue.hasConsumer) : s.Beside e t where
  rows id g hg := ⟨g, by rw [hstore, hg], fun _ h => h, fun _ => rfl⟩
  left hs := by
    rw [Expects, hstore]
    exact hs
  hasConsumer := hconsumer

theorem Beside.has (h : s.Beside e t) {id : Int} (hs : s.store.Has id) : t.store.Has id := by
  obtain ⟨g, hg⟩ := hs
  obtain ⟨f, hf, -⟩ := h.rows id g hg
  exact ⟨f, hf⟩

/-- A row that is an orphan of an executor has been one before. -/
theorem Beside.orphan (h : s.Beside e t) {id : Int} {f : Execution} {w : String}
    (hs : s.store.Has id) (hf : t.store.execution? id = some f) (hw : f.isOrphanOf w = true) :
    ∃ g, s.store.execution? id = some g ∧ g.isOrphanOf w = true := by
  obtain ⟨g, hg⟩ := hs
  obtain ⟨f', hf', horphan, -⟩ := h.rows id g hg
  obtain rfl := Option.some.inj (hf.symm.trans hf')
  exact ⟨g, hg, horphan w hw⟩

/-- **What others do in a running system** is what they may do beside the dispatch of a copy that
the store backs. -/
theorem Attended.beside (h : s.Attended t) (hs : s.Sound) (hb : s.store.Backs e) :
    s.Beside e t where
  rows id g hg := by
    obtain ⟨f, hf, hgf, hworker⟩ := h.calm.rows id g hg
    refine ⟨f, hf, fun w hw => ?_, fun hfin => hgf.eq_of_finished hfin ▸ rfl⟩
    simp only [Execution.isOrphanOf, Bool.and_eq_true, Bool.not_eq_true', hworker] at hw ⊢
    refine ⟨?_, ?_⟩
    · -- a row that was finished would not have changed
      by_contra hfin
      rw [hgf.eq_of_finished (by simpa using hfin)] at hw
      exact hfin hw.1
    · cases hg : g.worker with
      | some v => simpa [hg] using hw.2
      | none => simpa [hg] using hgf.status_eq_init (by simpa [hg] using hw.2)
  left hleft := by
    rintro ⟨f, hf, hstatus⟩
    obtain ⟨-, g, hg, heg⟩ := hb
    obtain ⟨f', hf', hgf, -⟩ := h.calm.rows e.id g hg
    obtain rfl := Option.some.inj (hf.symm.trans hf')
    -- the status does not fall, so it has been the same all along
    have hle := Nat.le_antisymm heg.ordinal_le (hstatus ▸ hgf.ordinal_le)
    refine hleft ⟨g, hg, ?_⟩
    have hsame := congrArg (fun n : Nat => Status.ofOrdinal? n) hle
    simp only [Status.ofOrdinal?_ordinal] at hsame
    exact (Option.some.inj hsame).symm
  hasConsumer := h.calm.sound.hasConsumer.trans hs.hasConsumer.symm

end Site

/-- What a dispatch asks before it changes, queues or gives up anything: it looks at the row of its
copy, picks an executor and calls it. -/
def Request.IsPreliminary (e : Execution) : Request → Prop
  | .store (.execution id) => id = e.id
  | .pick => True
  | .call _ => True
  | .pause _ => True
  | _ => False

namespace Dispatch

/-! ## What has been asked -/

/-- An execution has been queued; and the queue has taken it, if it has a consumer. -/
def Requeued (consumer : Bool) (d : Execution) (h : History) : Prop :=
  ∃ b : Bool, ⟨.push d, b⟩ ∈ h ∧ (consumer = true → b = true)

/-- **A change of the status of a copy was left unanswered.** -/
def Unrecorded (e : Execution) (h : History) : Prop :=
  ∃ (u : StatusUpdate) (f : StoreError), ⟨.store (.transition e.id e.status u), .error f⟩ ∈ h

/-- The row with an id has been read. -/
def Seen (id : Int) (h : History) : Prop :=
  ∃ row : Option Execution, ⟨.store (.execution id), .ok row⟩ ∈ h

/-- A worker has been recorded for a copy. -/
def Recorded (e : Execution) (h : History) : Prop :=
  ∃ a : Address, ⟨.store (.transition e.id e.status (.runningOn a.display)), .ok true⟩ ∈ h

/-- The row of a copy was to be marked as failed, and this was answered. -/
def FailedWith (e : Execution) (x : Except StoreError Bool) (h : History) : Prop :=
  ⟨.store (.transition e.id e.status (.toStatus .failed)), x⟩ ∈ h

/-- Nothing has been changed, queued or given up so far. -/
def Preliminary (e : Execution) (h : History) : Prop :=
  ∀ x ∈ h, x.1.IsPreliminary e

variable {e : Execution} {h k : History} {base s t : Site} {consumer : Bool}

theorem Preliminary.append {x : Exchange Request.Answer} (hh : Preliminary e h)
    (hx : x.1.IsPreliminary e) : Preliminary e (h ++ [x]) := by
  intro y hy
  rcases List.mem_append.mp hy with hy | hy
  · exact hh y hy
  · exact List.mem_singleton.mp hy ▸ hx

/-- **What a dispatch has kept when it has ended**: its copy is queued again if its row still waits
without a worker recorded for it, and so are the orphans of an executor that was lost, unless the
store has left a request unanswered. -/
structure Spares (e : Execution) (base : Site) (h : History) (o : Option DispatchOutcome)
    (t : Site) : Prop where
  ended : o.isSome
  copy : t.Expects e → ¬ Recorded e h →
    (¬ Requeued base.queue.hasConsumer e h ↔ Unrecorded e h)
  failed : o = some .failed ↔ FailedWith e (.ok true) h ∨ ∃ f, FailedWith e (.error f) h
  failed_row : FailedWith e (.ok true) h →
    ∃ row, t.store.execution? e.id = some row ∧ row.status = .failed
  orphans : ∀ a ids, o = some (.executorLost a ids) → ∃ evicted : Option Executor,
    ⟨.evict a, evicted⟩ ∈ h ∧ ∀ entry, evicted = some entry → ∀ id ∈ entry.execIds, id ≠ e.id →
      base.store.Has id → ∀ f, t.store.execution? id = some f → f.isOrphanOf a.display = true →
        (∃ x, ⟨.store (.execution id), x⟩ ∈ h) ∧
        ((∃ d, d.id = id ∧ Requeued base.queue.hasConsumer d h) ↔ Seen id h)

/-- **The terms of a dispatch whose store may be out of reach.** -/
def outages (e : Execution) : Terms Request.Answer Site Contact where
  answer := Site.answerIfReached
  rely := Site.Beside e
  may _ _ _ := True
  rely_trans := Site.Beside.trans
  rely_self _ := .refl e _

/-- No change of the status of a copy has been asked for. -/
def Unasked (e : Execution) (h : History) : Prop :=
  ∀ (u : StatusUpdate) (x : Except StoreError Bool),
    ⟨.store (.transition e.id e.status u), x⟩ ∉ h

theorem Preliminary.unasked (hh : Preliminary e h) : Unasked e h :=
  fun _ _ hx => hh _ hx

theorem Unasked.append {x : Exchange Request.Answer} (hh : Unasked e h)
    (hx : x.1.isTransition = false) : Unasked e (h ++ [x]) := by
  intro u y hy
  rcases List.mem_append.mp hy with hy | hy
  · exact hh u y hy
  · rw [← List.mem_singleton.mp hy] at hx
    cases hx

theorem Unasked.not_failedWith (hh : Unasked e h) :
    ¬ (FailedWith e (.ok true) h ∨ ∃ f, FailedWith e (.error f) h) := by
  rintro (hf | ⟨f, hf⟩)
  · exact hh _ _ hf
  · exact hh _ _ hf

/-- The end of a dispatch that has found the row moved. -/
theorem Spares.of_left (hh : Unasked e h) (ht : ¬ t.Expects e) :
    Spares e base h (some .abandoned) t where
  ended := rfl
  copy hs := absurd hs ht
  failed := iff_of_false (by simp) hh.not_failedWith
  failed_row hf := absurd hf (hh _ _)
  orphans := by simp

/-- The end of a dispatch that has queued its copy again. -/
theorem Spares.of_requeued {o : DispatchOutcome} (hr : Requeued base.queue.hasConsumer e h)
    (hh : Unasked e h) (ho : o ≠ .failed)
    (horphans : ∀ a ids, o = .executorLost a ids → ∃ evicted : Option Executor,
      ⟨.evict a, evicted⟩ ∈ h ∧ ∀ entry, evicted = some entry → ∀ id ∈ entry.execIds, id ≠ e.id →
        base.store.Has id → ∀ f, t.store.execution? id = some f →
          f.isOrphanOf a.display = true → (∃ x, ⟨.store (.execution id), x⟩ ∈ h) ∧
            ((∃ d, d.id = id ∧ Requeued base.queue.hasConsumer d h) ↔ Seen id h)) :
    Spares e base h (some o) t where
  ended := rfl
  copy _ _ := iff_of_false (not_not_intro hr) fun ⟨u, f, hf⟩ => hh u _ hf
  failed := iff_of_false (by simpa using ho) hh.not_failedWith
  failed_row hf := absurd hf (hh _ _)
  orphans a ids hlost := horphans a ids (Option.some.inj hlost)

/-- **A check of the row** tells that it has moved only if it has. -/
theorem stillPending_spares (hh : Preliminary e h) (hs : base.Beside e s) :
    (stillPending e).Keeps (outages e) (fun k b t => Preliminary e k ∧ base.Beside e t ∧
      ∃ p, b = some p ∧ (p = false → ¬ t.Expects e)) h s := by
  rw [stillPending_eq]
  intro t ht
  refine ⟨trivial, fun ⟨o, outage⟩ => ?_⟩
  have hs : base.Beside e t := hs.trans ht
  cases outage with
  | some reason => exact fun u hu => ⟨hh.append rfl, hs.trans hu, true, rfl, by simp⟩
  | none =>
    have hanswer : (outages e).answer ⟨o, none⟩ (.store (.execution e.id)) t =
        (.ok (t.store.execution? e.id), t) := rfl
    rw [hanswer]
    cases hrow : t.store.execution? e.id with
    | none =>
      refine fun u hu => ⟨hh.append rfl, hs.trans hu, false, rfl, fun _ => hu.left ?_⟩
      simp [Site.Expects, hrow]
    | some row =>
      refine fun u hu => ⟨hh.append rfl, hs.trans hu, _, rfl, fun hp => hu.left ?_⟩
      simpa [Site.Expects, hrow] using hp

/-! ## Changes of the row -/

/-- **A change of the status of a copy** is left unanswered, or it makes the row what it says, or the
row has moved. -/
theorem transition_cases (e : Execution) (o : Contact) (u : StatusUpdate) (t : Site) :
    (∃ f, (outages e).answer o (.store (.transition e.id e.status u)) t = (.error f, t)) ∨
    (∃ t', (outages e).answer o (.store (.transition e.id e.status u)) t = (.ok true, t') ∧
      ∃ row, t'.store.execution? e.id = some row ∧ row.status = u.status) ∨
    ((outages e).answer o (.store (.transition e.id e.status u)) t = (.ok false, t) ∧
      ¬ t.Expects e) := by
  obtain ⟨o, outage⟩ := o
  cases outage with
  | some reason => exact .inl ⟨_, rfl⟩
  | none =>
    have hanswer : (outages e).answer ⟨o, none⟩ (.store (.transition e.id e.status u)) t =
        ((t.store.transition o.now e.id e.status u).1,
          { t with store := (t.store.transition o.now e.id e.status u).2 }) := rfl
    rw [hanswer]
    cases hrow : t.store.execution? e.id with
    | none => exact .inl ⟨.executionNotFound e.id, by simp [Store.transition, hrow]; rfl⟩
    | some row =>
      by_cases hstatus : row.status = e.status
      · refine .inr (.inl ⟨_, by simp [Store.transition, hrow, hstatus]; rfl, ?_⟩)
        exact ⟨Store.applyUpdate o.now u row, by simp [Store.execution?_applyUpdate, hrow], rfl⟩
      · refine .inr (.inr ⟨by simp [Store.transition, hrow, hstatus]; rfl, ?_⟩)
        simpa [Site.Expects, hrow] using hstatus

/-- One change of the status of a copy has been asked for, and nothing has been queued. -/
structure AskedOnce (e : Execution) (u : StatusUpdate) (x : Except StoreError Bool) (h : History) :
    Prop where
  mem_iff : ∀ (v : StatusUpdate) (y : Except StoreError Bool),
    ⟨.store (.transition e.id e.status v), y⟩ ∈ h ↔ v = u ∧ y = x
  not_pushed : ∀ (d : Execution) (b : Bool), ⟨.push d, b⟩ ∉ h

theorem Preliminary.askedOnce (hh : Preliminary e h) (u : StatusUpdate)
    (x : Except StoreError Bool) :
    AskedOnce e u x (h ++ [⟨.store (.transition e.id e.status u), x⟩]) where
  mem_iff v y := by
    constructor
    · intro hv
      rcases List.mem_append.mp hv with hv | hv
      · exact absurd hv (hh.unasked v y)
      · cases List.mem_singleton.mp hv
        exact ⟨rfl, rfl⟩
    · rintro ⟨rfl, rfl⟩
      exact List.mem_append_right _ (List.mem_singleton.mpr rfl)
  not_pushed d b hb := by
    rcases List.mem_append.mp hb with hb | hb
    · exact hh _ hb
    · cases List.mem_singleton.mp hb

theorem AskedOnce.append {u : StatusUpdate} {x : Except StoreError Bool}
    (ha : AskedOnce e u x h) {c : Call} (y : Except CallError Unit) :
    AskedOnce e u x (h ++ [⟨.call c, y⟩]) where
  mem_iff v z := by
    rw [List.mem_append, ha.mem_iff]
    exact or_iff_left fun hz => by cases List.mem_singleton.mp hz
  not_pushed d b hb := by
    rcases List.mem_append.mp hb with hb | hb
    · exact ha.not_pushed d b hb
    · cases List.mem_singleton.mp hb

/-- The end of a dispatch by a change of the status of its copy. -/
theorem AskedOnce.spares {u : StatusUpdate} {x : Except StoreError Bool} {o : DispatchOutcome}
    (ha : AskedOnce e u x h)
    (hcopy : t.Expects e → ¬ Recorded e h → ∃ f, x = .error f)
    (hfailed : o = .failed ↔ u = .toStatus .failed ∧ x ≠ .ok false)
    (hrow : u = .toStatus .failed → x = .ok true →
      ∃ row, t.store.execution? e.id = some row ∧ row.status = .failed)
    (hlost : ∀ a ids, o ≠ .executorLost a ids) : Spares e base h (some o) t where
  ended := rfl
  copy hs hr := by
    obtain ⟨f, rfl⟩ := hcopy hs hr
    refine iff_of_true ?_ ⟨u, f, (ha.mem_iff _ _).mpr ⟨rfl, rfl⟩⟩
    rintro ⟨b, hb, -⟩
    exact ha.not_pushed e b hb
  failed := by
    simp only [FailedWith, ha.mem_iff, Option.some.injEq, hfailed]
    rcases x with f | _ | _ <;> simp [eq_comm]
  failed_row hf := by
    obtain ⟨hu, hx⟩ := (ha.mem_iff _ _).mp hf
    exact hrow hu.symm hx.symm
  orphans a ids ho := absurd (Option.some.inj ho) (hlost a ids)

/-- **A commit** leaves the copy behind only if the store does not answer it. -/
theorem commit_spares (hh : Preliminary e h) (a : Address) :
    (commit e a).Keeps (outages e) (Spares e base) h s := by
  rw [commit_eq]
  intro t _
  refine ⟨trivial, fun o => ?_⟩
  have hne : StatusUpdate.runningOn a.display ≠ .toStatus .failed := by
    simp [StatusUpdate.runningOn, StatusUpdate.toStatus]
  have hasked := hh.askedOnce (.runningOn a.display)
  rcases transition_cases e o (.runningOn a.display) t with
    ⟨f, hanswer⟩ | ⟨t', hanswer, -⟩ | ⟨hanswer, hs⟩
  · -- the executor has the copy, and this could not be recorded
    rw [hanswer]
    exact fun u _ => (hasked _).spares (fun _ _ => ⟨f, rfl⟩) (by simp [hne]) (absurd · hne) (by simp)
  · rw [hanswer]
    have hrecorded : Recorded e (h ++ [⟨.store (.transition e.id e.status (.runningOn a.display)),
        .ok true⟩]) := ⟨a, List.mem_append_right _ (List.mem_singleton.mpr rfl)⟩
    exact fun u _ => (hasked _).spares (fun _ hr => absurd hrecorded hr) (by simp [hne])
      (absurd · hne) (by simp)
  · -- the row has moved, and the executor is asked to drop the copy
    rw [hanswer]
    refine fun u hu => ⟨trivial, fun o' v hv => ?_⟩
    exact ((hasked _).append _).spares (fun hs' => absurd hs' (hv.left (hu.left hs)))
      (by simp [hne]) (absurd · hne) (by simp)

/-- **A failed copy is marked**, or the store does not answer. -/
theorem markFailed_spares (hh : Preliminary e h) (he : e.status.isFinished = false) :
    (markFailed e).Keeps (outages e) (Spares e base) h s := by
  rw [markFailed_eq]
  intro t _
  refine ⟨trivial, fun o => ?_⟩
  have hasked := hh.askedOnce (.toStatus .failed)
  rcases transition_cases e o (.toStatus .failed) t with
    ⟨f, hanswer⟩ | ⟨t', hanswer, row, hrow, hstatus⟩ | ⟨hanswer, hs⟩
  · rw [hanswer]
    have hasked := hasked (.error f)
    exact fun u _ => hasked.spares (fun _ _ => ⟨f, rfl⟩) (by simp) (by simp) (by simp)
  · rw [hanswer]
    intro u hu
    -- the row stays as it has been marked, so it is not in the status of the copy any more
    obtain ⟨g, hg, -, hfin⟩ := hu.rows e.id row hrow
    have hfailed : g.status = .failed := by
      rw [hfin (by rw [hstatus]; rfl), hstatus]
      rfl
    have hasked := hasked (.ok true)
    refine hasked.spares (fun hs' => ?_) (by simp) (fun _ _ => ⟨g, hg, hfailed⟩) (by simp)
    obtain ⟨g', hg', hstatus'⟩ := hs'
    obtain rfl := Option.some.inj (hg.symm.trans hg')
    rw [← hstatus', hfailed] at he
    cases he
  · rw [hanswer]
    have hasked := hasked (.ok false)
    exact fun u hu => hasked.spares (fun hs' => absurd hs' (hu.left hs)) (by simp) (by simp)
      (by simp)

/-! ## The loss of an executor -/

/-- What is queued reaches the queue exactly if it has a consumer, which it keeps. -/
theorem answer_push (o : Contact) (d : Execution) (t : Site) :
    (outages e).answer o (.push d) t =
        (t.queue.hasConsumer, { t with queue := (t.queue.push d).2 }) ∧
      t.Beside e { t with queue := (t.queue.push d).2 } := by
  obtain ⟨hsent, hconsumer⟩ := push_hasConsumer t.queue d
  exact ⟨Prod.ext hsent rfl, .of_store rfl hconsumer⟩

/-- **The orphans of an executor are accounted for**: one that is there is queued again exactly if
its row has been read. -/
def Tallied (e : Execution) (base : Site) (w : String) (h : History) (t : Site) : Prop :=
  ∀ id, id ≠ e.id → base.store.Has id → ∀ f, t.store.execution? id = some f →
    f.isOrphanOf w = true →
      ((∃ d, d.id = id ∧ Requeued base.queue.hasConsumer d h) ↔ Seen id h)

section Tally

variable {w : String} {id : Int}

theorem Tallied.beside (h' : Tallied e base w h s) (hs : base.Beside e s) (ht : s.Beside e t) :
    Tallied e base w h t := by
  intro id hid hbase f hf hw
  obtain ⟨g, hg, hgw⟩ := ht.orphan (hs.has hbase) hf hw
  exact h' id hid hbase g hg hgw

/-- What is accounted for in two parts of a history is accounted for in the whole. -/
theorem Tallied.append (hh : Tallied e base w h t) (hk : Tallied e base w k t) :
    Tallied e base w (h ++ k) t := by
  intro id hid hbase f hf hw
  have hhid := hh id hid hbase f hf hw
  have hkid := hk id hid hbase f hf hw
  simp only [Requeued, Seen, List.mem_append] at hhid hkid ⊢
  constructor
  · rintro ⟨d, hd, b, hb | hb, hc⟩
    · obtain ⟨row, hrow⟩ := hhid.mp ⟨d, hd, b, hb, hc⟩
      exact ⟨row, .inl hrow⟩
    · obtain ⟨row, hrow⟩ := hkid.mp ⟨d, hd, b, hb, hc⟩
      exact ⟨row, .inr hrow⟩
  · rintro ⟨row, hrow | hrow⟩
    · obtain ⟨d, hd, b, hb, hc⟩ := hhid.mpr ⟨row, hrow⟩
      exact ⟨d, hd, b, .inl hb, hc⟩
    · obtain ⟨d, hd, b, hb, hc⟩ := hkid.mpr ⟨row, hrow⟩
      exact ⟨d, hd, b, .inr hb, hc⟩

/-- Where nothing but the copy has been queued and no other row has been read, there is nothing to
account for. -/
theorem tallied_of_none (hpush : ∀ d b, ⟨.push d, b⟩ ∈ h → d.id = e.id)
    (hread : ∀ id, id ≠ e.id → ¬ Seen id h) : Tallied e base w h t := by
  intro id hid _ _ _ _
  refine iff_of_false ?_ (hread id hid)
  rintro ⟨d, rfl, b, hb, -⟩
  exact hid (hpush d b hb)

theorem Preliminary.tallied (hh : Preliminary e h) : Tallied e base w h t := by
  refine tallied_of_none (fun d b hb => (hh _ hb).elim) fun id hid ⟨row, hrow⟩ => ?_
  exact hid (hh _ hrow)

/-- A read that finds no orphan. -/
theorem tallied_read (hnone : ∀ row, base.store.Has id → t.store.execution? id = some row →
    row.isOrphanOf w ≠ true) (x : Except StoreError (Option Execution)) :
    Tallied e base w [⟨.store (.execution id), x⟩] t := by
  intro j hj hbase f hf hw
  refine iff_of_false ?_ ?_
  · rintro ⟨d, -, b, hb, -⟩
    cases List.mem_singleton.mp hb
  · rintro ⟨row, hrow⟩
    cases List.mem_singleton.mp hrow
    exact hnone f hbase hf hw

/-- A read that is left unanswered. -/
theorem tallied_unread (f : StoreError) :
    Tallied e base w [⟨.store (.execution id), .error f⟩] t := by
  refine tallied_of_none (fun d b hb => ?_) fun j _ ⟨row, hrow⟩ => ?_
  · cases List.mem_singleton.mp hb
  · cases List.mem_singleton.mp hrow

/-- An orphan that is read and queued. -/
theorem tallied_push (row : Execution) {b : Bool} (hb : base.queue.hasConsumer = true → b = true) :
    Tallied e base w [⟨.store (.execution row.id), .ok (some row)⟩, ⟨.push row, b⟩] t := by
  intro j hj hbase f hf hw
  by_cases hrow : j = row.id
  · subst hrow
    refine iff_of_true ⟨row, rfl, b, ?_, hb⟩ ⟨some row, ?_⟩ <;> simp
  · refine iff_of_false ?_ ?_
    · rintro ⟨d, rfl, b', hb', -⟩
      simp only [List.mem_cons, List.not_mem_nil, or_false] at hb'
      rcases hb' with hb' | hb' <;> cases hb'
      exact hrow rfl
    · rintro ⟨row', hrow'⟩
      simp only [List.mem_cons, List.not_mem_nil, or_false] at hrow'
      rcases hrow' with hrow' | hrow' <;> cases hrow'
      exact hrow rfl

/-- When an executor has been given up, only the copy has been queued. -/
theorem Preliminary.tallied_givenUp (hh : Preliminary e h) (b : Bool) (a : Address)
    (entry : Option Executor) : Tallied e base w
      (h ++ [⟨.push e, b⟩] ++ [⟨.evict a, entry⟩] ++ [⟨.forget a, ()⟩]) t := by
  rw [List.append_assoc, List.append_assoc]
  refine hh.tallied.append (tallied_of_none ?_ ?_)
  · intro d b hb
    simp only [List.singleton_append, List.mem_cons, List.not_mem_nil, or_false] at hb
    rcases hb with hb | hb | hb <;> cases hb
    rfl
  · rintro id _ ⟨row, hrow⟩
    simp only [List.singleton_append, List.mem_cons, List.not_mem_nil, or_false] at hrow
    rcases hrow with hrow | hrow | hrow <;> cases hrow

/-- What holds when the executions that a lost executor had reported have been looked at. -/
structure LookedAt (e : Execution) (base : Site) (w : String) (h : History) (ids : List Int)
    (k : History) (t : Site) : Prop where
  grows : h ⊆ k
  unasked : Unasked e k
  tallied : Tallied e base w k t
  asked : ∀ id ∈ ids, id ≠ e.id → ∃ x, ⟨.store (.execution id), x⟩ ∈ k

/-- Meanwhile what has been read of the reported ids is accounted for. -/
theorem resubmits_tallied (e : Execution) (base : Site) (w : String) (h : History)
    (reported : List Int) :
    Resubmits (outages e) w e.id fun ids k u =>
      base.Beside e u ∧ h ⊆ k ∧ Unasked e k ∧ Tallied e base w k u ∧
        ∀ id ∈ reported, id ≠ e.id → id ∈ ids ∨ ∃ x, ⟨.store (.execution id), x⟩ ∈ k where
  skip := by
    rintro ids k u ⟨hu, hk, hunasked, htallied, hasked⟩
    refine ⟨hu, hk, hunasked, htallied, fun id hid hne => (hasked id hid hne).imp_left fun hmem => ?_⟩
    exact (List.mem_cons.mp hmem).resolve_left hne
  may _ _ _ := trivial
  pass := by
    rintro id ids k s t ⟨o, outage⟩ u found - ⟨hs, hk, hunasked, htallied, hasked⟩ hst hread hnot
    obtain ⟨rfl, hread⟩ : u = t ∧ Tallied e base w [⟨.store (.execution id), found⟩] t := by
      cases outage with
      | some reason =>
        -- the row cannot be read, and it is passed over
        obtain ⟨rfl, rfl⟩ := Prod.mk.inj hread
        exact ⟨rfl, tallied_unread _⟩
      | none =>
        -- there is no row, or it names another executor by now, or none
        obtain ⟨rfl, rfl⟩ := Prod.mk.inj hread
        refine ⟨rfl, tallied_read (fun row _ hrow => ?_) _⟩
        exact ne_true_of_eq_false (hnot row (congrArg Except.ok hrow))
    refine ⟨hs.trans hst, List.Subset.trans hk (List.subset_append_left _ _), hunasked.append rfl,
      (htallied.beside hs hst).append hread, fun j hj hne => ?_⟩
    rcases hasked j hj hne with hmem | ⟨x, hx⟩
    · refine (List.mem_cons.mp hmem).symm.imp_right ?_
      rintro rfl
      exact ⟨found, List.mem_append_right _ (List.mem_singleton.mpr rfl)⟩
    · exact .inr ⟨x, List.mem_append_left _ hx⟩
  push := by
    rintro id ids k s t ⟨o, outage⟩ u v row - ⟨hs, hk, hunasked, htallied, hasked⟩ hst hread - hv
    obtain ⟨rfl, rfl⟩ : u = t ∧ row.id = id := by
      cases outage with
      | some reason => cases congrArg Prod.fst hread
      | none =>
        obtain ⟨hrow, rfl⟩ := Prod.mk.inj hread
        exact ⟨rfl, Store.execution?_id (Except.ok.inj hrow)⟩
    refine ⟨trivial, fun {o' v' sent} hsent => ?_⟩
    obtain ⟨hpush, hbeside⟩ := answer_push (e := e) o' row v
    obtain ⟨rfl, rfl⟩ := Prod.mk.inj (hpush.symm.trans hsent)
    have hbu := hs.trans hst
    have hbv := hbu.trans hv
    have htaken : base.queue.hasConsumer = true → v.queue.hasConsumer = true :=
      fun hc => hbv.hasConsumer.trans hc
    -- the orphan is queued, whatever has become of its row since it was read
    have hqueued := (((htallied.beside hs hst).beside hbu hv).beside hbv hbeside).append
      (tallied_push row htaken)
    refine ⟨hbv.trans hbeside,
      List.Subset.trans hk (List.subset_append_of_subset_left _ (List.subset_append_left _ _)),
      (hunasked.append rfl).append rfl, by simpa using hqueued, fun j hj hne => ?_⟩
    rcases hasked j hj hne with hmem | ⟨x, hx⟩
    · refine (List.mem_cons.mp hmem).symm.imp_right ?_
      rintro rfl
      exact ⟨_, List.mem_append_left _ (List.mem_append_right _ (List.mem_singleton.mpr rfl))⟩
    · exact .inr ⟨x, List.mem_append_left _ (List.mem_append_left _ hx)⟩

/-- **What a lost executor had reported is queued again** as far as it can be read. -/
theorem resubmit_spares {ids : List Int} (hu : Unasked e h) (hs : base.Beside e s)
    (ht : Tallied e base w h s) :
    (resubmit w e.id ids).Keeps (outages e) (fun k o t => o.isSome ∧ LookedAt e base w h ids k t)
      h s := by
  refine (resubmits_tallied e base w h ids).keeps ?_
    ⟨hs, List.Subset.refl _, hu, ht, fun id hid _ => .inl hid⟩
  rintro k u t ⟨hu, hk, hunasked, htallied, hasked⟩ hut
  exact ⟨hk, hunasked, htallied.beside hu hut,
    fun id hid hne => (hasked id hid hne).resolve_left List.not_mem_nil⟩

end Tally

/-- **An execution whose executor is lost is queued again**, and so is what that had reported, as far
as it can be read. -/
theorem failOver_spares (hh : Preliminary e h) (hs : base.Beside e s) (a : Address) :
    (failOver e a).Keeps (outages e) (Spares e base) h s := by
  rw [failOver_eq]
  intro t ht
  refine ⟨trivial, fun o => ?_⟩
  have hbt := hs.trans ht
  obtain ⟨hpush, hbpush⟩ := answer_push (e := e) o e t
  rw [hpush]
  have hbt' := hbt.trans hbpush
  -- the copy has been queued, and nothing of this is undone
  have htaken : base.queue.hasConsumer = true → t.queue.hasConsumer = true :=
    fun hc => hbt.hasConsumer.trans hc
  intro u hu
  refine ⟨trivial, fun o' => ?_⟩
  have hbu := hbt'.trans hu
  have hevict : (outages e).answer o' (.evict a) u =
      (u.registry.get? a, { u with registry := (u.registry.evict a).2 }) := rfl
  rw [hevict]
  have hbu' := hbu.trans (.of_store (t := { u with registry := (u.registry.evict a).2 }) rfl rfl)
  intro v hv
  refine ⟨trivial, fun o'' => ?_⟩
  have hbv := hbu'.trans hv
  have hforget : (outages e).answer o'' (.forget a) v = ((), v) := rfl
  rw [hforget]
  generalize hk : h ++ [⟨.push e, t.queue.hasConsumer⟩] ++ [⟨.evict a, u.registry.get? a⟩] ++
    [⟨.forget a, ()⟩] = k
  have hrequeued : Requeued base.queue.hasConsumer e k := ⟨_, by simp [← hk], htaken⟩
  have hevicted : ⟨.evict a, u.registry.get? a⟩ ∈ k := by simp [← hk]
  have hunasked : Unasked e k := hk ▸ ((hh.unasked.append rfl).append rfl).append rfl
  cases hentry : u.registry.get? a with
  | none =>
    refine fun w hw => .of_requeued hrequeued hunasked (by simp) fun b ids hb => ?_
    cases hb
    exact ⟨none, hentry ▸ hevicted, fun entry hnone => by cases hnone⟩
  | some entry =>
    have haddress : entry.address = a := by simpa using List.find?_some hentry
    simp only [haddress]
    have htallied : Tallied e base a.display k v := hk ▸ hh.tallied_givenUp _ a _
    refine Interaction.Keeps.bind (resubmit_spares hunasked hbv htallied) ?_ ?_
    · intro ids k' w hw x hx
      obtain ⟨-, hlooked⟩ := hw x hx
      refine .of_requeued ?_ hlooked.unasked (by simp) fun b ids' hb => ?_
      · obtain ⟨b, hb, hc⟩ := hrequeued
        exact ⟨b, hlooked.grows hb, hc⟩
      · cases hb
        refine ⟨some entry, hlooked.grows (hentry ▸ hevicted), ?_⟩
        intro entry' he id hid hne hbase f hf ho
        obtain rfl := Option.some.inj he
        exact ⟨hlooked.asked id hid hne, hlooked.tallied id hne hbase f hf ho⟩
    · rintro k' w ⟨hnone, -⟩
      cases hnone

/-! ## The whole dispatch -/

theorem attempts_spares (hh : Preliminary e h) (he : e.status.isFinished = false)
    (hs : base.Beside e s) (a : Address) (n : Nat) :
    (attempts e a n).Keeps (outages e) (Spares e base) h s := by
  induction n generalizing h s with
  | zero => exact markFailed_spares hh he
  | succ n ih =>
    rw [attempts_succ]
    intro t ht
    refine ⟨trivial, fun o => ?_⟩
    have hbt := hs.trans ht
    have hcall : ∀ x : Except CallError Unit, Preliminary e
        (h ++ [⟨.call (.submit a e.projectId e.id e.flowKind), x⟩]) := fun x => hh.append trivial
    have hanswer : (outages e).answer o (.call (.submit a e.projectId e.id e.flowKind)) t =
        (o.reply, t) := rfl
    rw [hanswer]
    rcases o.reply with (reason | reason) | _
    · -- the executor cannot be reached: it is given up unless the row is seen to have moved
      refine Interaction.Keeps.bind (stillPending_spares (hcall _) hbt) ?_ fun _ _ hu => by
        simp at hu
      refine fun b k u hu => Interaction.Keeps.of_rely fun v hv => ?_
      obtain ⟨hk, hbv, p, hb, hleft⟩ := hu v hv
      obtain rfl := Option.some.inj hb
      cases b with
      | true => exact failOver_spares hk hbv a
      | false => exact fun w hw => .of_left hk.unasked (hw.left (hleft rfl))
    · exact ih (hcall _) hbt
    · exact commit_spares (hcall _) a

/-- **A dispatch spares its copy** and the orphans of an executor that it loses. -/
theorem run_spares (limits : DispatchLimits) (he : e.status.isFinished = false) (s : Site) :
    (run limits e).Keeps (outages e) (Spares e s) [] s := by
  have hnil : Preliminary e [] := fun x hx => by cases hx
  rw [run_eq]
  refine Interaction.Keeps.bind (stillPending_spares hnil (.refl e s)) ?_ fun _ _ hu => by
    simp at hu
  refine fun b k u hu => Interaction.Keeps.of_rely fun v hv => ?_
  obtain ⟨hk, hbv, p, hb, hleft⟩ := hu v hv
  obtain rfl := Option.some.inj hb
  cases b with
  | false => exact fun w hw => .of_left hk.unasked (hw.left (hleft rfl))
  | true =>
    intro t ht
    refine ⟨trivial, fun o => ?_⟩
    have hpick : (outages e).answer o .pick t =
        (t.registry.pick.1, { t with registry := t.registry.pick.2 }) := rfl
    rw [hpick]
    have hbt := (hbv.trans ht).trans
      (.of_store (t := { t with registry := t.registry.pick.2 }) rfl rfl)
    have hpicked : ∀ x : Option Executor, Preliminary e (k ++ [⟨.pick, x⟩]) := fun x =>
      hk.append trivial
    cases t.registry.pick.1 with
    | some x => exact attempts_spares (hpicked _) he hbt x.address _
    | none =>
      -- there is no executor: after a pause the copy is queued again
      intro w hw
      refine ⟨trivial, fun o' y hy => ⟨trivial, fun o'' z _ => ?_⟩⟩
      have hby := (hbt.trans hw).trans hy
      rw [(answer_push o'' e y).1]
      refine .of_requeued ?_ ?_ (by simp) (by simp)
      · exact ⟨_, List.mem_append_right _ (List.mem_singleton.mpr rfl),
          fun hc => hby.hasConsumer.trans hc⟩
      · exact ((hpicked none).unasked.append rfl).append rfl

/-- **What is queued again if the store may be out of reach.** A dispatch ends. If the row of its
copy still has the status of the copy and no worker was recorded, the copy has been queued again
unless a change of its status was left unanswered. It says that the copy has failed only if the row
is marked so, or if that was left unanswered. And what a lost executor had reported is queued again
if it is an orphan of it, unless its row could not be read. -/
theorem requeued_iff {limits : DispatchLimits} {others : Site → Site → Prop} {s t : Site}
    {turns : Turns} {result : Option DispatchOutcome} (he : e.status.isFinished = false)
    (hothers : ∀ s t, others s t → s.Beside e t)
    (h : (run limits e).Ran Site.answerIfReached others s turns result t) :
    Spares e s (turns.map (·.exchange)) result t :=
  Interaction.Keeps.ran hothers (run_spares limits he s) h

/-- A copy of an execution that waits. -/
def waitingCopy : Execution :=
  Store.newRow 1 ⟨0, 0⟩ (.ofWorkflow ⟨1, 10, "flow", 42, .short, 0, ""⟩ .direct ⟨0, 0⟩)

/-- A site with its row and with one executor. -/
def oneWaiting : Site :=
  { Site.oneWorkflow with
    store := { Site.oneWorkflow.store with rows := [waitingCopy], lastId := 1 }
    registry := Registry.empty.register ⟨"a", 9000⟩ ⟨0, 0⟩ }

/-- Executors accept, and the store is out of reach at one of the requests. -/
def downAt (n m : Nat) : Contact :=
  ⟨⟨⟨0, 0⟩, .ok ()⟩, if m = n then some "down" else none⟩

/-- An execution that has been accepted is left behind if this cannot be recorded. -/
theorem requeued_iff_commitUnanswered :
    ∃ turns t, (run ⟨1, 0⟩ waitingCopy).Ran Site.answerIfReached Eq oneWaiting turns
        (some .abandoned) t ∧ t.Expects waitingCopy ∧
      ¬ Requeued true waitingCopy (turns.map (·.exchange)) := by
  have hran := Interaction.ran_course Site.answerIfReached (run ⟨1, 0⟩ waitingCopy) (downAt 3)
    oneWaiting
  have hbeside : ∀ s t : Site, s = t → s.Beside waitingCopy t := by
    rintro s _ rfl
    exact .refl _ s
  have hspares := requeued_iff (e := waitingCopy) rfl hbeside hran
  have hwaits : ((run ⟨1, 0⟩ waitingCopy).course Site.answerIfReached (downAt 3)
      oneWaiting).2.2.Expects waitingCopy := ⟨waitingCopy, rfl, rfl⟩
  refine ⟨_, _, hran, hwaits, (hspares.copy hwaits ?_).mpr ?_⟩
  all_goals
    have hturns : ((run ⟨1, 0⟩ waitingCopy).course Site.answerIfReached (downAt 3)
        oneWaiting).1.map (·.exchange) = [
          ⟨.store (.execution 1), .ok (some waitingCopy)⟩,
          ⟨.pick, some ⟨⟨"a", 9000⟩, ⟨0, 0⟩, none⟩⟩,
          ⟨.call (.submit ⟨"a", 9000⟩ 10 1 .short), .ok ()⟩,
          ⟨.store (.transition 1 .init (.runningOn "a:9000")), .error (.unavailable "down")⟩] := rfl
    rw [hturns]
  · rintro ⟨a, ha⟩
    simp only [List.mem_cons, List.not_mem_nil, or_false] at ha
    rcases ha with ha | ha | ha | ha
    · cases ha
    · cases ha
    · cases ha
    · have hanswer : (.ok true : Except StoreError Bool) = .error (.unavailable "down") :=
        eq_of_heq (Sigma.mk.inj ha).2
      cases hanswer
  · refine ⟨.runningOn "a:9000", .unavailable "down", ?_⟩
    iterate 3 apply List.mem_cons_of_mem
    exact List.mem_cons_self

end Dispatch

end WorkflowScheduler
