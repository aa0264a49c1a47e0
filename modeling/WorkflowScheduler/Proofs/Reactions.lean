import WorkflowScheduler.Proofs.Dispatching

/-!
# Calls during which statuses are written

While an executor is called, others may write the status of any row: a cancel, or an executor that
records what has become of an execution. Between its calls a dispatch is alone. This module follows
the parts of a dispatch through such courses: the submits, the check of the row, the comparison with
the row, and the loss of an executor.

## Main definitions

* `StatusWrite`, `Reaction`: what others write during a call, and what is replied
* `Site.react`: how a site answers if statuses are written during calls
* `Dispatch.Submission`, `Dispatch.submissions`: the submits of a course, with their replies
* `Dispatch.Submits`: a row of submits to one executor
* `Dispatch.Follows`: what follows the submits
* `Dispatch.orphans`: the rows that are queued again when an executor is lost

## Main results

* `Dispatch.attempts_ran`: the attempts of a dispatch begin with submits to its executor
* `Dispatch.failOver_ran`: how an executor is given up
-/

namespace WorkflowScheduler

/-! ## Calls during which statuses are written -/

/-- A status that is written into a row. -/
structure StatusWrite where
  now : Instant
  id : Int
  status : Status

/-- What comes from outside at a request: the time, and at a call the statuses that are written
meanwhile and the reply. -/
structure Reaction extends Outside where
  writes : List StatusWrite

namespace Store

/-- A store after statuses have been written. -/
def written (s : Store) (ws : List StatusWrite) : Store :=
  ws.foldl (fun s w => (s.setStatus w.now w.id w.status).2) s

/-- There is a row with an id. -/
def Has (s : Store) (id : Int) : Prop :=
  ∃ row, s.execution? id = some row

theorem Has.modifyRow {s : Store} {id : Int} (h : s.Has id) (j : Int)
    {f : Execution → Execution} (hf : ∀ e, (f e).id = e.id) : (s.modifyRow j f).Has id := by
  obtain ⟨row, hrow⟩ := h
  exact ⟨_, by rw [execution?_modifyRow s j hf, hrow]; rfl⟩

theorem Has.written {s : Store} {id : Int} (h : s.Has id) (ws : List StatusWrite) :
    (s.written ws).Has id := by
  induction ws generalizing s with
  | nil => exact h
  | cons w ws ih =>
    refine ih ?_
    simp only [setStatus]
    split
    · exact h
    · exact h.modifyRow w.id fun _ => rfl

end Store

/-- **How a site answers if statuses are written during calls.** -/
def Site.react (o : Reaction) : (r : Request) → Site → r.Answer × Site
  | .call _, s => (o.reply, { s with store := s.store.written o.writes })
  | .forget _, s => ((), { s with store := s.store.written o.writes })
  | r, s => s.answer o.toOutside r

/-- The call that a request is. -/
def Request.call? : Request → Option Call
  | .call c => some c
  | _ => none

/-- Whether a request goes to the side of the executors, where others may write meanwhile. -/
def Request.goesOut : Request → Bool
  | .call _ => true
  | .forget _ => true
  | _ => false

/-- Whether a request is to change the status of a row. -/
def Request.isTransition : Request → Bool
  | .store (.transition _ _ _) => true
  | _ => false

/-- The row of a copy is there, in the status of the copy. -/
def Site.Expects (s : Site) (e : Execution) : Prop :=
  ∃ row, s.store.execution? e.id = some row ∧ row.status = e.status

/-- A registry with its rotation moved on by one, and with the same entries. -/
def Registry.turned (r : Registry) : Registry :=
  { r with cursor := r.cursor + 1 }

theorem Registry.pick_snd {r : Registry} {x : Executor} (h : r.pick.1 = some x) :
    r.pick.2 = r.turned := by
  rcases r.pick_cases with ⟨-, hp⟩ | ⟨y, -, hp⟩
  · rw [hp] at h
    cases h
  · rw [hp]
    rfl

/-- A site after a change of status of the row of a copy. -/
def Site.changed (s : Site) (e : Execution) (now : Instant) (update : StatusUpdate) : Site :=
  { s with store := s.store.modifyRow e.id (Store.applyUpdate now update) }

namespace Dispatch

/-! ## What is seen of a course -/

/-- The turns of a dispatch. -/
abbrev Turns := List (Turn Request.Answer Site)

/-- A submit: whom it went to, what was replied, and the site after that. -/
structure Submission where
  executor : Address
  reply : Except CallError Unit
  after : Site

/-- The executor has refused. -/
def Submission.IsRefused (v : Submission) : Prop :=
  ∃ reason, v.reply = .error (.rejected reason)

/-- The submit that a turn is. -/
def submission? (u : Turn Request.Answer Site) : Option Submission :=
  match u.exchange with
  | ⟨.call (.submit a _ _ _), reply⟩ => some ⟨a, reply, u.after⟩
  | _ => none

/-- The submits of a course. -/
def submissions (us : Turns) : List Submission :=
  us.filterMap submission?

/-- The calls of a course. -/
def calls (us : Turns) : List Call :=
  us.filterMap fun u => u.exchange.1.call?

/-- The number of changes of status that a course asks for. -/
def transitions (us : Turns) : Nat :=
  us.countP fun u => u.exchange.1.isTransition

/-- **A turn writes for a copy**: it leaves the store as it was, or it is one comparison with the
status of the copy, which changes at most the row of the copy. -/
def WritesFor (e : Execution) (u : Turn Request.Answer Site) : Prop :=
  u.after.store = u.before.store ∨ ∃ now update,
    u.exchange.1 = .store (.transition e.id e.status update) ∧
      u.after.store = u.before.store.modifyRow e.id (Store.applyUpdate now update)

@[simp] theorem submissions_nil : submissions [] = [] := rfl

@[simp] theorem submissions_append (us vs : Turns) :
    submissions (us ++ vs) = submissions us ++ submissions vs :=
  List.filterMap_append

@[simp] theorem calls_nil : calls [] = [] := rfl

@[simp] theorem calls_append (us vs : Turns) : calls (us ++ vs) = calls us ++ calls vs :=
  List.filterMap_append

@[simp] theorem transitions_append (us vs : Turns) :
    transitions (us ++ vs) = transitions us + transitions vs :=
  List.countP_append

/-! ## The submits -/

variable {e : Execution} {a : Address} {s t u : Site} {us vs : Turns}
  {result : Option DispatchOutcome}

/-- **A row of submits of a copy to one executor**, from one site to another. -/
inductive Submits (e : Execution) (a : Address) : Site → Turns → Site → Prop
  | nil (s : Site) : Submits e a s [] s
  | cons {s u : Site} {us : Turns} (o : Reaction)
      (h : Submits e a { s with store := s.store.written o.writes } us u) :
      Submits e a s (⟨s, ⟨.call (.submit a e.projectId e.id e.flowKind), o.reply⟩,
        { s with store := s.store.written o.writes }⟩ :: us) u

namespace Submits

/-- Submits change only statuses. -/
theorem frame (h : Submits e a s us u) :
    u = { s with store := u.store } ∧ (s.store.Has e.id → u.store.Has e.id) := by
  induction h with
  | nil s => exact ⟨rfl, id⟩
  | cons o _ ih => exact ⟨ih.1, fun hs => ih.2 (hs.written o.writes)⟩

theorem calls_eq (h : Submits e a s us u) :
    calls us =
      List.replicate (submissions us).length (.submit a e.projectId e.id e.flowKind) := by
  induction h with
  | nil s => rfl
  | cons o _ ih => exact congrArg (_ :: ·) ih

theorem executor_eq (h : Submits e a s us u) : ∀ v ∈ submissions us, v.executor = a := by
  induction h with
  | nil s => exact fun v hv => by cases hv
  | cons o _ ih => exact List.forall_mem_cons.mpr ⟨rfl, ih⟩

/-- The site after the submits is the site after the last one. -/
theorem after_eq (h : Submits e a s us u) {v : Submission}
    (hv : (submissions us).getLast? = some v) : v.after = u := by
  induction h with
  | nil s => cases hv
  | @cons s u us o h ih =>
    cases hl : (submissions us).getLast? with
    | none =>
      -- it was the only one
      have hnil := List.getLast?_eq_none_iff.mp hl
      cases h with
      | nil => exact Option.some.inj hv ▸ rfl
      | cons => cases hnil
    | some w =>
      have hcons : submissions (⟨s, ⟨.call (.submit a e.projectId e.id e.flowKind), o.reply⟩,
          { s with store := s.store.written o.writes }⟩ :: us) =
          ⟨a, o.reply, { s with store := s.store.written o.writes }⟩ :: submissions us := rfl
      rw [hcons, List.getLast?_cons, hl, Option.getD_some] at hv
      exact ih (hl.trans hv)

theorem transitions_eq (h : Submits e a s us u) : transitions us = 0 := by
  induction h with
  | nil s => rfl
  | cons o _ ih => exact ih

theorem goesOut (h : Submits e a s us u) : ∀ w ∈ us, w.exchange.1.goesOut = true := by
  induction h with
  | nil s => exact fun w hw => by cases hw
  | cons o _ ih => exact List.forall_mem_cons.mpr ⟨rfl, ih⟩

end Submits

/-- **What follows the submits**: every attempt was refused, or the last one was accepted or did not
reach the executor. -/
inductive Follows (e : Execution) (a : Address) (n : Nat) (vs : List Submission) :
    Program DispatchOutcome → Prop
  | refused (hn : vs.length = n) (hv : ∀ v ∈ vs, v.IsRefused) : Follows e a n vs (markFailed e)
  | accepted {v : Submission} (hl : vs.getLast? = some v) (hv : v.reply = .ok ()) :
      Follows e a n vs (commit e a)
  | unreachable {v : Submission} {reason : String} (hl : vs.getLast? = some v)
      (hv : v.reply = .error (.transport reason)) :
      Follows e a n vs ((stillPending e).bind fun b => if b then failOver e a else .done .abandoned)

theorem Follows.cons {n : Nat} {v : Submission} {vs : List Submission}
    {p : Program DispatchOutcome} (hv : v.IsRefused) (h : Follows e a n vs p) :
    Follows e a (n + 1) (v :: vs) p := by
  have hlast : ∀ w, vs.getLast? = some w → (v :: vs).getLast? = some w := fun w hw => by
    rw [List.getLast?_cons, hw, Option.getD_some]
  cases h with
  | refused hn hvs => exact .refused (congrArg (· + 1) hn) (List.forall_mem_cons.mpr ⟨hv, hvs⟩)
  | accepted hl hr => exact .accepted (hlast _ hl) hr
  | unreachable hl hr => exact .unreachable (hlast _ hl) hr

theorem Follows.exists_last {n : Nat} {vs : List Submission} {p : Program DispatchOutcome}
    (hp : Follows e a (n + 1) vs p) : ∃ v, vs.getLast? = some v := by
  cases hp with
  | refused hn hvs =>
    cases hlast : vs.getLast? with
    | none => simp [List.getLast?_eq_none_iff.mp hlast] at hn
    | some v => exact ⟨v, rfl⟩
  | accepted hl _ => exact ⟨_, hl⟩
  | unreachable hl _ => exact ⟨_, hl⟩

theorem forall_mem_dropLast_cons {v : Submission} {vs : List Submission} (hv : v.IsRefused)
    (hvs : ∀ w ∈ vs.dropLast, w.IsRefused) : ∀ w ∈ (v :: vs).dropLast, w.IsRefused := by
  cases vs with
  | nil => simp
  | cons w vs =>
    rw [List.dropLast_cons_cons]
    exact List.forall_mem_cons.mpr ⟨hv, hvs⟩

/-- **The attempts of a dispatch** begin with submits to the executor, each but the last refused,
and go on as the last reply says. -/
theorem attempts_ran {n : Nat} (h : (attempts e a n).Ran Site.react Eq s us result t) :
    ∃ vs ws u p, us = vs ++ ws ∧ Submits e a s vs u ∧ (submissions vs).length ≤ n ∧
      (∀ v ∈ (submissions vs).dropLast, v.IsRefused) ∧ Follows e a n (submissions vs) p ∧
      p.Ran Site.react Eq u ws result t := by
  induction n generalizing s us with
  | zero => exact ⟨[], us, s, _, rfl, .nil s, Nat.le_refl _, by simp, .refused rfl (by simp), h⟩
  | succ n ih =>
    rw [attempts_succ] at h
    cases h with
    | @ask _ _ _ s _ turns _ o hs hr =>
      subst hs
      have hanswer : Site.react o (.call (.submit a e.projectId e.id e.flowKind)) s =
          (o.reply, { s with store := s.store.written o.writes }) := rfl
      rw [hanswer] at hr ⊢
      -- the turn of this submit, if it is the last one
      have hlast : Submits e a s [⟨s, ⟨.call (.submit a e.projectId e.id e.flowKind), o.reply⟩,
          { s with store := s.store.written o.writes }⟩]
          { s with store := s.store.written o.writes } := .cons o (.nil _)
      rcases hreply : o.reply with (reason | reason) | _
      · rw [hreply] at hr hlast
        exact ⟨_, turns, _, _, rfl, hlast, by simp [submissions, submission?], by
          simp [submissions, submission?], .unreachable rfl rfl, hr⟩
      · rw [hreply] at hr
        obtain ⟨vs, ws, u, p, rfl, hvs, hle, hrefused, hp, hran⟩ := ih hr
        have hfirst : Submission.IsRefused ⟨a, o.reply, { s with store := s.store.written o.writes }⟩ :=
          ⟨reason, hreply⟩
        rw [← hreply]
        refine ⟨_, ws, u, p, rfl, .cons o hvs, Nat.succ_le_succ hle, ?_, hp.cons hfirst, hran⟩
        exact forall_mem_dropLast_cons hfirst hrefused
      · rw [hreply] at hr hlast
        exact ⟨_, turns, _, _, rfl, hlast, by simp [submissions, submission?], by
          simp [submissions, submission?], .accepted rfl rfl, hr⟩

/-! ## The comparison with the row -/

theorem react_transition (o : Reaction) (hs : s.Expects e) (update : StatusUpdate) :
    Site.react o (.store (.transition e.id e.status update)) s =
      (.ok true, s.changed e o.now update) := by
  obtain ⟨row, hrow, hstatus⟩ := hs
  simp [Site.react, Site.answer, Store.answer, Store.transition, hrow, hstatus, Site.changed]
  rfl

theorem react_transition_moved (o : Reaction) (hrow : s.store.Has e.id) (hs : ¬ s.Expects e)
    (update : StatusUpdate) :
    Site.react o (.store (.transition e.id e.status update)) s = (.ok false, s) := by
  obtain ⟨row, hrow⟩ := hrow
  have hstatus : row.status ≠ e.status := fun h => hs ⟨row, hrow, h⟩
  simp [Site.react, Site.answer, Store.answer, Store.transition, hrow, hstatus]
  rfl

/-- **A check of the row** tells whether it is in the status of the copy, and changes nothing. -/
theorem stillPending_ran {f : Bool → Program DispatchOutcome}
    (h : ((stillPending e).bind f).Ran Site.react Eq s us result t) :
    ∃ x b vs, us = ⟨s, x, s⟩ :: vs ∧ x.1 = .store (.execution e.id) ∧ (b = true ↔ s.Expects e) ∧
      (f b).Ran Site.react Eq s vs result t := by
  rw [stillPending_eq] at h
  cases h with
  | @ask _ _ _ s _ turns _ o hs hr =>
    subst hs
    have hanswer : Site.react o (.store (.execution e.id)) s =
        (.ok (s.store.execution? e.id), s) := rfl
    rw [hanswer] at hr ⊢
    cases hrow : s.store.execution? e.id with
    | none =>
      rw [hrow] at hr
      exact ⟨_, false, turns, rfl, rfl, by simp [Site.Expects, hrow], hr⟩
    | some row =>
      rw [hrow] at hr
      exact ⟨_, row.status == e.status, turns, rfl, rfl, by simp [Site.Expects, hrow], hr⟩

/-! ## The loss of an executor -/

/-- **A turn without effect on executors and rows**: it does not go out to an executor, it asks for
no change of status, and it leaves the store as it is. -/
structure IsQuiet (u : Turn Request.Answer Site) : Prop where
  goesOut : u.exchange.1.goesOut = false
  isTransition : u.exchange.1.isTransition = false
  store : u.after.store = u.before.store

/-- A turn that is quiet, or that drops what is kept of a connection. -/
def IsMild (u : Turn Request.Answer Site) : Prop :=
  IsQuiet u ∨ ∃ a, u.exchange.1 = .forget a

/-- The row of an execution, if it is still recorded on an executor. -/
def orphan? (s : Store) (executor : String) (id : Int) : Option Execution :=
  (s.execution? id).filter (·.isOrphanOf executor)

/-- **The rows that are queued again when an executor is lost**: of the executions that it had
reported, except one, those that are still recorded on it. -/
def orphans (s : Store) (executor : String) (except : Int) (ids : List Int) : List Execution :=
  (ids.filter (· ≠ except)).filterMap (orphan? s executor)

/-- A queue after a number of executions have been appended. -/
def pushAll (q : Queue) (ds : List Execution) : Queue :=
  ds.foldl (fun q d => (q.push d).2) q

theorem push_hasConsumer (q : Queue) (d : Execution) :
    (q.push d).1 = q.hasConsumer ∧ (q.push d).2.hasConsumer = q.hasConsumer := by
  cases hc : q.hasConsumer <;> simp [Queue.push, Queue.raise, Queue.send, Queue.lower, hc]

/-- **Executions that are appended wait behind the others in their order.** -/
theorem waiting_pushAll {q : Queue} (h : q.hasConsumer = true) (ds : List Execution) :
    (pushAll q ds).waiting = q.waiting ++ ds := by
  induction ds generalizing q with
  | nil => exact (List.append_nil _).symm
  | cons d ds ih =>
    refine (ih ((push_hasConsumer q d).2.trans h)).trans ?_
    simp [Queue.push, Queue.raise, Queue.send, h]

/-- Once the consumer is gone nothing is appended. -/
theorem pushAll_of_closed {q : Queue} (h : q.hasConsumer = false) (ds : List Execution) :
    pushAll q ds = q := by
  induction ds with
  | nil => rfl
  | cons d ds ih =>
    have hpush : (q.push d).2 = q := by
      cases q
      simp_all [Queue.push, Queue.raise, Queue.send, Queue.lower]
    rw [pushAll, List.foldl_cons, hpush]
    exact ih

/-- What is listed of the executions that have been appended, if the queue takes them. -/
def resubmitted (q : Queue) (ds : List Execution) : List Int :=
  if q.hasConsumer then ds.map (·.id) else []

theorem resubmitted_push (q : Queue) (d : Execution) (ds : List Execution) :
    resubmitted (q.push d).2 ds = resubmitted q ds := by
  rw [resubmitted, resubmitted, (push_hasConsumer q d).2]

section Resubmit

variable {executor : String} {except id : Int} {ids : List Int} {listed : Option (List Int)}

/-- An execution that is no orphan is passed over. -/
theorem resubmit_cons_ran_of_none (hid : id ≠ except) (hnone : orphan? s.store executor id = none)
    (h : (resubmit executor except (id :: ids)).Ran Site.react Eq s us listed t) :
    ∃ x vs, us = x :: vs ∧ IsQuiet x ∧
      (resubmit executor except ids).Ran Site.react Eq s vs listed t := by
  rw [resubmit_cons_of_ne hid] at h
  cases h with
  | @ask _ _ _ s _ turns _ o hs hr =>
    subst hs
    have hanswer : Site.react o (.store (.execution id)) s = (.ok (s.store.execution? id), s) := rfl
    rw [hanswer] at hr ⊢
    refine ⟨_, turns, rfl, ⟨rfl, rfl, rfl⟩, ?_⟩
    cases hrow : s.store.execution? id with
    | none =>
      rw [hrow] at hr
      exact hr
    | some row =>
      have horphan : ¬ row.isOrphanOf executor = true := by simpa [orphan?, hrow] using hnone
      rw [hrow] at hr
      simpa only [horphan, Bool.false_eq_true, if_false] using hr

/-- An orphan is queued, and it is listed if the queue takes it. -/
theorem resubmit_cons_ran_of_some {row : Execution} (hid : id ≠ except)
    (hsome : orphan? s.store executor id = some row)
    (h : (resubmit executor except (id :: ids)).Ran Site.react Eq s us listed t) :
    ∃ x y vs rest, us = x :: y :: vs ∧ IsQuiet x ∧ IsQuiet y ∧
      (resubmit executor except ids).Ran Site.react Eq
        { s with queue := (s.queue.push row).2 } vs rest t ∧
      listed = if s.queue.hasConsumer then rest.map (id :: ·) else rest := by
  rw [resubmit_cons_of_ne hid] at h
  obtain ⟨hrow, horphan⟩ := Option.filter_eq_some_iff.mp hsome
  cases h with
  | @ask _ _ _ s _ turns _ o hs hr =>
    subst hs
    have hanswer : Site.react o (.store (.execution id)) s = (.ok (s.store.execution? id), s) := rfl
    rw [hanswer, hrow] at hr
    simp only [horphan, if_true] at hr
    cases hr with
    | @ask _ _ _ u _ turns _ o' hu hr =>
      subst hu
      have hpush : Site.react o' (.push row) s =
          ((s.queue.push row).1, { s with queue := (s.queue.push row).2 }) := rfl
      rw [hpush, (push_hasConsumer s.queue row).1] at hr
      cases hc : s.queue.hasConsumer with
      | true =>
        rw [hc] at hr
        obtain ⟨rest, hrest, rfl⟩ := Interaction.Ran.of_map hr
        exact ⟨_, _, turns, rest, rfl, ⟨rfl, rfl, rfl⟩, ⟨rfl, rfl, rfl⟩, hrest, rfl⟩
      | false =>
        rw [hc] at hr
        exact ⟨_, _, turns, listed, rfl, ⟨rfl, rfl, rfl⟩, ⟨rfl, rfl, rfl⟩, hr, rfl⟩

/-- **What a lost executor had reported is queued again**, as far as it is still recorded there. -/
theorem resubmit_ran (h : (resubmit executor except ids).Ran Site.react Eq s us listed t) :
    (∀ u ∈ us, IsQuiet u) ∧
      t = { s with queue := pushAll s.queue (orphans s.store executor except ids) } ∧
      listed = some (resubmitted s.queue (orphans s.store executor except ids)) := by
  -- on the ids that are left
  induction ids generalizing s us listed with
  | nil =>
    cases h with
    | done hst => exact ⟨by simp, hst.symm, by simp [orphans, resubmitted]⟩
  | cons id ids ih =>
    by_cases hid : id = except
    · have horphans : orphans s.store executor except (id :: ids) =
          orphans s.store executor except ids := by simp [orphans, hid]
      rw [resubmit, if_pos hid] at h
      rw [horphans]
      exact ih h
    cases horphan : orphan? s.store executor id with
    | none =>
      have horphans : orphans s.store executor except (id :: ids) =
          orphans s.store executor except ids := by simp [orphans, hid, horphan]
      obtain ⟨x, vs, rfl, hx, hr⟩ := resubmit_cons_ran_of_none hid horphan h
      obtain ⟨hquiet, ht, hlisted⟩ := ih hr
      rw [horphans]
      exact ⟨List.forall_mem_cons.mpr ⟨hx, hquiet⟩, ht, hlisted⟩
    | some row =>
      have horphans : orphans s.store executor except (id :: ids) =
          row :: orphans s.store executor except ids := by simp [orphans, hid, horphan]
      have hrow : row.id = id := Store.execution?_id (Option.filter_eq_some_iff.mp horphan).1
      obtain ⟨x, y, vs, rest, rfl, hx, hy, hr, rfl⟩ := resubmit_cons_ran_of_some hid horphan h
      obtain ⟨hquiet, ht, hlisted⟩ := ih hr
      rw [horphans]
      refine ⟨List.forall_mem_cons.mpr ⟨hx, List.forall_mem_cons.mpr ⟨hy, hquiet⟩⟩, ht, ?_⟩
      rw [hlisted, resubmitted_push]
      cases hc : s.queue.hasConsumer <;> simp [resubmitted, hc, hrow]

end Resubmit

/-- A site after an executor has been lost, if statuses have been written while the connection to it
was dropped. -/
def failedOver (s : Site) (e : Execution) (entry : Executor) (ws : List StatusWrite) : Site :=
  { s with
    store := s.store.written ws
    queue := pushAll s.queue
      (e :: orphans (s.store.written ws) entry.address.display e.id entry.execIds)
    registry := (s.registry.evict entry.address).2 }

/-- **A lost executor is given up**: the copy is queued, then the executor is evicted, and what it
had reported is queued. -/
theorem failOver_ran {entry : Executor} (hentry : s.registry.get? a = some entry)
    (h : (failOver e a).Ran Site.react Eq s us result t) :
    (∀ u ∈ us, IsMild u) ∧ ∃ ws, t = failedOver s e entry ws ∧
      result = some (.executorLost entry.address
        (resubmitted s.queue (orphans t.store entry.address.display e.id entry.execIds))) := by
  obtain rfl : entry.address = a := by simpa using List.find?_some hentry
  rw [failOver_eq] at h
  cases h with
  | ask o hs hr =>
    subst hs
    cases hr with
    | ask o' hu hr =>
      subst hu
      cases hr with
      | ask o'' hv hr =>
        subst hv
        have hanswer : (Site.react o' (.evict entry.address) (Site.react o (.push e) _).2).1 =
            some entry := hentry
        rw [hanswer] at hr
        obtain ⟨listed, hresubmit, rfl⟩ := Interaction.Ran.of_map hr
        obtain ⟨hquiet, rfl, rfl⟩ := resubmit_ran hresubmit
        refine ⟨?_, o''.writes, rfl, ?_⟩
        · simp only [List.forall_mem_cons]
          exact ⟨.inl ⟨rfl, rfl, rfl⟩, .inl ⟨rfl, rfl, rfl⟩, .inr ⟨_, rfl⟩,
            fun u hu => .inl (hquiet u hu)⟩
        · rw [← resubmitted_push s.queue e]
          rfl

end Dispatch

end WorkflowScheduler
