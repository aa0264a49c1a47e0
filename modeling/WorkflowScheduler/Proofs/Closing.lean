import WorkflowScheduler.Proofs.Dispatching
import WorkflowScheduler.Proofs.Serving

/-!
# How a dispatch ends

An executor that accepts a submit works on the execution from then on, whatever becomes of the row.
So a dispatch may end in two ways only once a submit has been accepted: the row names the executor,
or the executor has been told to drop the execution.

## Main definitions

* `Accepted`, `Dropped`: what an executor has answered, and what it has been told
* `Dispatch.closing`: the terms on which this is shown
* `Dispatch.Closed`: what holds of the submits when a dispatch has ended

## Main results

* `Dispatch.commit_closes`: an accepted submit is recorded or taken back
* `Dispatch.run_closes`: every dispatch ends closed
-/

namespace WorkflowScheduler

/-- An executor has accepted the submit of an execution. -/
def Accepted (a : Address) (id : Int) (h : History) : Prop :=
  ∃ projectId kind, ⟨.call (.submit a projectId id kind), .ok ()⟩ ∈ h

/-- An executor has been told to cancel an execution, whatever it answered. -/
def Dropped (a : Address) (id : Int) (h : History) : Prop :=
  ∃ reply, ⟨.call (.cancel a id), reply⟩ ∈ h

theorem accepted_append_iff {a : Address} {id : Int} {h : History} {x : Exchange Request.Answer} :
    Accepted a id (h ++ [x]) ↔
      Accepted a id h ∨ ∃ projectId kind, x = ⟨.call (.submit a projectId id kind), .ok ()⟩ := by
  constructor
  · rintro ⟨projectId, kind, hx⟩
    rcases List.mem_append.mp hx with hx | hx
    · exact .inl ⟨projectId, kind, hx⟩
    · exact .inr ⟨projectId, kind, (List.mem_singleton.mp hx).symm⟩
  · rintro (⟨projectId, kind, hx⟩ | ⟨projectId, kind, rfl⟩)
    · exact ⟨projectId, kind, List.mem_append_left _ hx⟩
    · exact ⟨projectId, kind, by simp⟩

/-- Only an accepted submit makes a difference to what has been accepted. -/
theorem Accepted.of_append {a : Address} {id : Int} {h : History} {r : Request} {y : r.Answer}
    (hr : ∀ b p j k, r ≠ .call (.submit b p j k)) (hx : Accepted a id (h ++ [⟨r, y⟩])) :
    Accepted a id h := by
  rcases accepted_append_iff.mp hx with hx | ⟨p, k, hx⟩
  · exact hx
  · cases hx
    exact absurd rfl (hr a p id k)

namespace Dispatch

/-- A worker that a dispatch may record: an executor that it has picked. -/
def Picked (h : History) (w : String) : Prop :=
  ∃ x : Executor, ⟨.pick, some x⟩ ∈ h ∧ x.address.display = w

theorem Picked.append {h : History} {w : String} (hp : Picked h w) (k : History) :
    Picked (h ++ k) w := by
  obtain ⟨x, hx, hw⟩ := hp
  exact ⟨x, List.mem_append_left k hx, hw⟩

/-- **The terms on which a dispatch is closed**: a change of status names only an executor that has
been picked. As for operations, it does not matter what others do as long as rows go on. -/
def closing : Terms Request.Answer Site Outside :=
  { Master.terms with
    may := fun h r _ => ∀ id expected u, r = .store (.transition id expected u) →
      ∀ w, u.worker = some w → Picked h w }

/-- **A closed dispatch**: an executor that has accepted the execution is its worker or has been told
to drop it, and an execution that has failed is recorded so. -/
structure Closed (e : Execution) (h : History) (o : Option DispatchOutcome) (s : Site) : Prop where
  dropped : ∀ a, Accepted a e.id h → o = some (.dispatched a) ∨ Dropped a e.id h
  failed : o = some .failed → ∃ f, s.store.execution? e.id = some f ∧ f.status = .failed

variable {e : Execution} {h : History} {s : Site} {a : Address}

/-- No executor has accepted the execution so far. -/
def Open (e : Execution) (h : History) : Prop :=
  ∀ a, ¬ Accepted a e.id h

theorem Open.append {r : Request} {y : r.Answer} (ho : Open e h)
    (hr : ∀ b p j k, r ≠ .call (.submit b p j k)) : Open e (h ++ [⟨r, y⟩]) :=
  fun a hx => ho a (hx.of_append hr)

theorem Closed.of_open {o : Option DispatchOutcome} (ho : Open e h) (hne : o ≠ some .failed) :
    Closed e h o s :=
  ⟨fun a ha => absurd ha (ho a), fun hf => absurd hf hne⟩

/-- A program on the terms of closing. -/
abbrev Closes {α : Type} (p : Program α) (post : History → Option α → Site → Prop) :
    History → Site → Prop :=
  Interaction.Keeps closing post p

/-- A request that does not change a status is always allowed. -/
theorem closing_may {r : Request} (hr : ∀ id expected u, r ≠ .store (.transition id expected u)) :
    closing.may h r s :=
  fun id expected u hx => absurd hx (hr id expected u)

/-- The check of a row leaves the dispatch open. -/
theorem stillPending_closes (hb : s.store.Backs e) (ho : Open e h) :
    Closes (stillPending e) (fun k _ t => t.store.Backs e ∧ Open e k) h s := by
  rw [stillPending_eq]
  intro t ht
  refine ⟨closing_may (by simp), fun o => ?_⟩
  have hanswer : closing.answer o (.store (.execution e.id)) t =
      (.ok (t.store.execution? e.id), t) := rfl
  have hopen : ∀ y, Open e (h ++ [⟨.store (.execution e.id), y⟩]) := fun y => ho.append (by simp)
  have hdone : ∀ u, t.Progress u → u.store.Backs e := fun u hu =>
    (hb.mono ht.leadsTo).mono hu.leadsTo
  rw [hanswer]
  -- whatever the row is, there is nothing more to ask
  cases t.store.execution? e.id <;>
    exact fun u hu => ⟨hdone u hu, hopen _⟩

/-- **An accepted submit is recorded or taken back.** -/
theorem commit_closes (hb : s.store.Backs e) (hp : Picked h a.display)
    (ha : ∀ b, Accepted b e.id h → b = a) : Closes (commit e a) (Closed e) h s := by
  rw [commit_eq]
  intro t ht
  constructor
  · rintro id expected u hu w hw
    cases hu
    cases hw
    exact hp
  · intro o
    obtain ⟨-, row, hrow, -⟩ := hb.mono ht.leadsTo
    have hanswer : (closing.answer o
        (.store (.transition e.id e.status (.runningOn a.display))) t).1 =
        .ok (decide (row.status = e.status)) := Site.answer_transition hrow o _ _
    have honly : ∀ y b, Accepted b e.id
        (h ++ [⟨.store (.transition e.id e.status (.runningOn a.display)), y⟩]) → b = a :=
      fun y b hb => ha b (hb.of_append (by simp))
    rw [hanswer]
    by_cases hs : row.status = e.status
    · -- the change has taken place: the executor that has accepted is the worker
      simp only [hs, decide_true]
      intro u hu
      refine ⟨fun b hb => .inl ?_, by simp⟩
      rw [honly _ b hb]
    · -- the row has gone on: the executor is told to drop what it has accepted
      simp only [hs, decide_false]
      intro u hu
      refine ⟨closing_may (by simp), fun o' v hv => ⟨fun b hb => .inr ?_, by simp⟩⟩
      have hb := hb.of_append (by simp)
      rw [honly _ b hb]
      exact ⟨_, List.mem_append_right _ List.mem_cons_self⟩

theorem markFailed_closes (hb : s.store.Backs e) (ho : Open e h) :
    Closes (markFailed e) (Closed e) h s := by
  rw [markFailed_eq]
  intro t ht
  constructor
  · rintro id expected u hu w hw
    cases hu
    cases hw
  · intro o
    obtain ⟨-, row, hrow, -⟩ := hb.mono ht.leadsTo
    have hanswer : (closing.answer o
        (.store (.transition e.id e.status (.toStatus .failed))) t).1 =
        .ok (decide (row.status = e.status)) := Site.answer_transition hrow o _ _
    have hopen : ∀ y, Open e
        (h ++ [⟨.store (.transition e.id e.status (.toStatus .failed)), y⟩]) :=
      fun y => ho.append (by simp)
    rw [hanswer]
    by_cases hs : row.status = e.status
    · -- the row has failed, and a finished row does not change any more
      simp only [hs, decide_true]
      intro u hu
      refine ⟨fun b hb => absurd hb (hopen _ b), fun _ => ?_⟩
      obtain ⟨f, hf, hfe⟩ := hu.leadsTo _ _ (Site.execution?_answer hrow)
      rw [Request.rowAfter_transition (Store.execution?_id hrow) hs] at hfe
      refine ⟨f, hf, ?_⟩
      rw [hfe.eq_of_finished rfl]
      rfl
    · simp only [hs, decide_false]
      exact fun u hu => .of_open (hopen _) (by simp)

/-- What a lost executor held is queued again without any submit. -/
theorem resubmits_open (e : Execution) (executor : String) (except : Int) :
    Resubmits closing executor except fun _ h _ => Open e h where
  skip ho := ho
  may _ _ _ := closing_may (by simp)
  pass := by
    rintro id ids h s t o u found - ho - - -
    exact ho.append (by simp)
  push := by
    rintro id ids h s t o u v row - ho - - - -
    refine ⟨closing_may (by simp), ?_⟩
    rintro o' w sent -
    exact (ho.append (by simp)).append (by simp)

theorem failOver_closes (ho : Open e h) (a : Address) :
    Closes (failOver e a) (Closed e) h s := by
  rw [failOver_eq]
  intro t ht
  refine ⟨closing_may (by simp), fun o => ?_⟩
  intro u hu
  refine ⟨closing_may (by simp), fun o' => ?_⟩
  intro v hv
  refine ⟨closing_may (by simp), fun o'' => ?_⟩
  -- neither the copy nor the executor is asked anything that could be accepted
  have hopen : ∀ x y z, Open e (h ++ [⟨.push e, x⟩] ++ [⟨.evict a, y⟩] ++ [⟨.forget a, z⟩]) :=
    fun x y z => ((ho.append (by simp)).append (by simp)).append (by simp)
  split
  · next entry _ =>
    refine Interaction.Keeps.bind ((resubmits_open e _ _).keeps (Q := fun k _ => Open e k)
      (fun ho _ => ho) (hopen _ _ _)) ?_ ?_
    · exact fun ids k w hw x hx => .of_open (hw x hx).2 (by simp)
    · rintro k w ⟨hnone, -⟩
      cases hnone
  · exact fun w hw => .of_open (hopen _ _ _) (by simp)

theorem attempts_closes (hb : s.store.Backs e) (hp : Picked h a.display) (ho : Open e h) (n : Nat) :
    Closes (attempts e a n) (Closed e) h s := by
  -- on the attempts: as long as another one follows, all have been refused
  induction n generalizing h s with
  | zero => exact markFailed_closes hb ho
  | succ n ih =>
    rw [attempts_succ]
    intro t ht
    refine ⟨closing_may (by simp), fun o => ?_⟩
    have hb := hb.mono ht.leadsTo
    have hanswer : closing.answer o (.call (.submit a e.projectId e.id e.flowKind)) t =
        (o.reply, t) := rfl
    have hrefused : ∀ err, Open e
        (h ++ [⟨.call (.submit a e.projectId e.id e.flowKind), .error err⟩]) := by
      intro err b hb
      rcases accepted_append_iff.mp hb with hb | ⟨p, k, hx⟩
      · exact ho b hb
      · cases hx
    rw [hanswer]
    rcases o.reply with (reason | reason) | _
    · refine Interaction.Keeps.bind (stillPending_closes hb (hrefused _)) ?_ ?_
      · intro b k u hu
        apply Interaction.Keeps.of_rely
        intro v hv
        obtain ⟨-, hopen⟩ := hu v hv
        cases b with
        | true => exact failOver_closes hopen a
        | false => exact fun w hw => .of_open hopen (by simp)
      · exact fun k u hu => .of_open hu.2 (by simp)
    · exact ih hb (hp.append _) (hrefused _)
    · refine commit_closes hb (hp.append _) fun b hb => ?_
      rcases accepted_append_iff.mp hb with hb | ⟨p, k, hx⟩
      · exact absurd hb (ho b)
      · cases hx
        rfl

/-- **Every dispatch of a copy that the store backs ends closed.** -/
theorem run_closes (limits : DispatchLimits) (hb : s.store.Backs e) (ho : Open e h) :
    Closes (run limits e) (Closed e) h s := by
  rw [run_eq]
  refine Interaction.Keeps.bind (stillPending_closes hb ho) ?_ ?_
  · intro b k u hu
    apply Interaction.Keeps.of_rely
    intro v hv
    obtain ⟨hb, hopen⟩ := hu v hv
    cases b with
    | false => exact fun w hw => .of_open hopen (by simp)
    | true =>
      intro t ht
      refine ⟨closing_may (by simp), fun o => ?_⟩
      have hpicked := hopen.append (r := .pick) (y := (closing.answer o .pick t).1) (by simp)
      have hb : (closing.answer o .pick t).2.store.Backs e := hb.mono ht.leadsTo
      cases hx : (closing.answer o .pick t).1 with
      | none =>
        rw [hx] at hpicked
        -- there is no executor, so nothing is submitted
        refine fun u _ => ⟨closing_may (by simp), fun _ => ?_⟩
        refine fun w hw => ⟨closing_may (by simp), fun _ => ?_⟩
        exact fun x hx => .of_open ((hpicked.append (by simp)).append (by simp)) (by simp)
      | some executor =>
        rw [hx] at hpicked
        exact attempts_closes hb ⟨executor, by simp, rfl⟩ hpicked _
  · exact fun k u hu => .of_open hu.2 (by simp)

end Dispatch

end WorkflowScheduler
