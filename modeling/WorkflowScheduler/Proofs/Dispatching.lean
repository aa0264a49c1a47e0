import WorkflowScheduler.Proofs.Site

/-!
# What a dispatch asks

While one execution is dispatched, operations and executors go on beside it. They give no row a
worker and take nothing out of the queue, and on this a dispatch relies. In return it changes only
the row of its own copy, from the status that the copy has, and only after it has seen that status.

## Main definitions

* `Dispatch.Checked`: the row has been seen in the status of the copy
* `Dispatch.Orphaned`: an execution has been found on an executor that was given up
* `Request.Dispatches`: what the dispatch of a copy may ask
* `Dispatch.terms`: the terms of the dispatch of a copy
* `Dispatch.Done`: what holds when it has ended
* `Dispatch.Resubmits`: an invariant of looking at what a lost executor had reported

## Main results

* `Dispatch.Resubmits.keeps`: such an invariant is kept to the end
* `Dispatch.failOver_keeps`: an execution whose executor is lost is queued again
* `Dispatch.run_keeps`: the dispatch of a copy that the store backs keeps to its terms
-/

namespace WorkflowScheduler

/-- An execution is in the queue. -/
def Site.Queued (s : Site) (id : Int) : Prop :=
  ∃ e ∈ s.queue.waiting, e.id = id

theorem Site.Queued.calm {s t : Site} {id : Int} (h : s.Queued id) (k : s.Calm t) :
    t.Queued id := by
  obtain ⟨e, he, hid⟩ := h
  exact ⟨e, k.waiting e he, hid⟩

theorem Site.queued_answer {s : Site} (hs : s.queue.hasConsumer = true) (o : Outside)
    (e : Execution) : (s.answer o (.push e)).2.Queued e.id :=
  ⟨e, by simp [(answer_queue hs).1, Request.pushed], rfl⟩

/-- A copy whose status is not that of its row has lost it for good. -/
theorem Site.hasLeft_of_ne {s : Site} {e f : Execution} (h : s.store.Backs e)
    (hf : s.store.execution? e.id = some f) (hne : f.status ≠ e.status) : s.HasLeft e.id := by
  obtain ⟨-, g, hg, heg⟩ := h
  obtain rfl : f = g := Option.some.inj (hf.symm.trans hg)
  refine ⟨f, hf, fun hi => ?_⟩
  have hle := heg.ordinal_le
  rw [hi] at hle hne
  cases he : e.status <;> simp_all [Status.ordinal]

namespace Dispatch

/-- The row of a copy has been seen in the status of the copy. -/
def Checked (e : Execution) (h : History) : Prop :=
  ∃ row : Execution, ⟨.store (.execution e.id), .ok (some row)⟩ ∈ h ∧ row.status = e.status

/-- **An execution has been found on an executor that was given up**: the executor had reported it,
and its row names that executor or waits; the row has not changed its worker since. -/
def Orphaned (d : Execution) (h : History) (s : Site) : Prop :=
  ∃ (a : Address) (entry : Executor), ⟨.evict a, some entry⟩ ∈ h ∧ d.id ∈ entry.execIds ∧
    d.isOrphanOf a.display = true ∧
    ∃ f, s.store.execution? d.id = some f ∧ d.LeadsTo f ∧ f.worker = d.worker

theorem Checked.mono {e : Execution} {h k : History} (hc : Checked e h) (hk : h ⊆ k) :
    Checked e k := by
  obtain ⟨row, hrow, hs⟩ := hc
  exact ⟨row, hk hrow, hs⟩

theorem Checked.append {e : Execution} {h : History} (hc : Checked e h) (k : History) :
    Checked e (h ++ k) :=
  hc.mono (List.subset_append_left h k)

end Dispatch

/-- **What the dispatch of a copy may ask.** -/
def Request.Dispatches (e : Execution) (h : History) (r : Request) (s : Site) : Prop :=
  match r with
  | .store (.execution _) => True
  | .store (.transition id expected u) =>
    id = e.id ∧ expected = e.status ∧ Dispatch.Checked e h ∧
      (u = .toStatus .failed ∨ ∃ a : Address, u = .runningOn a.display)
  | .call (.submit _ _ id _) => id = e.id ∧ Dispatch.Checked e h
  | .call (.cancel _ _) => True
  | .push d => d = e ∨ d.id ≠ e.id ∧ d.status.IsPending ∧ Dispatch.Orphaned d h s
  | .pick => True
  | .evict _ => True
  | .forget _ => True
  | .pause _ => True
  | _ => False

theorem Request.Dispatches.fits {e : Execution} {h : History} {r : Request} {s : Site}
    (hr : r.Dispatches e h s) (he : s.store.Backs e) : r.Fits s := by
  cases r with
  | push d =>
    rcases hr with rfl | ⟨-, hp, -, -, -, -, -, f, hf, hdf, -⟩
    · exact he
    · exact ⟨hp, f, hf, hdf⟩
  | store q =>
    cases q with
    | transition id expected u =>
      obtain ⟨-, rfl, -, rfl | ⟨a, rfl⟩⟩ := hr
      · exact ⟨he.1, StatusUpdate.isRegular_toStatus rfl⟩
      · exact ⟨he.1, StatusUpdate.isRegular_runningOn _⟩
    | _ => trivial
  | _ => trivial

theorem Request.Dispatches.creates {e : Execution} {h : History} {r : Request} {s : Site}
    (hr : r.Dispatches e h s) : r.creates = false := by
  cases r with
  | store q =>
    cases q with
    | createExecution n => exact hr.elim
    | _ => rfl
  | _ => rfl

namespace Dispatch

/-- **The terms of the dispatch of a copy**: others act calmly. -/
def terms (e : Execution) : Terms Request.Answer Site Outside where
  answer := Site.answer
  rely := Site.Calm
  may h r s := r.Dispatches e h s
  rely_trans := Site.Calm.trans
  rely_self h := .refl h.sound

/-- **What holds when the dispatch of a copy has ended**: if the row still waits, it is queued; and
if the execution has been dispatched, its row names the executor. -/
def Done (e : Execution) (_ : History) (o : Option DispatchOutcome) (s : Site) : Prop :=
  (s.HasLeft e.id ∨ s.Queued e.id) ∧
    ∀ a, o = some (.dispatched a) → ∃ f, s.store.execution? e.id = some f ∧
      f.status ≠ .init ∧ f.worker = some a.display

variable {e : Execution} {h : History} {s : Site}

theorem Done.of_hasLeft {o : Option DispatchOutcome} (hl : s.HasLeft e.id)
    (ho : ∀ a, o ≠ some (.dispatched a)) : Done e h o s :=
  ⟨.inl hl, fun a ha => (ho a ha).elim⟩

theorem Done.of_queued {o : Option DispatchOutcome} (hq : s.Queued e.id)
    (ho : ∀ a, o ≠ some (.dispatched a)) : Done e h o s :=
  ⟨.inr hq, fun a ha => (ho a ha).elim⟩

/-- A program that keeps to the terms of the dispatch of a copy. -/
abbrev Keeps {α : Type} (e : Execution) (p : Program α)
    (post : History → Option α → Site → Prop) : History → Site → Prop :=
  Interaction.Keeps (terms e) post p

theorem stillPending_eq (e : Execution) :
    stillPending e = .ask (.store (.execution e.id)) fun
      | .ok (some row) => .done (row.status == e.status)
      | .ok none => .done false
      | .error _ => .done true := rfl

/-- **A check of the row** finds the status of the copy, or the row has left `INIT`. -/
theorem stillPending_keeps (hb : s.store.Backs e) :
    Keeps e (stillPending e) (fun k b t => t.store.Backs e ∧
      ((b = some true ∧ Checked e k) ∨ (b = some false ∧ t.HasLeft e.id))) h s := by
  rw [stillPending_eq]
  refine fun t ht => ⟨trivial, fun o => ?_⟩
  have hb := hb.mono ht.progress.leadsTo
  obtain ⟨-, row, hrow, -⟩ := id hb
  have hanswer : (terms e).answer o (.store (.execution e.id)) t = (.ok (some row), t) := by
    simp [terms, Site.answer, Store.answer, hrow]
  rw [hanswer]
  refine fun u hu => ⟨hb.mono hu.progress.leadsTo, ?_⟩
  by_cases hs : row.status = e.status
  · exact .inl ⟨by simp [hs], row, by simp, hs⟩
  · -- a row that differs from its copy has gone on from it, and never comes back
    refine .inr ⟨by simp [hs], ?_⟩
    exact (Site.hasLeft_of_ne hb hrow hs).progress hu.progress

/-! ## Changes of the row -/

theorem transition_fst {t : Site} {row : Execution} (hrow : t.store.execution? e.id = some row)
    (o : Outside) (expected : Status) (u : StatusUpdate) :
    ((terms e).answer o (.store (.transition e.id expected u)) t).1 =
      .ok (decide (row.status = expected)) :=
  Site.answer_transition hrow o expected u

/-- After a change of status from the status of the copy the row does not wait any more, whether the
change took place or not. -/
theorem transition_hasLeft {t : Site} (ht : t.Sound) (hb : t.store.Backs e) (o : Outside)
    {u : StatusUpdate} (hu : u.IsRegular) :
    ((terms e).answer o (.store (.transition e.id e.status u)) t).2.HasLeft e.id := by
  obtain ⟨-, row, hrow, -⟩ := id hb
  by_cases hs : row.status = e.status
  · -- the change takes place, and it does not lead to `INIT`
    refine ⟨_, Site.execution?_answer hrow, ?_⟩
    have hstatus : u.status ≠ .init := by
      rcases hu with ⟨hr, -⟩ | ⟨hf, -⟩
      · simp [hr]
      · intro hi
        simp [hi, Status.isFinished] at hf
    rwa [Request.rowAfter_transition (Store.execution?_id hrow) hs]
  · have hfits : (Request.store (.transition e.id e.status u)).Fits t := ⟨hb.1, hu⟩
    exact (Site.hasLeft_of_ne hb hrow hs).progress (Site.answer_progress ht hfits o)

theorem commit_eq (e : Execution) (a : Address) :
    commit e a = .ask (.store (.transition e.id e.status (.runningOn a.display))) fun
      | .ok true => .done (.dispatched a)
      | .ok false => .ask (.call (.cancel a e.id)) fun _ => .done .abandoned
      | .error _ => .done .abandoned :=
  congrArg (Interaction.ask _) <| funext fun
    | .ok true => rfl
    | .ok false => rfl
    | .error _ => rfl

/-- **A commit** records the executor, or the row has left the status of the copy. -/
theorem commit_keeps (hb : s.store.Backs e) (hc : Checked e h) (a : Address) :
    Keeps e (commit e a) (Done e) h s := by
  rw [commit_eq]
  refine fun t ht => ⟨⟨rfl, rfl, hc, .inr ⟨a, rfl⟩⟩, fun o => ?_⟩
  have hb := hb.mono ht.progress.leadsTo
  have hleft := transition_hasLeft ht.sound hb o (StatusUpdate.isRegular_runningOn a.display)
  obtain ⟨-, row, hrow, -⟩ := id hb
  rw [transition_fst hrow]
  by_cases hs : row.status = e.status
  · -- the change has taken place, and no other may change the worker before the end is seen
    simp only [hs, decide_true]
    intro u hu
    refine ⟨.inl (hleft.progress hu.progress), fun b hb => ?_⟩
    obtain rfl : a = b := by simpa using hb
    obtain ⟨f, hf, hfe, hw⟩ := hu.rows _ _ (Site.execution?_answer hrow)
    rw [Request.rowAfter_transition (Store.execution?_id hrow) hs] at hfe hw
    exact ⟨f, hf, hfe.status_ne_init (by simp [Store.applyUpdate, StatusUpdate.runningOn]), hw⟩
  · -- the row has gone on, and the executor is asked to drop what it was sent
    simp only [hs, decide_false]
    refine fun u hu => ⟨trivial, fun o' v hv => ?_⟩
    exact .of_hasLeft ((hleft.progress hu.progress).progress hv.progress) (by simp)

theorem markFailed_eq (e : Execution) :
    markFailed e = .ask (.store (.transition e.id e.status (.toStatus .failed))) fun
      | .ok true => .done .failed
      | .ok false => .done .abandoned
      | .error _ => .done .failed :=
  congrArg (Interaction.ask _) <| funext fun
    | .ok true => rfl
    | .ok false => rfl
    | .error _ => rfl

theorem markFailed_keeps (hb : s.store.Backs e) (hc : Checked e h) :
    Keeps e (markFailed e) (Done e) h s := by
  rw [markFailed_eq]
  refine fun t ht => ⟨⟨rfl, rfl, hc, .inl rfl⟩, fun o => ?_⟩
  have hb := hb.mono ht.progress.leadsTo
  have hleft := transition_hasLeft ht.sound hb o
    (StatusUpdate.isRegular_toStatus (s := .failed) rfl)
  obtain ⟨-, row, hrow, -⟩ := id hb
  rw [transition_fst hrow]
  by_cases hs : row.status = e.status <;> simp only [hs, decide_true, decide_false] <;>
    exact fun u hu => .of_hasLeft (hleft.progress hu.progress) (by simp)

/-! ## The loss of an executor -/

theorem pending_of_isOrphanOf {d : Execution} {executor : String} (hd : d.Lifecycle)
    (ho : d.isOrphanOf executor = true) : d.status.IsPending := by
  have hf : d.status.isFinished = false := by
    simp only [Execution.isOrphanOf, Bool.and_eq_true, Bool.not_eq_true'] at ho
    exact ho.1
  rcases hd.status_cases with hi | hr | hd
  · exact .inl hi
  · exact .inr hr
  · simp [hf] at hd

theorem resubmit_cons_of_ne {executor : String} {except id : Int} (hid : id ≠ except)
    (ids : List Int) :
    resubmit executor except (id :: ids) = .ask (.store (.execution id)) fun
      | .ok (some row) =>
        if row.isOrphanOf executor then
          .ask (.push row) fun queued : Bool =>
            if queued then (resubmit executor except ids).bind fun rest => .done (id :: rest)
            else resubmit executor except ids
        else resubmit executor except ids
      | .ok none => resubmit executor except ids
      | .error _ => resubmit executor except ids := by
  simp only [resubmit, hid, if_false]
  rfl

/-- **An invariant of looking at what a lost executor had reported**: it holds of the ids that are
left, of what has been exchanged, and of the state. It is kept when an id is skipped, since its copy
has been queued before; when the row is passed over that has been read, or could not be; and when the
row is an orphan, and queued. -/
structure Resubmits {ω : Type} (T : Terms Request.Answer Site ω) (executor : String) (except : Int)
    (P : List Int → History → Site → Prop) : Prop where
  skip : ∀ {ids h s}, P (except :: ids) h s → P ids h s
  may : ∀ {id ids h s t}, id ≠ except → P (id :: ids) h s → T.rely s t →
    T.may h (.store (.execution id)) t
  pass : ∀ {id ids h s t o u} {found : Except StoreError (Option Execution)}, id ≠ except →
    P (id :: ids) h s → T.rely s t → T.answer o (.store (.execution id)) t = (found, u) →
    (∀ row, found = .ok (some row) → row.isOrphanOf executor = false) →
    P ids (h ++ [⟨.store (.execution id), found⟩]) u
  push : ∀ {id ids h s t o u v} {row : Execution}, id ≠ except →
    P (id :: ids) h s → T.rely s t → T.answer o (.store (.execution id)) t = (.ok (some row), u) →
    row.isOrphanOf executor = true → T.rely u v →
    T.may (h ++ [⟨.store (.execution id), .ok (some row)⟩]) (.push row) v ∧
      ∀ {o w} {sent : Bool}, T.answer o (.push row) v = (sent, w) →
        P ids (h ++ [⟨.store (.execution id), .ok (some row)⟩] ++ [⟨.push row, sent⟩]) w

/-- **What a lost executor had reported is looked at** id by id, and an invariant of this is kept to
the end. -/
theorem Resubmits.keeps {ω : Type} {T : Terms Request.Answer Site ω} {executor : String}
    {except : Int} {P : List Int → History → Site → Prop} {Q : History → Site → Prop}
    (hT : Resubmits T executor except P) (hQ : ∀ {h s t}, P [] h s → T.rely s t → Q h t)
    {ids : List Int} (hP : P ids h s) :
    (resubmit executor except ids).Keeps T (fun k o t => o.isSome ∧ Q k t) h s := by
  -- on the ids that are left: one is skipped, passed over or queued, and the others follow
  induction ids generalizing h s with
  | nil => exact fun t ht => ⟨rfl, hQ hP ht⟩
  | cons id ids ih =>
    by_cases hid : id = except
    · subst hid
      rw [resubmit, if_pos rfl]
      exact ih (hT.skip hP)
    · rw [resubmit_cons_of_ne hid]
      refine fun t ht => ⟨hT.may hid hP ht, fun o => ?_⟩
      cases hread : T.answer o (.store (.execution id)) t with
      | mk found u =>
        rcases found with f | _ | row
        · exact ih (hT.pass hid hP ht hread (by rintro row ⟨⟩))
        · exact ih (hT.pass hid hP ht hread (by rintro row ⟨⟩))
        · simp only
          split
          · next horphan =>
            intro v hv
            obtain ⟨hmay, hpush⟩ := hT.push hid hP ht hread horphan hv
            refine ⟨hmay, fun o' => ?_⟩
            cases hsent : T.answer o' (.push row) v with
            | mk sent w =>
              have hkeeps := ih (hpush hsent)
              cases (sent : Bool) with
              | true => exact Interaction.Keeps.bind hkeeps (fun _ _ _ hw => hw) fun _ _ hw => hw
              | false => exact hkeeps
          · next horphan =>
            refine ih (hT.pass hid hP ht hread ?_)
            rintro row' ⟨⟩
            exact Bool.eq_false_iff.mpr horphan

/-- Meanwhile the eviction stays in the history, and the copy at hand stays queued. -/
theorem resubmits_queued (e : Execution) (a : Address) (entry : Executor) :
    Resubmits (terms e) a.display e.id fun ids h s =>
      s.Queued e.id ∧ ids ⊆ entry.execIds ∧ ⟨.evict a, some entry⟩ ∈ h where
  skip := fun ⟨hq, hids, hev⟩ => ⟨hq, List.subset_of_cons_subset hids, hev⟩
  may _ _ _ := trivial
  pass := by
    rintro id ids h s t o _ _ - ⟨hq, hids, hev⟩ ht ⟨⟩ -
    exact ⟨hq.calm ht, List.subset_of_cons_subset hids, List.mem_append_left _ hev⟩
  push := by
    rintro id ids h s t o u v row hne ⟨hq, hids, hev⟩ ht hread horphan hv
    obtain ⟨hrow, rfl⟩ := Prod.mk.inj hread
    replace hrow : t.store.execution? id = some row := Except.ok.inj hrow
    obtain rfl := Store.execution?_id hrow
    have hpending := pending_of_isOrphanOf
      (ht.sound.store.lifecycle row (Store.execution?_mem hrow)) horphan
    refine ⟨.inr ⟨hne, hpending, a, entry, List.mem_append_left _ hev, hids List.mem_cons_self,
      horphan, hv.rows row.id row hrow⟩, fun {o' w sent} hsent => ?_⟩
    obtain rfl : (v.answer o' (.push row)).2 = w := congrArg Prod.snd hsent
    have hfits : (Request.push row).Fits v :=
      Store.Backs.mono (.of_execution? hrow hpending) hv.progress.leadsTo
    refine ⟨((hq.calm ht).calm hv).calm (Site.answer_calm hv.sound hfits trivial o'),
      List.subset_of_cons_subset hids, ?_⟩
    exact List.mem_append_left _ (List.mem_append_left _ hev)

/-- **What a lost executor held is queued again** if its row still names the executor. -/
theorem resubmit_keeps {a : Address} {entry : Executor} (hq : s.Queued e.id) {ids : List Int}
    (hids : ids ⊆ entry.execIds) (hev : ⟨.evict a, some entry⟩ ∈ h) :
    Keeps e (resubmit a.display e.id ids) (fun _ o t => o.isSome ∧ t.Queued e.id) h s :=
  (resubmits_queued e a entry).keeps (fun ⟨hq, _⟩ ht => hq.calm ht) ⟨hq, hids, hev⟩

theorem failOver_eq (e : Execution) (a : Address) :
    failOver e a = .ask (.push e) fun _ => .ask (.evict a) fun evicted : Option Executor =>
      .ask (.forget a) fun _ =>
        match evicted with
        | some entry =>
          (resubmit entry.address.display e.id entry.execIds).bind fun ids =>
            .done (.executorLost a ids)
        | none => .done (.executorLost a []) :=
  congrArg (Interaction.ask _) <| funext fun _ => congrArg (Interaction.ask _) <| funext fun
    | some _ => rfl
    | none => rfl

/-- **An execution whose executor is lost is queued again.** -/
theorem failOver_keeps (hb : s.store.Backs e) (a : Address) :
    Keeps e (failOver e a) (Done e) h s := by
  rw [failOver_eq]
  -- the copy is queued first, so whatever happens to the executor it is not lost
  refine fun t ht => ⟨.inl rfl, fun o => ?_⟩
  have hb := hb.mono ht.progress.leadsTo
  have hq := Site.queued_answer ht.sound.hasConsumer o e
  refine fun u hu => ⟨trivial, fun o' => ?_⟩
  have hcalm := Site.answer_calm (r := .evict a) hu.sound trivial trivial o'
  refine fun v hv => ⟨trivial, fun _ => ?_⟩
  have hq : v.Queued e.id := ((hq.calm hu).calm hcalm).calm hv
  have hanswer : ((terms e).answer o' (.evict a) u).1 = u.registry.get? a := rfl
  rw [hanswer]
  cases hentry : u.registry.get? a with
  | none => exact fun w hw => .of_queued (hq.calm hw) (by simp)
  | some entry =>
    have haddress : entry.address = a := by simpa using List.find?_some hentry
    simp only [haddress]
    refine Interaction.Keeps.bind (resubmit_keeps hq (List.Subset.refl _) ?_) ?_ ?_
    · simp
    · exact fun ids k w hw => fun x hx => .of_queued (hw x hx).2 (by simp)
    · exact fun k w hw => by simp at hw

/-! ## The whole dispatch -/

theorem attempts_succ (e : Execution) (a : Address) (n : Nat) :
    attempts e a (n + 1) = .ask (.call (.submit a e.projectId e.id e.flowKind)) fun
      | .ok () => commit e a
      | .error (.transport _) => (stillPending e).bind fun b =>
        if b then failOver e a else .done .abandoned
      | .error (.rejected _) => attempts e a n :=
  congrArg (Interaction.ask _) <| funext fun
    | .ok () => rfl
    | .error (.transport _) => rfl
    | .error (.rejected _) => rfl

theorem attempts_keeps (hb : s.store.Backs e) (hc : Checked e h) (a : Address) (n : Nat) :
    Keeps e (attempts e a n) (Done e) h s := by
  induction n generalizing h s with
  | zero => exact markFailed_keeps hb hc
  | succ n ih =>
    rw [attempts_succ]
    refine fun t ht => ⟨⟨rfl, hc⟩, fun o => ?_⟩
    have hb := hb.mono ht.progress.leadsTo
    have hanswer : (terms e).answer o (.call (.submit a e.projectId e.id e.flowKind)) t =
        (o.reply, t) := rfl
    rw [hanswer]
    rcases o.reply with (reason | reason) | _
    · -- the executor cannot be reached: it is given up if the row still has the status
      refine Interaction.Keeps.bind (stillPending_keeps hb) ?_ fun k u hu => by simp at hu
      refine fun b k u hu => Interaction.Keeps.of_rely fun v hv => ?_
      obtain ⟨hb, ⟨hpending, -⟩ | ⟨hgone, hleft⟩⟩ := hu v hv
      · cases hpending
        exact failOver_keeps hb a
      · cases hgone
        exact fun w hw => .of_hasLeft (hleft.progress hw.progress) (by simp)
    · -- it refuses: the next attempt
      exact ih hb (hc.append _)
    · exact commit_keeps hb (hc.append _) a

/-- The dispatch of a copy whose row has been found in its status. -/
def choose (limits : DispatchLimits) (e : Execution) : Program DispatchOutcome :=
  .ask .pick fun picked : Option Executor =>
    match picked with
    | some executor => attempts e executor.address (max limits.retryCount 1)
    | none => .ask (.pause limits.backoffMillis) fun _ => .ask (.push e) fun _ => .done .stalled

theorem run_eq (limits : DispatchLimits) (e : Execution) :
    run limits e = (stillPending e).bind fun b => if b then choose limits e else .done .abandoned :=
  congrArg (Interaction.bind _) <| funext fun
    | true => congrArg (Interaction.ask _) <| funext fun
      | some _ => rfl
      | none => rfl
    | false => rfl

/-- A dispatch begins with a look at the row. -/
theorem run_eq_ask (limits : DispatchLimits) (e : Execution) :
    run limits e = .ask (.store (.execution e.id)) fun a =>
      Interaction.bind
        (match a with
          | .ok (some row) => .done (row.status == e.status)
          | .ok none => .done false
          | .error _ => .done true)
        fun b => if b then choose limits e else .done .abandoned := by
  rw [run_eq, stillPending_eq]
  rfl

/-- **The dispatch of a copy that the store backs keeps to its terms.** -/
theorem run_keeps (limits : DispatchLimits) (hb : s.store.Backs e) :
    Keeps e (run limits e) (Done e) h s := by
  rw [run_eq]
  refine Interaction.Keeps.bind (stillPending_keeps hb) ?_ fun k u hu => by simp at hu
  refine fun b k u hu => Interaction.Keeps.of_rely fun v hv => ?_
  obtain ⟨hb, ⟨hpending, hc⟩ | ⟨hgone, hleft⟩⟩ := hu v hv
  · cases hpending
    refine fun t ht => ⟨trivial, fun o => ?_⟩
    have hb : ((terms e).answer o .pick t).2.store.Backs e := hb.mono ht.progress.leadsTo
    cases ((terms e).answer o .pick t).1 with
    | none =>
      -- there is no executor: after a pause the copy is queued again
      refine fun u _ => ⟨trivial, fun _ => fun w hw => ⟨.inl rfl, fun o' => ?_⟩⟩
      have hq := Site.queued_answer hw.sound.hasConsumer o' e
      exact fun x hx => .of_queued (hq.calm hx) (by simp)
    | some executor => exact attempts_keeps hb (hc.append _) executor.address _
  · cases hgone
    exact fun w hw => .of_hasLeft (hleft.progress hw.progress) (by simp)

end Dispatch

end WorkflowScheduler
