import WorkflowScheduler.Proofs.Settled

/-!
# Who writes a row

Cancels, dispatches and executors compete for a row. What they ask for is done only if the row has the
status that they expect, so among those that expect `INIT` one is the first, and for the others it is
too late.

## Main definitions

* `Event.wins`: a step that changes a row that waited
* `Event.writes`: a step that changes a row at all

## Main results

* `System.Step.row_of_not_writes`: a row stays as it is unless it is written
* `System.Valid.not_writes`: a finished row is not written
* `System.Valid.countP_wins_le_one`: of those that compete for a waiting row at most one wins
-/

namespace WorkflowScheduler

/-- Whether a step has changed the status of a row that waited. -/
def Event.wins (id : Int) (ev : Event) : Bool :=
  match ev.exchange? with
  | some ⟨.store (.transition j .init _), .ok true⟩ => j = id
  | _ => false

/-- Whether a step has written a row: its status was changed, or an executor has recorded its end. -/
def Event.writes (id : Int) : Event → Bool
  | .finished j _ => j = id
  | ev =>
    match ev.exchange? with
    | some ⟨.store (.transition j _ _), .ok true⟩ => j = id
    | _ => false

theorem Event.wins_iff {id : Int} {ev : Event} : ev.wins id = true ↔
    ∃ u, ev.exchange? = some ⟨.store (.transition id .init u), .ok true⟩ := by
  constructor
  · unfold wins
    split
    · next j u heq =>
      intro hj
      obtain rfl : j = id := of_decide_eq_true hj
      exact ⟨u, heq⟩
    · intro h
      cases h
  · rintro ⟨u, hu⟩
    simp [wins, hu]

theorem Event.writes_iff {id : Int} {ev : Event} : ev.writes id = true ↔
    (∃ expected u, ev.exchange? = some ⟨.store (.transition id expected u), .ok true⟩) ∨
      ∃ status, ev = .finished id status := by
  constructor
  · unfold writes
    split
    · next j status =>
      intro hj
      obtain rfl : j = id := of_decide_eq_true hj
      exact .inr ⟨status, rfl⟩
    · split
      · next j expected u heq =>
        intro hj
        obtain rfl : j = id := of_decide_eq_true hj
        exact .inl ⟨expected, u, heq⟩
      · intro h
        cases h
  · rintro (⟨expected, u, hx⟩ | ⟨status, rfl⟩)
    · -- the end that an executor records is no request
      cases ev with
      | finished j status => cases hx
      | _ => simp [writes, hx]
    · simp [writes]

namespace System

variable {limits : DispatchLimits} {s t : System} {ev : Event} {id : Int} {e : Execution}

/-- What can be seen to be asked leads rows on. -/
theorem Step.fits (h : Step limits s ev t) (hv : s.Valid) {x : Exchange Request.Answer}
    (hx : ev.exchange? = some x) : x.1.Fits s.site := by
  cases h with
  | ask o hk ha =>
    cases hx
    exact ((hv.threads _ (List.mem_of_getElem? hk)).advance hv.site ha).2.1.fits
  | dispatch o hd ha =>
    cases hx
    exact ((hv.dispatch _ hd).advance hv.site ha).1.fits (hv.dispatch _ hd).backs
  | recover o hk ha =>
    cases hx
    exact ((hv.recovery _ hk).1.advance hv.site ha).2.1.fits
  | _ => cases hx

/-- **What a change of status that has taken place makes of the row.** -/
theorem Step.row_of_transition (h : Step limits s ev t) {expected : Status} {u : StatusUpdate}
    (hx : ev.exchange? = some ⟨.store (.transition id expected u), .ok true⟩) :
    ∃ e now, s.site.store.execution? id = some e ∧ e.status = expected ∧
      t.site.store.execution? id = some (Store.applyUpdate now u e) := by
  obtain ⟨o, ha⟩ := h.answered hx
  obtain ⟨e, he, hs⟩ := Store.transition_eq_true (congrArg Prod.fst ha)
  have hrow := Site.execution?_answer (o := o) (r := .store (.transition id expected u)) he
  rw [congrArg Prod.snd ha, Request.rowAfter_transition (Store.execution?_id he) hs] at hrow
  exact ⟨e, o.now, he, hs, hrow⟩

/-- **A row stays as it is unless it is written.** -/
theorem Step.row_of_not_writes (h : Step limits s ev t) (he : s.site.store.execution? id = some e)
    (hw : ¬ ev.writes id = true) : t.site.store.execution? id = some e := by
  cases hx : ev.exchange? with
  | some x =>
    obtain ⟨o, ha⟩ := h.answered hx
    refine execution?_of_answer ha he fun expected u hu hs => ?_
    -- the row has the expected status, so the change would take place
    refine hw (Event.writes_iff.mpr (.inl ⟨expected, u, ?_⟩))
    obtain ⟨r, y⟩ := x
    cases hu
    have hanswer := Site.answer_transition he o expected u
    rw [decide_eq_true hs] at hanswer
    obtain rfl : y = .ok true := (congrArg Prod.fst ha).symm.trans hanswer
    exact hx
  | none =>
    cases h with
    | finish now hj hr hst =>
      have hrow := Store.execution?_setStatus now hj hst id
      rw [he, Option.map_some, if_neg] at hrow
      · exact hrow
      · rintro rfl
        exact hw (Event.writes_iff.mpr (.inr ⟨_, rfl⟩))
    | ask o hk ha => cases hx
    | dispatch o hd ha => cases hx
    | recover o hk ha => cases hx
    | _ => exact he

/-- A row that is written was not finished. -/
theorem Step.pending_of_writes (h : Step limits s ev t) (hv : s.Valid) (hw : ev.writes id = true) :
    ∃ e, s.site.store.execution? id = some e ∧ e.status.IsPending := by
  rcases Event.writes_iff.mp hw with ⟨expected, u, hx⟩ | ⟨status, rfl⟩
  · obtain ⟨e, now, he, hs, -⟩ := h.row_of_transition hx
    have hfits := h.fits hv hx
    exact ⟨e, he, hs ▸ hfits.1⟩
  · cases h with
    | finish now he hr hst => exact ⟨_, he, .inr hr⟩

/-- **A row that has been won was waiting, and it does not wait any more.** -/
theorem Step.hasLeft_of_wins (h : Step limits s ev t) (hv : s.Valid) (hw : ev.wins id = true) :
    (∃ e, s.site.store.execution? id = some e ∧ e.status = .init) ∧ t.site.HasLeft id := by
  obtain ⟨u, hx⟩ := Event.wins_iff.mp hw
  obtain ⟨e, now, he, hs, hrow⟩ := h.row_of_transition hx
  refine ⟨⟨e, he, hs⟩, _, hrow, ?_⟩
  rcases (h.fits hv hx).2 with ⟨hr, -⟩ | ⟨hfin, -⟩
  · simp [Store.applyUpdate, hr]
  · intro hi
    rw [show u.status = .init from hi] at hfin
    cases hfin

/-! ## Along a run -/

/-- A row that nobody writes is the same at the end of a run. -/
theorem row_after_of_not_writes (ms : List Move) (he : s.site.store.execution? id = some e)
    (hw : ∀ ev ∈ trace limits ms s, ¬ ev.writes id = true) :
    (after limits ms s).site.store.execution? id = some e :=
  (run_induction limits (P := fun t => t.site.store.execution? id = some e) (R := fun _ => True)
    (fun hs h hw => ⟨h.row_of_not_writes hs hw, trivial⟩) ms he hw).1

/-- **A finished row is not written.** -/
theorem Valid.not_writes (hv : s.Valid) (he : s.site.store.execution? id = some e)
    (hfin : e.status.isFinished = true) (limits : DispatchLimits) (ms : List Move) :
    ∀ ev ∈ trace limits ms s, ¬ ev.writes id = true := by
  intro ev hev hw
  obtain ⟨ks, m, t, -, hm, -⟩ := exists_step_of_mem hev
  obtain ⟨f, hf, hp⟩ := (step_cases hm).pending_of_writes (hv.run limits ks) hw
  obtain ⟨g, hg, heg⟩ := hv.row_after limits ks he
  rw [heg.eq_of_finished hfin, hf] at hg
  obtain rfl := Option.some.inj hg
  simp [hp.isFinished] at hfin

/-- **A row that does not wait is not won.** -/
theorem Valid.not_wins (hv : s.Valid) (hl : s.site.HasLeft id) (limits : DispatchLimits)
    (ms : List Move) : ∀ ev ∈ trace limits ms s, ¬ ev.wins id = true := by
  intro ev hev hw
  obtain ⟨ks, m, t, -, hm, -⟩ := exists_step_of_mem hev
  obtain ⟨⟨f, hf, hi⟩, -⟩ := (step_cases hm).hasLeft_of_wins (hv.run limits ks) hw
  obtain ⟨g, hg, hne⟩ := hl.progress (hv.progress_after ks)
  rw [hf] at hg
  exact hne (Option.some.inj hg ▸ hi)

/-- **Of those that compete for a waiting row at most one wins**, in every run. -/
theorem Valid.countP_wins_le_one (hv : s.Valid) (ms : List Move) :
    (trace limits ms s).countP (Event.wins id) ≤ 1 := by
  -- it has not left `INIT` yet, and whoever wins it makes it leave for good
  refine (countP_le_one limits (P := System.Valid) (O := fun u => ¬ u.site.HasLeft id)
    (A := fun _ => True) (fun hs h _ => ?_) ms hv fun _ _ => trivial).1
  obtain ⟨ht, hprogress⟩ := h.valid hs
  refine ⟨ht, fun hleft hl => hleft (hl.progress hprogress), fun hw => ?_⟩
  obtain ⟨⟨e, he, hi⟩, hleft⟩ := h.hasLeft_of_wins hs hw
  refine ⟨?_, fun hopen => hopen hleft⟩
  rintro ⟨f, hf, hne⟩
  rw [he] at hf
  exact hne (Option.some.inj hf ▸ hi)

end System

end WorkflowScheduler
