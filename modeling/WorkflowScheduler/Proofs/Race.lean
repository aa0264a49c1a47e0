import WorkflowScheduler.Proofs.Cancel
import WorkflowScheduler.Proofs.Cancelling

/-!
# Cancels that race a dispatch

While an execution waits, any number of cancels may be under way, and copies of it may be dispatched.
All of them compete for its row, and the first one wins. If it is a cancel, a dispatch that has
already handed the execution to an executor takes it back. If it is the dispatch, the cancels follow
the execution to its executor.

## Main definitions

* `Event.Takes`: a step by which a dispatch wins the row
* `System.StaysKilled`: what holds of the row and of its dispatches if a cancel wins
* `System.CancelsFollow`: what holds of the cancels if a dispatch wins
* `System.CancelsEnd`: what holds of the cancels in any case
* `System.Racing`: what every step of the race preserves

## Main results

* `System.Step.racing`: a step of the race preserves it
* `System.Valid.staysKilled`, `System.cancelsFollow`: both ways in which the race ends
* `System.cancel_races_dispatch`: every race for a row
-/

namespace WorkflowScheduler

/-- A step by which a dispatch has changed a row that waited. -/
def Event.Takes (id : Int) (ev : Event) : Prop :=
  ∃ c u, ev = .dispatchAsked c ⟨.store (.transition id .init u), .ok true⟩

theorem Event.Takes.wins {id : Int} {ev : Event} (h : ev.Takes id) : ev.wins id = true := by
  obtain ⟨c, u, rfl⟩ := h
  exact wins_iff.mpr ⟨u, rfl⟩

theorem Event.Kills.wins {id : Int} {ev : Event} (h : ev.Kills id) : ev.wins id = true :=
  wins_iff.mpr ⟨_, h⟩

namespace System

/-- **A row that a cancel has won**: once it has been killed it is never written again, no dispatch
of it ends as dispatched or failed, and every executor that has accepted it is told by the same
dispatch to drop it. -/
structure StaysKilled (limits : DispatchLimits) (s : System) (id : Int) (later : List Move) :
    Prop where
  row : ∀ pre post, later = pre ++ post → (∃ ev ∈ trace limits pre s, ev.Kills id) →
    (∃ e, (after limits pre s).site.store.execution? id = some e ∧ e.status = .kill ∧
      (after limits later s).site.store.execution? id = some e) ∧
      ∀ ev ∈ trace limits post (after limits pre s), ev.writes id = false
  outcome : ∀ c o, .dispatchEnded c (some o) ∈ trace limits later s → c.id = id →
    (∀ a, o ≠ .dispatched a) ∧ o ≠ .failed
  dropped : ∀ pre post, later = pre ++ post → ∀ d o, (after limits pre s).dispatch = some d →
    d.copy.id = id → d.rest = .done o → ∀ a, Accepted a id d.asked → Dropped a id d.asked

/-- **The cancels of a row that a dispatch has won**: when one has nothing more to ask, it has found
the row finished, or it has been passed on to the worker of the row. -/
def CancelsFollow (limits : DispatchLimits) (s : System) (id : Int) (later : List Move) : Prop :=
  ∀ pre post, later = pre ++ post → ∀ k ∈ (after limits pre s).threads, k.job = .cancel id →
    ∀ r, k.rest = .done r →
      r = .error (.alreadyFinished id) ∨
        ∃ a reply e, ⟨.call (.cancel a id), reply⟩ ∈ k.asked ∧ r = reply.mapError .call ∧
          (after limits pre s).site.store.execution? id = some e ∧ e.worker = some a.display

/-- **The cancels of a row end**: one that has made four requests has nothing more to ask, and none
gives up because the row keeps changing. -/
structure CancelsEnd (limits : DispatchLimits) (s : System) (id : Int) (later : List Move) :
    Prop where
  done : ∀ pre post, later = pre ++ post → ∀ k ∈ (after limits pre s).threads,
    k.job = .cancel id → 4 ≤ k.asked.length → ∃ r, k.rest = .done r
  outcome : .ended (.cancel id) (some (.error (.internal
    ("execution " ++ toString id ++ " kept changing status during cancel")))) ∉ trace limits later s

/-- **A race for a row**: the system is valid and named, and every cancel of the row keeps to its
terms. -/
structure Racing (s : System) (id : Int) (alone : Prop) : Prop where
  valid : s.Valid
  named : s.Named
  row : ∃ e, s.site.store.execution? id = some e
  cancels : ∀ k ∈ s.threads, k.job = .cancel id → Master.Ends id alone k.rest k.asked s.site

variable {limits : DispatchLimits} {s t : System} {ev : Event} {id : Int} {alone : Prop}
  {e : Execution} {later : List Move}

/-! ## What the steps of a race preserve -/

/-- **A step leaves the row to the race**: only a row that waits gets a worker, unless others write
it. -/
theorem Step.races (h : Step limits s ev t) (hs : s.Racing id alone)
    (hw : alone → ev.writes id = true → ev.wins id = true) : s.site.Races id alone t.site where
  progress := (h.valid hs.valid).2
  named := (h.named hs.valid hs.named).site
  worker ha e he hworker := by
    by_cases hwrites : ev.writes id = true
    · -- the row has been waiting, and a row that waits has no worker
      obtain ⟨⟨f, hf, hi⟩, -⟩ := h.hasLeft_of_wins hs.valid (hw ha hwrites)
      obtain rfl : e = f := Option.some.inj (he.symm.trans hf)
      have hcycle := hs.valid.site.store.lifecycle e (Store.execution?_mem he)
      simp [(hcycle.of_init hi).1] at hworker
    · exact ⟨e, h.row_of_not_writes he hwrites, rfl⟩

/-- **A step of a race preserves it.** -/
theorem Step.racing (h : Step limits s ev t) (hs : s.Racing id alone)
    (hw : alone → ev.writes id = true → ev.wins id = true) : t.Racing id alone := by
  have hraces := h.races hs hw
  have hcancels : ∀ k ∈ s.threads, k.job = .cancel id →
      Master.Ends id alone k.rest k.asked t.site :=
    fun k hk hj => (hs.cancels k hk hj).rely hraces
  refine ⟨(h.valid hs.valid).1, h.named hs.valid hs.named, ?_, ?_⟩
  · obtain ⟨e, he⟩ := hs.row
    obtain ⟨f, hf, -⟩ := hraces.progress.leadsTo id e he
    exact ⟨f, hf⟩
  · cases h with
    | begin job hr =>
      intro k hk hj
      rcases List.mem_append.mp hk with hk | hk
      · exact hcancels k hk hj
      · -- a cancel that begins now finds the row there
        obtain rfl := List.mem_singleton.mp hk
        obtain rfl : job = .cancel id := hj
        exact Master.cancel_ends hs.row
    | ask o hk hx =>
      intro l hl hj
      rcases List.mem_or_eq_of_mem_set hl with hl | rfl
      · exact hcancels l hl hj
      · -- the cancel whose turn it is makes a request on its terms
        have hkept := hs.cancels _ (List.mem_of_getElem? hk) hj
        exact (Interaction.Keeps.advance (T := Master.cancelling id alone) (o := o) hkept
          (.refl hs.valid.site hs.named.site) hx).2
    | finishJob o hk hr => exact fun k hk => hcancels k (List.mem_of_mem_eraseIdx hk)
    | restart => exact fun k hk => by simp [restarted] at hk
    | _ => exact hcancels

/-- A run of a race preserves it. -/
theorem Racing.run (hs : s.Racing id alone) (ms : List Move)
    (hw : ∀ ev ∈ trace limits ms s, alone → ev.writes id = true → ev.wins id = true) :
    (after limits ms s).Racing id alone :=
  (run_induction limits (R := fun _ => True)
    (fun hs h hw => ⟨h.racing hs hw, trivial⟩) ms hs hw).1

/-- A race begins when every cancel of the row is at its beginning. -/
theorem racing_of_fresh (hv : s.Valid) (hn : s.Named) (he : s.site.store.execution? id = some e)
    (hfresh : ∀ k ∈ s.threads, k.job = .cancel id → k = .start k.job) : s.Racing id alone where
  valid := hv
  named := hn
  row := ⟨e, he⟩
  cancels k hk hj := by
    rw [hfresh k hk hj, hj]
    exact Master.cancel_ends ⟨e, he⟩

/-! ## If a cancel wins -/

/-- Before a row is won, it waits. -/
theorem Valid.waits_before (hv : s.Valid) (he : s.site.store.execution? id = some e)
    {ms : List Move} (hw : ∃ ev ∈ trace limits ms s, ev.wins id = true) : e.status = .init := by
  obtain ⟨ev, hev, hw⟩ := hw
  refine Decidable.byContradiction fun hi => ?_
  exact hv.not_wins ⟨e, he, hi⟩ limits ms ev hev hw

/-- **In a run in which a cancel wins the row waits or is killed**, and it has no worker. -/
theorem Valid.waits_or_killed (hv : s.Valid) (hrow : ∃ e, s.site.store.execution? id = some e)
    {pre post : List Move} (hk : ∃ ev ∈ trace limits (pre ++ post) s, ev.Kills id) :
    ∃ e, (after limits pre s).site.store.execution? id = some e ∧ e.worker = none ∧
      (e.status = .init ∨ e.status = .kill) := by
  have hvpre := hv.run limits pre
  obtain ⟨ev, hev, hk⟩ := hk
  rw [trace_append] at hev
  rcases List.mem_append.mp hev with hev | hev
  · obtain ⟨e, he, hkill, hw⟩ := hv.row_of_kills ⟨ev, hev, hk⟩
    exact ⟨e, he, hw, .inr hkill⟩
  · -- the kill is still to come, and what it will find waiting waits now
    obtain ⟨d, hd⟩ := hrow
    obtain ⟨e, he, -⟩ := hv.row_after limits pre hd
    have hi := hvpre.waits_before he ⟨ev, hev, hk.wins⟩
    have hcycle := hvpre.site.store.lifecycle e (Store.execution?_mem he)
    exact ⟨e, he, (hcycle.of_init hi).1, .inl hi⟩

/-- A dispatch that ends while the row is not on a worker has taken back what was accepted. -/
theorem outcome_of_unassigned {d : Dispatching} {o : DispatchOutcome} {s : Site}
    (hdone : Dispatch.Done d.copy d.asked (some o) s)
    (hclosed : Dispatch.Closed d.copy d.asked (some o) s)
    (he : s.store.execution? d.copy.id = some e) (hw : e.worker = none)
    (hs : e.status = .init ∨ e.status = .kill) :
    (∀ a, o ≠ .dispatched a) ∧ o ≠ .failed ∧
      ∀ a, Accepted a d.copy.id d.asked → Dropped a d.copy.id d.asked := by
  have hdispatched : ∀ a, o ≠ .dispatched a := by
    -- the row would name the executor
    rintro a rfl
    obtain ⟨f, hf, -, hworker⟩ := hdone.2 a rfl
    rw [he] at hf
    rw [← Option.some.inj hf, hw] at hworker
    cases hworker
  refine ⟨hdispatched, ?_, fun a ha => ?_⟩
  · rintro rfl
    obtain ⟨f, hf, hfailed⟩ := hclosed.failed rfl
    rw [he] at hf
    rw [← Option.some.inj hf] at hfailed
    rcases hs with hi | hk
    · rw [hi] at hfailed
      cases hfailed
    · rw [hk] at hfailed
      cases hfailed
  · refine (hclosed.dropped a ha).resolve_left fun ho => ?_
    exact hdispatched a (Option.some.inj ho)

/-- **If a cancel wins, the row stays killed**, and no dispatch keeps the execution. -/
theorem Valid.staysKilled (hv : s.Valid) (hn : ∀ ms, (after limits ms s).Named)
    (hrow : ∃ e, s.site.store.execution? id = some e)
    (hk : ∃ ev ∈ trace limits later s, ev.Kills id) : StaysKilled limits s id later where
  row pre post hsplit hkilled := by
    obtain ⟨e, he, hkill, -⟩ := hv.row_of_kills hkilled
    have hwrites := (hv.run limits pre).not_writes he (by simp [hkill, Status.isFinished])
      limits post
    refine ⟨⟨e, he, hkill, ?_⟩, fun ev hev => by simpa using hwrites ev hev⟩
    rw [hsplit, after_append]
    exact row_after_of_not_writes post he hwrites
  outcome c o hev hid := by
    obtain ⟨ks, m, ls, t, rfl, hm, -⟩ := exists_move_of_mem hev
    obtain ⟨d, hd, rfl, o', hr⟩ := (step_cases hm).of_dispatchEnded
    obtain ⟨e, he, hw, hs⟩ := hv.waits_or_killed hrow hk
    have hvk := hv.run limits ks
    have hout := outcome_of_unassigned ((hvk.dispatch d hd).finish hvk.site hr)
      (((hn ks).dispatch d hd).finish hvk.site hr) (hid ▸ he) hw hs
    exact ⟨hout.1, hout.2.1⟩
  dropped pre post hsplit d o hd hid hrest a ha := by
    -- a dispatch with nothing more to ask ends at its next turn, so what holds at its end holds now
    obtain ⟨e, he, hw, hs⟩ := hv.waits_or_killed hrow (hsplit ▸ hk)
    have hvp := hv.run limits pre
    have hr : d.rest.advance (Site.answer .answering) (after limits pre s).site = .inr (some o) := by
      rw [hrest]
      rfl
    have hout := outcome_of_unassigned ((hvp.dispatch d hd).finish hvp.site hr)
      (((hn pre).dispatch d hd).finish hvp.site hr) (hid ▸ he) hw hs
    rw [hid] at hout
    exact hout.2.2 a ha

/-! ## If a dispatch wins -/

/-- A row that a dispatch has won runs or has failed. -/
theorem Step.status_of_takes (h : Step limits s ev t) (hv : s.Valid) (ht : ev.Takes id) :
    ∃ e, t.site.store.execution? id = some e ∧ e.status ≠ .init ∧ e.status ≠ .kill := by
  obtain ⟨c, u, rfl⟩ := ht
  obtain ⟨e, now, he, hi, hrow⟩ := h.row_of_transition rfl
  refine ⟨_, hrow, ?_⟩
  cases h with
  | dispatch o hd hx =>
    obtain ⟨hmay, -, -⟩ := (hv.dispatch _ hd).advance hv.site hx
    rcases hmay.2.2.2 with rfl | ⟨a, rfl⟩
    · exact ⟨Status.noConfusion, Status.noConfusion⟩
    · exact ⟨Status.noConfusion, Status.noConfusion⟩

/-- **In a run in which a dispatch wins and nobody else writes the row it is never killed.** -/
theorem Valid.not_killed (hv : s.Valid) {pre post : List Move}
    (ht : ∃ ev ∈ trace limits (pre ++ post) s, ev.Takes id)
    (hw : ∀ ev ∈ trace limits (pre ++ post) s, ev.writes id = true → ev.wins id = true)
    (he : (after limits pre s).site.store.execution? id = some e) : e.status ≠ .kill := by
  obtain ⟨ev, hev, ht⟩ := ht
  simp only [trace_append, List.mem_append] at hev hw
  rcases hev with hev | hev
  · -- after the dispatch has won, nobody writes the row
    obtain ⟨ks, m, ls, t, rfl, hm, hls⟩ := exists_move_of_mem hev
    have hstep := step_cases hm
    have hvk := hv.run limits ks
    obtain ⟨f, hf, hi, hk⟩ := hstep.status_of_takes hvk ht
    have hquiet : ∀ ev' ∈ trace limits ls t, ¬ ev'.writes id = true := by
      intro ev' hev' hwrites
      refine (hstep.valid hvk).1.not_wins ⟨f, hf, hi⟩ limits ls ev' hev' (hw ev' (.inl ?_) hwrites)
      rw [trace_append, List.mem_append]
      right
      simp [trace, hm, hev']
    have hsame := row_after_of_not_writes ls hf hquiet
    rw [hls, he] at hsame
    rw [Option.some.inj hsame]
    exact hk
  · intro hk
    have hi := (hv.run limits pre).waits_before he ⟨ev, hev, ht.wins⟩
    rw [hi] at hk
    cases hk

/-- **If a dispatch wins and nobody else writes the row, the cancels follow the execution.** -/
theorem cancelsFollow (hs : s.Racing id True) (ht : ∃ ev ∈ trace limits later s, ev.Takes id)
    (hw : ∀ ev ∈ trace limits later s, ev.writes id = true → ev.wins id = true) :
    CancelsFollow limits s id later := by
  rintro pre post rfl k hk hj r hrest
  have hpre : ∀ ev ∈ trace limits pre s, True → ev.writes id = true → ev.wins id = true := by
    intro ev hev _
    exact hw ev (by rw [trace_append]; exact List.mem_append_left _ hev)
  have hrace := hs.run pre hpre
  have hends := hrace.cancels k hk hj
  rw [hrest] at hends
  obtain ⟨x, hx, hends⟩ := hends _ (.refl hrace.valid.site hrace.named.site)
  obtain rfl := Option.some.inj hx
  cases hends with
  | killed hf hkill =>
    -- the row is the dispatch's, or it will be
    exact absurd hkill (hs.valid.not_killed ht hw hf)
  | finished hf hfin => exact .inl rfl
  | @passedOn a reply hcall hworker =>
    obtain ⟨e, he, hew⟩ := hworker trivial
    exact .inr ⟨a, reply, e, hcall, rfl, he, hew⟩

/-- **The cancels of a row end**, whoever else writes it. -/
theorem Racing.cancelsEnd (hs : s.Racing id False) : CancelsEnd limits s id later := by
  -- nothing is assumed about who writes the row
  have hrace : ∀ ks, (after limits ks s).Racing id False := fun ks =>
    hs.run ks fun _ _ hfalse => hfalse.elim
  constructor
  · intro pre post _ k hk hj hfour
    have hkept := (hrace pre).cancels k hk hj
    exact Master.done_of_ends hkept (hrace pre).valid.site (hrace pre).named.site hfour
  · intro hev
    obtain ⟨ks, m, t, ls, hm, -⟩ := exists_step_of_mem hev
    obtain ⟨k, hk, hj, o, hr⟩ := (step_cases hm).of_ended
    have hsite := hrace ks
    obtain ⟨x, hx, hends⟩ := Interaction.Keeps.finish (T := Master.cancelling id False) (o := o)
      (hsite.cancels k hk hj) (.refl hsite.valid.site hsite.named.site) hr
    exact hends.ne_internal _ (Option.some.inj hx).symm

/-! ## The race -/

/-- **Every race for a row**, from a moment on at which no cancel has looked at it. Whatever cancels
begin and whatever copies are dispatched, and whatever executors answer: at most one of those that
compete for the row as one that waits wins; if it is a cancel, the row stays killed and no dispatch
keeps the execution; if it is a dispatch and nobody else writes the row, the cancels follow the
execution; and in any case the cancels end. -/
theorem cancel_races_dispatch (limits : DispatchLimits) (store : Store) (ms later : List Move)
    {id : Int} {e : Execution}
    (hrow : (after limits ms (start store)).site.store.execution? id = some e)
    (hfresh : ∀ k ∈ (after limits ms (start store)).threads, k.job = .cancel id → k = .start k.job) :
    let s := after limits ms (start store)
    (trace limits later s).countP (Event.wins id) ≤ 1 ∧
      ((∃ ev ∈ trace limits later s, ev.Kills id) → StaysKilled limits s id later) ∧
      ((∃ ev ∈ trace limits later s, ev.Takes id) →
        (∀ ev ∈ trace limits later s, ev.writes id = true → ev.wins id = true) →
          CancelsFollow limits s id later) ∧
      CancelsEnd limits s id later := by
  have hv := valid_after limits store ms
  have hn := named_after limits store ms
  refine ⟨hv.countP_wins_le_one later, fun hk => ?_, fun ht hw => ?_, ?_⟩
  · refine hv.staysKilled (fun later => ?_) ⟨e, hrow⟩ hk
    rw [← after_append]
    exact named_after limits store _
  · exact cancelsFollow (racing_of_fresh hv hn hrow hfresh) ht hw
  · exact (racing_of_fresh hv hn hrow hfresh).cancelsEnd

/-- There is an executor, and an execution waits for its dispatch. -/
def oneWaits : List Move :=
  Move.alone (.registerExecutor "a" 9000 ⟨0, 0⟩) ++
  Move.alone (.execFlow 10 1 ⟨0, 0⟩ Settings.none)

/-- The executor has accepted the execution when a cancel kills the row. -/
def killedBetween : List Move :=
  .take :: List.replicate 3 (.dispatch .answering) ++ Move.alone (.cancel 1) ++
  List.replicate 3 (.dispatch .answering)

/-- A cancel has read the row when the execution is dispatched. -/
def takenBetween : List Move :=
  [.begin (.cancel 1), .work 0 .answering] ++ Move.dispatchAlone .answering ++
  List.replicate 3 (.work 0 .answering)

set_option maxRecDepth 100000 in
/-- Both ways in which the race may end are taken. -/
theorem cancel_races_dispatch_between :
    let s := after ⟨1, 0⟩ oneWaits (start .oneFlow)
    (s.site.store.execution? 1).map (·.status) = some .init ∧
      (∃ ev ∈ trace ⟨1, 0⟩ killedBetween s, ev.Kills 1) ∧ StaysKilled ⟨1, 0⟩ s 1 killedBetween ∧
      (∃ ev ∈ trace ⟨1, 0⟩ takenBetween s, ev.Takes 1) ∧ CancelsFollow ⟨1, 0⟩ s 1 takenBetween := by
  have hfresh : ∀ k ∈ (after ⟨1, 0⟩ oneWaits (start .oneFlow)).threads, k.job = .cancel 1 →
      k = .start k.job := by
    have hidle : (after ⟨1, 0⟩ oneWaits (start .oneFlow)).threads = [] := rfl
    simp [hidle]
  have hkills : ∃ ev ∈ trace ⟨1, 0⟩ killedBetween (after ⟨1, 0⟩ oneWaits (start .oneFlow)),
      ev.Kills 1 := ⟨_, List.mem_of_getElem? (i := 6) rfl, rfl⟩
  have htakes : ∃ ev ∈ trace ⟨1, 0⟩ takenBetween (after ⟨1, 0⟩ oneWaits (start .oneFlow)),
      ev.Takes 1 := ⟨_, List.mem_of_getElem? (i := 6) rfl, _, _, rfl⟩
  have halone : (trace ⟨1, 0⟩ takenBetween (after ⟨1, 0⟩ oneWaits (start .oneFlow))).all
      (fun ev => !ev.writes 1 || ev.wins 1) = true := rfl
  obtain ⟨-, hkilled, -, -⟩ :=
    cancel_races_dispatch ⟨1, 0⟩ .oneFlow oneWaits killedBetween rfl hfresh
  obtain ⟨-, -, htaken, -⟩ :=
    cancel_races_dispatch ⟨1, 0⟩ .oneFlow oneWaits takenBetween rfl hfresh
  refine ⟨rfl, hkills, hkilled hkills, htakes, htaken htakes fun ev hev hw => ?_⟩
  have := List.all_eq_true.mp halone ev hev
  simpa [hw] using this

end System

end WorkflowScheduler
