import WorkflowScheduler.Proofs.Workers

/-!
# How a cancel ends

A cancel reads the row, and then it either passes the cancel on to the worker or tries to kill the
row as one that waits. Others may change the row between the two. But a row leaves `INIT` once only,
and one that has left it is finished or has a worker: so the second look at the row is the last one,
and a cancel never runs out of attempts. At most it looks, tries to kill the row, looks again and
passes the cancel on.

## Main definitions

* `Site.Races`: what others may do to a row while it is being cancelled
* `Master.cancelling`: the terms of a cancel
* `CancelEnds`: the ways in which a cancel ends

## Main results

* `Master.cancel_ends`: a cancel ends in one of these ways
* `Master.done_of_ends`: it has ended when it has made four requests
-/

namespace WorkflowScheduler

/-- **What others may do to a row while it is being cancelled**: the site goes on and stays named,
and if the row is left alone it keeps the worker that it has. -/
structure Site.Races (id : Int) (alone : Prop) (s t : Site) : Prop where
  progress : s.Progress t
  named : t.Named
  worker : alone → ∀ e, s.store.execution? id = some e → e.worker.isSome →
    ∃ f, t.store.execution? id = some f ∧ f.worker = e.worker

namespace Site.Races

variable {id : Int} {alone : Prop} {s t u : Site}

theorem refl (hs : s.Sound) (hn : s.Named) : s.Races id alone s :=
  ⟨.refl hs, hn, fun _ e he _ => ⟨e, he, rfl⟩⟩

theorem trans (h : s.Races id alone t) (k : t.Races id alone u) : s.Races id alone u where
  progress := h.progress.trans k.progress
  named := k.named
  worker ha e he hw := by
    obtain ⟨f, hf, hfe⟩ := h.worker ha e he hw
    obtain ⟨g, hg, hgf⟩ := k.worker ha f hf (hfe ▸ hw)
    exact ⟨g, hg, hgf.trans hfe⟩

end Site.Races

/-- **The ways in which a cancel ends**: the row has been killed, it was finished, or the cancel has
been passed on to an executor, which is the worker of the row if nobody else changes it. -/
inductive CancelEnds (id : Int) (alone : Prop) (h : History) (s : Site) :
    Except MasterError Unit → Prop where
  | killed {f : Execution} (hf : s.store.execution? id = some f) (hk : f.status = .kill) :
      CancelEnds id alone h s (.ok ())
  | finished {f : Execution} (hf : s.store.execution? id = some f)
      (hfin : f.status.isFinished = true) : CancelEnds id alone h s (.error (.alreadyFinished id))
  | passedOn {a : Address} {reply : Except CallError Unit}
      (hcall : ⟨.call (.cancel a id), reply⟩ ∈ h)
      (hw : alone → ∃ f, s.store.execution? id = some f ∧ f.worker = some a.display) :
      CancelEnds id alone h s (reply.mapError .call)

/-- None of the ways in which a cancel ends is an internal error. -/
theorem CancelEnds.ne_internal {id : Int} {alone : Prop} {h : History} {s : Site}
    {r : Except MasterError Unit} (hr : CancelEnds id alone h s r) (reason : String) :
    r ≠ .error (.internal reason) := by
  cases hr with
  | killed hf hk => exact nofun
  | finished hf hfin => exact nofun
  | @passedOn a reply hcall hw => cases reply <;> exact nofun

namespace Master

/-- **The terms of a cancel**: others may race it for the row, and it makes at most four requests. -/
def cancelling (id : Int) (alone : Prop) : Terms Request.Answer Site Outside where
  answer := Site.answer
  rely := Site.Races id alone
  may h _ _ := h.length < 4
  rely_trans := Site.Races.trans
  rely_self h := .refl h.progress.sound h.named

theorem cancelOn_run {worker : String} {a : Address} (hw : Address.parse worker = .ok a)
    (id : Int) : (cancelOn worker id).run =
      .ask (.call (.cancel a id)) fun reply => .done (reply.mapError .call) := by
  rw [cancelOn, hw]
  exact Operation.call_run _

theorem cancelWithin_run (id : Int) (n : Nat) :
    (cancelWithin id (n + 1)).run = .ask (.store (.execution id)) fun
      | .ok (some e) =>
        if e.status.isFinished then .done (.error (.alreadyFinished id))
        else
          match e.worker with
          | some worker => (cancelOn worker id).run
          | none => .ask (.store (.transition id e.status (.toStatus .kill))) fun
            | .ok true => .done (.ok ())
            | .ok false => (cancelWithin id n).run
            | .error err => .done (.error (.store err))
      | .ok none => .done (.error (.executionNotFound id))
      | .error err => .done (.error (.store err)) := by
  refine congrArg (Interaction.ask _) (funext fun found => ?_)
  rcases found with err | _ | e
  · rfl
  · rfl
  · change ((if e.status.isFinished then throw (.alreadyFinished id)
      else match e.worker with
        | some worker => cancelOn worker id
        | none => do
          let killed : Bool ← Operation.store (.transition id e.status (.toStatus .kill))
          if killed then pure () else cancelWithin id n : Operation Unit)).run = _
    simp only
    split
    · rfl
    · split
      · rfl
      · refine congrArg (Interaction.ask _) (funext fun killed => ?_)
        rcases killed with err | _ | _ <;> rfl

variable {id : Int} {alone : Prop} {h : History} {s : Site} {e : Execution}

/-- A program of a cancel that ends in one of the ways. -/
abbrev Ends (id : Int) (alone : Prop) (p : Program (Except MasterError Unit)) :
    History → Site → Prop :=
  Interaction.Keeps (cancelling id alone) (fun h r t => ∃ x, r = some x ∧ CancelEnds id alone h t x) p

/-- A cancel of a finished row says so. -/
theorem finished_ends (he : s.store.execution? id = some e) (hfin : e.status.isFinished = true) :
    Ends id alone (.done (.error (.alreadyFinished id))) h s := by
  intro t ht
  obtain ⟨f, hf, hef⟩ := ht.progress.leadsTo id e he
  rw [hef.eq_of_finished hfin] at hf
  exact ⟨_, rfl, .finished hf hfin⟩

/-- A cancel of a row on a worker is passed on to the worker. -/
theorem cancelOn_ends (hh : h.length < 4) (hn : s.Named) (he : s.store.execution? id = some e)
    {worker : String} (hw : e.worker = some worker) :
    Ends id alone (cancelOn worker id).run h s := by
  obtain ⟨a, hparse, ha⟩ := (hn.workers id e he worker hw).parse
  rw [cancelOn_run hparse]
  intro t ht
  refine ⟨hh, fun o u hu => ⟨_, rfl, ?_⟩⟩
  apply CancelEnds.passedOn (a := a)
  · exact List.mem_append_right _ List.mem_cons_self
  · intro halone
    obtain ⟨f, hf, hfe⟩ := (ht.trans hu).worker halone e he (by simp [hw])
    exact ⟨f, hf, by rw [hfe, hw, ha]⟩

/-- A cancel that has killed the row says so. -/
theorem killed_ends (he : s.store.execution? id = some e) (hk : e.status = .kill) :
    Ends id alone (.done (.ok ())) h s := by
  intro t ht
  obtain ⟨f, hf, hef⟩ := ht.progress.leadsTo id e he
  rw [hef.eq_of_finished (by simp [hk, Status.isFinished])] at hf
  exact ⟨_, rfl, .killed hf hk⟩

/-- **A row that waited is killed, or it has left `INIT`** and is looked at again. -/
theorem kill_ends (hh : h.length < 4) (he : s.store.execution? id = some e)
    {next : Except StoreError Bool → Program (Except MasterError Unit)}
    (hkilled : next (.ok true) = .done (.ok ()))
    (hagain : ∀ x t, t.HasLeft id → Ends id alone (next (.ok false)) (h ++ [x]) t) :
    Ends id alone (.ask (.store (.transition id .init (.toStatus .kill))) next) h s := by
  intro t ht
  refine ⟨hh, fun o => ?_⟩
  obtain ⟨f, hf, -⟩ := ht.progress.leadsTo id e he
  have hkill : ((cancelling id alone).answer o
      (.store (.transition id .init (.toStatus .kill))) t).1 =
      .ok (decide (f.status = .init)) := Site.answer_transition hf o _ _
  rw [hkill]
  by_cases hwaits : f.status = .init
  · simp only [hwaits, decide_true] at hkill ⊢
    obtain ⟨g, hg, hgk⟩ := status_of_killed hkill
    have hdone : ∀ k, Ends id alone (next (.ok true)) k _ := fun k => by
      rw [hkilled]
      exact killed_ends hg hgk
    exact hdone _
  · simp only [hwaits, decide_false]
    have hfits : (Request.store (.transition id .init (.toStatus .kill))).Fits t :=
      ⟨.inl rfl, StatusUpdate.isRegular_toStatus rfl⟩
    apply hagain
    exact Site.HasLeft.progress ⟨f, hf, hwaits⟩ (Site.answer_progress ht.progress.sound hfits o)

/-- **A cancel of a row ends in one of the ways** if it begins and may look at the row twice, or if it
has made two requests at most and looks at a row that does not wait. -/
theorem cancelWithin_ends {n : Nat} (hrow : ∃ e, s.store.execution? id = some e)
    (hn : (h = [] ∧ 2 ≤ n) ∨ (h.length ≤ 2 ∧ 1 ≤ n ∧ s.HasLeft id)) :
    Ends id alone (cancelWithin id n).run h s := by
  induction n generalizing h s with
  | zero => omega
  | succ n ih =>
    have hh : h.length ≤ 2 := by
      rcases hn with ⟨rfl, -⟩ | ⟨hh, -⟩
      · exact Nat.zero_le 2
      · exact hh
    rw [cancelWithin_run]
    intro t ht
    refine ⟨Nat.lt_of_le_of_lt hh (by decide), fun o => ?_⟩
    obtain ⟨d, hd⟩ := hrow
    obtain ⟨e, he, -⟩ := ht.progress.leadsTo id d hd
    have hanswer : (cancelling id alone).answer o (.store (.execution id)) t = (.ok (some e), t) := by
      simp [cancelling, Site.answer, Store.answer, he]
    have hcycle := ht.progress.sound.store.lifecycle e (Store.execution?_mem he)
    rw [hanswer]
    simp only
    split
    · next hfin => exact finished_ends he hfin
    · next hfin =>
      split
      · next worker hw =>
        refine cancelOn_ends ?_ ht.named he hw
        rw [List.length_append, List.length_singleton]
        omega
      · next hw =>
        have hi : e.status = .init := hcycle.status_eq_init (by simpa using hfin) hw
        -- the row is found waiting, so this is the first look at it
        rcases hn with ⟨rfl, hn⟩ | ⟨-, -, hleft⟩
        · rw [hi]
          refine kill_ends (by simp) he rfl fun x u hu => ?_
          obtain ⟨g, hg, hne⟩ := hu
          exact ih ⟨g, hg⟩ (.inr ⟨by simp, by omega, g, hg, hne⟩)
        · obtain ⟨f, hf, hne⟩ := hleft.progress ht.progress
          rw [he] at hf
          exact absurd (Option.some.inj hf ▸ hi) hne

/-- **Every cancel of a row ends in one of the ways**, so it never gives up. -/
theorem cancel_ends (hrow : ∃ e, s.store.execution? id = some e) :
    Ends id alone (cancel id).run [] s :=
  cancelWithin_ends hrow (.inl ⟨rfl, by decide⟩)

/-- After four requests a cancel has ended. -/
theorem done_of_ends {p : Program (Except MasterError Unit)} (hp : Ends id alone p h s)
    (hs : s.Sound) (hn : s.Named) (hh : 4 ≤ h.length) : ∃ r, p = .done r := by
  cases p with
  | done r => exact ⟨r, rfl⟩
  | crash =>
    obtain ⟨r, hr, -⟩ := hp s (.refl hs hn)
    cases hr
  | ask r next =>
    have hlt : h.length < 4 := (hp s (.refl hs hn)).1
    omega

end Master

end WorkflowScheduler
