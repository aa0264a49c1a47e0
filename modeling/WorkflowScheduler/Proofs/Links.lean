import WorkflowScheduler.Executor.Link
import WorkflowScheduler.Proofs.Effects
import WorkflowScheduler.Proofs.Outages

/-!
# What a failed call tells

A call over links fails in one of two ways. That it did not get through is taken as evidence that
the executor is gone; a refusal is taken as an answer of the executor. There is one refusal that no
executor has given: a call to an address that is no target is refused before anything is sent. A
dispatch to such an address marks its execution as failed and keeps the executor, while one to any
other executor that does not answer evicts it.

## Main definitions

* `Address.IsUsable`: the addresses that are targets of calls
* `Links.Event`, `Links.after`: what happens to the connections that are kept
* `Passage`: a call over links, with `Passage.Answered` and `Passage.Refused`
* `Dispatch.CarriedBy`: the calls of a dispatch go over links
* `Dispatch.Unheard`: what becomes of a dispatch that no executor answers

## Main results

* `Links.usable_after`: only targets are connected to
* `Passage.isRejected_iff`, `Passage.isTransport_iff`: how a call fails
* `Dispatch.unheard_of_run`: what becomes of a dispatch that no executor answers
* `Dispatch.rejection_without_answer_iff`: when a refusal or a failed execution is not an answer
-/

namespace WorkflowScheduler

/-- **Calls can be sent to an address**: behind `http://` it is a target. -/
def Address.IsUsable (a : Address) : Prop :=
  Endpoint.isTarget a.display = true

instance (a : Address) : Decidable a.IsUsable :=
  inferInstanceAs (Decidable (_ = true))

/-! ## The connections that are kept -/

namespace Links

/-- What happens to the connections that are kept: a call, in whatever way it goes, or a drop. -/
inductive Event where
  | call (network : Network) (c : Call)
  | forget (a : Address)

/-- The connections that are kept after an event. -/
def step (l : Links) : Event → Links
  | .call network c => (l.call network c).2
  | .forget a => l.forget a

/-- **The connections that are kept after some events**, from the start on. -/
def after (evs : List Event) : Links :=
  evs.foldl step none

/-- Only targets are connected to. -/
def Usable (l : Links) : Prop :=
  ∀ a ∈ l.connected, a.IsUsable

variable {network : Network} {l l' : Links} {a : Address}

theorem Usable.forget (h : l.Usable) (a : Address) : (l.forget a).Usable :=
  fun b hb => h b (List.mem_filter.mp hb).1

theorem connect_of_mem (h : a ∈ l.connected) : l.connect network a = .ok l :=
  if_pos h

/-- A new connection is made only to a target that accepts it. -/
theorem connect_of_not_mem (h : a ∉ l.connected) :
    l.connect network a =
      if a.IsUsable then
        if network.connects a then .ok ⟨a :: l.connected⟩
        else .error (.transport ("Failed to connect to " ++ a.display ++ ": transport error"))
      else .error (.rejected "Invalid endpoint: invalid URI") := by
  unfold connect
  rw [if_neg h]
  by_cases ha : a.IsUsable
  · rw [if_neg (by simpa [Address.IsUsable] using ha), if_pos ha]
  · rw [if_pos (by simpa [Address.IsUsable] using ha), if_neg ha]

theorem Usable.connect (h : l.Usable) (hl : l.connect network a = .ok l') : l'.Usable := by
  by_cases ha : a ∈ l.connected
  · rw [connect_of_mem ha, Except.ok.injEq] at hl
    exact hl ▸ h
  · rw [connect_of_not_mem ha] at hl
    split at hl
    · next husable =>
      split at hl
      · cases hl
        exact List.forall_mem_cons.mpr ⟨husable, h⟩
      · cases hl
    · cases hl

theorem Usable.call (h : l.Usable) (c : Call) : (l.call network c).2.Usable := by
  unfold Links.call
  split
  · exact h
  · next l' hl =>
    have hl' := h.connect hl
    split
    · exact hl'
    · dsimp only
      split
      · exact hl'.forget _
      · exact hl'

/-- Whatever happens to the connections, they go to targets. -/
theorem Usable.step (h : l.Usable) (ev : Event) : (l.step ev).Usable := by
  cases ev with
  | call network c => exact h.call c
  | forget a => exact h.forget a

/-- **Only targets are connected to**, whatever has happened. -/
theorem usable_after (evs : List Event) : (after evs).Usable := by
  have hfrom : ∀ l : Links, l.Usable → (evs.foldl Links.step l).Usable := by
    induction evs with
    | nil => exact fun l hl => hl
    | cons ev evs ih => exact fun l hl => ih _ (hl.step ev)
  exact hfrom none fun a ha => by cases ha

end Links

/-! ## A call on its way -/

/-- **A call over links**: what has happened to the connections before it, and what it meets. -/
structure Passage where
  before : List Links.Event
  network : Network

namespace Passage

/-- The connections that are kept when the call is made. -/
def links (p : Passage) : Links :=
  Links.after p.before

/-- **The outcome of the call.** -/
def reply (p : Passage) (c : Call) : Except CallError Unit :=
  (p.links.call p.network c).1

/-- The call has a connection to go over: one that was kept, or a new one. -/
def Reaches (p : Passage) (c : Call) : Prop :=
  c.address ∈ p.links.connected ∨ c.address.IsUsable ∧ p.network.connects c.address = true

/-- **An executor answers the call**, by a reply or by a code that is not one of a call that did not
get through. -/
def Answered (p : Passage) (c : Call) : Prop :=
  p.Reaches c ∧ ∀ f, p.network.exchange c = .error f → f.code.isTransport = false

/-- **An executor answers and refuses the call**, by a reply with a status other than zero or by a
code. -/
def Refused (p : Passage) (c : Call) : Prop :=
  p.Reaches c ∧
    ((∃ r, p.network.exchange c = .ok r ∧ r.status ≠ 0) ∨
      ∃ f, p.network.exchange c = .error f ∧ f.code.isTransport = false)

variable {p : Passage} {c : Call}

/-- A call that has a connection goes to a target. -/
theorem Reaches.usable (h : p.Reaches c) : c.address.IsUsable := by
  rcases h with h | h
  · exact Links.usable_after p.before _ h
  · exact h.1

theorem reply_of_reaches (h : p.Reaches c) :
    p.reply c =
      match p.network.exchange c with
      | .ok r => CallError.ofEnvelope r
      | .error f => .error (CallError.ofFault f) := by
  -- a connection that is kept goes unchecked, a new one is made
  obtain ⟨l, hl⟩ : ∃ l, p.links.connect p.network c.address = .ok l := by
    by_cases hc : c.address ∈ p.links.connected
    · exact ⟨_, Links.connect_of_mem hc⟩
    · obtain ⟨husable, hconnects⟩ := h.resolve_left hc
      exact ⟨_, by rw [Links.connect_of_not_mem hc, if_pos husable, if_pos hconnects]⟩
  unfold reply Links.call
  rw [hl]
  simp only
  cases p.network.exchange c with
  | ok r => rfl
  | error f => rfl

/-- What is no target is refused by nobody. -/
theorem reply_of_not_usable (h : ¬ c.address.IsUsable) :
    p.reply c = .error (.rejected "Invalid endpoint: invalid URI") := by
  have hc : c.address ∉ p.links.connected := fun hc => h (Links.usable_after p.before _ hc)
  unfold reply Links.call
  rw [Links.connect_of_not_mem hc, if_neg h]

theorem reply_of_not_reaches (husable : c.address.IsUsable) (h : ¬ p.Reaches c) :
    p.reply c = .error
      (.transport ("Failed to connect to " ++ c.address.display ++ ": transport error")) := by
  obtain ⟨hc, hconnects⟩ := not_or.mp h
  unfold reply Links.call
  rw [Links.connect_of_not_mem hc, if_pos husable, if_neg fun h => hconnects ⟨husable, h⟩]

theorem isRejected_ofEnvelope (r : Envelope) :
    (∃ reason, CallError.ofEnvelope r = .error (.rejected reason)) ↔ r.status ≠ 0 := by
  unfold CallError.ofEnvelope
  split
  · next h => simp [h]
  · next h => simp [h]

theorem ofEnvelope_ne_transport (r : Envelope) (reason : String) :
    CallError.ofEnvelope r ≠ .error (.transport reason) := by
  unfold CallError.ofEnvelope
  split <;> simp

/-- **A call is refused** if an executor refuses it, or if it goes to no target. -/
theorem isRejected_iff :
    (∃ reason, p.reply c = .error (.rejected reason)) ↔ p.Refused c ∨ ¬ c.address.IsUsable := by
  by_cases husable : c.address.IsUsable
  · by_cases hreaches : p.Reaches c
    · rw [reply_of_reaches hreaches]
      cases hx : p.network.exchange c with
      | ok r => simp [Refused, hreaches, hx, husable, isRejected_ofEnvelope]
      | error f =>
        cases hcode : f.code.isTransport with
        | true => simp [Refused, hx, hcode, husable, CallError.ofFault]
        | false => simp [Refused, hreaches, hx, hcode, CallError.ofFault]
    · rw [reply_of_not_reaches husable hreaches]
      simp [Refused, hreaches, husable]
  · exact iff_of_true ⟨_, reply_of_not_usable husable⟩ (.inr husable)

/-- **A call does not get through** if it goes to a target and no executor answers it. -/
theorem isTransport_iff :
    (∃ reason, p.reply c = .error (.transport reason)) ↔
      c.address.IsUsable ∧ ¬ p.Answered c := by
  by_cases husable : c.address.IsUsable
  · by_cases hreaches : p.Reaches c
    · rw [reply_of_reaches hreaches]
      cases hx : p.network.exchange c with
      | ok r => simp [Answered, hreaches, hx, ofEnvelope_ne_transport]
      | error f =>
        cases hcode : f.code.isTransport with
        | true => simp [Answered, hx, hcode, husable, CallError.ofFault]
        | false => simp [Answered, hreaches, hx, hcode, CallError.ofFault]
    · rw [reply_of_not_reaches husable hreaches]
      simp [Answered, hreaches, husable]
  · rw [reply_of_not_usable husable]
    simp [husable]

end Passage

/-! ## A dispatch over links -/

namespace Dispatch

variable {limits : DispatchLimits} {e : Execution} {s t : Site} {us : Turns} {x : Executor}
  {o : DispatchOutcome} {result : Option DispatchOutcome} {Q : Passage → Call → Prop}

/-- **The calls that have been made go over links**, each in a way that meets a condition. Between
them others may use the links as they like. -/
def CarriedBy (Q : Passage → Call → Prop) (h : History) : Prop :=
  ∀ c reply, ⟨.call c, reply⟩ ∈ h → ∃ p : Passage, p.reply c = reply ∧ Q p c

theorem CarriedBy.submission (h : CarriedBy Q (us.map (·.exchange))) {v : Submission}
    (hv : v ∈ submissions us) :
    ∃ (p : Passage) (c : Call), c.address = v.executor ∧ p.reply c = v.reply ∧ Q p c := by
  obtain ⟨u, hu, hsub⟩ := List.mem_filterMap.mp hv
  unfold submission? at hsub
  split at hsub
  · next a projectId execId kind reply hx =>
    cases hsub
    obtain ⟨p, hp, hq⟩ := h _ _ (List.mem_map.mpr ⟨u, hu, hx⟩)
    exact ⟨p, .submit a projectId execId kind, rfl, hp, hq⟩
  · cases hsub

/-- A submit to a target that no executor answers does not get through. -/
theorem CarriedBy.isTransport (h : CarriedBy (fun p c => ¬ p.Answered c) (us.map (·.exchange)))
    {v : Submission} (hv : v ∈ submissions us) (husable : v.executor.IsUsable) :
    ∃ reason, v.reply = .error (.transport reason) := by
  obtain ⟨p, c, hc, hp, hnot⟩ := h.submission hv
  rw [← hp]
  exact Passage.isTransport_iff.mpr ⟨hc ▸ husable, hnot⟩

/-- A submit to no target is refused. -/
theorem CarriedBy.isRefused (h : CarriedBy Q (us.map (·.exchange))) {v : Submission}
    (hv : v ∈ submissions us) (hunusable : ¬ v.executor.IsUsable) : v.IsRefused := by
  obtain ⟨p, c, hc, hp, -⟩ := h.submission hv
  rw [Submission.IsRefused, ← hp]
  exact Passage.isRejected_iff.mpr (.inr (hc ▸ hunusable))

/-- **What becomes of a dispatch that no executor answers**, by the executor that was picked. -/
structure Unheard (e : Execution) (s : Site) (x : Executor) (us : Turns) (o : DispatchOutcome)
    (t : Site) : Prop where
  /-- The row has moved: the copy is dropped. -/
  moved : o = .abandoned ↔ ∃ v, (submissions us).getLast? = some v ∧ ¬ v.after.Expects e
  /-- Calls can be sent to the executor: it is given up. -/
  lost : (∃ ids, o = .executorLost x.address ids) ↔ o ≠ .abandoned ∧ x.address.IsUsable
  evicted : o ≠ .abandoned → x.address.IsUsable →
    s.registry.turned.Removes x.address t.registry
  /-- No call can be sent to it: it stays, and the execution has failed. -/
  failed : o = .failed ↔ o ≠ .abandoned ∧ ¬ x.address.IsUsable
  kept : o ≠ .abandoned → ¬ x.address.IsUsable → t.registry = s.registry.turned ∧
    ∃ row, t.store.execution? e.id = some row ∧ row.status = .failed

theorem Follows.length_eq {a : Address} {n : Nat} {vs : List Submission}
    {q : Program DispatchOutcome} (hq : Follows e a n vs q) (hvs : ∀ v ∈ vs, v.IsRefused) :
    vs.length = n := by
  cases hq with
  | refused hn _ => exact hn
  | accepted hl hr =>
    obtain ⟨reason, hrefused⟩ := hvs _ (List.mem_of_getLast? hl)
    rw [hr] at hrefused
    cases hrefused
  | unreachable hl hr =>
    obtain ⟨reason, hrefused⟩ := hvs _ (List.mem_of_getLast? hl)
    rw [hr] at hrefused
    cases hrefused

theorem Follows.ne_nil {a : Address} {n : Nat} {vs : List Submission}
    {q : Program DispatchOutcome} (hq : Follows e a (n + 1) vs q) : vs ≠ [] := by
  obtain ⟨v, hv⟩ := hq.exists_last
  exact List.ne_nil_of_mem (List.mem_of_getLast? hv)

/-- A dispatch whose row waits submits its copy to the executor that it picks. -/
theorem run_follows (hs : s.Expects e) (hpick : s.registry.pick.1 = some x)
    (h : (run limits e).Ran Site.react Eq s us result t) :
    ∃ vs q, vs.Sublist (submissions us) ∧
      Follows e x.address (max limits.retryCount 1) vs q := by
  rw [run_eq] at h
  obtain ⟨y, b, vs, rfl, -, hb, hr⟩ := stillPending_ran h
  obtain rfl := hb.mpr hs
  cases hr with
  | @ask _ _ _ s _ turns _ o hst hr =>
    subst hst
    have hanswer : Site.react o .pick s =
        (s.registry.pick.1, { s with registry := s.registry.pick.2 }) := rfl
    rw [hanswer, hpick] at hr
    obtain ⟨vs, ws, u, q, rfl, -, -, -, hq, -⟩ := attempts_ran hr
    exact ⟨_, q, (((List.sublist_append_left vs ws).cons _).cons _).filterMap _, hq⟩

/-- The submits of a dispatch whose row waits: there is one, and they go on to the end if each is
refused. -/
theorem Effect.submissions_spec (heffect : Effect limits e s us o t) (hs : s.Expects e)
    (hpick : s.registry.pick.1 = some x) (h : (run limits e).Ran Site.react Eq s us result t) :
    (∃ v, (submissions us).getLast? = some v) ∧
      (∀ v ∈ submissions us, v.executor = x.address) ∧
      ((∀ v ∈ submissions us, v.IsRefused) →
        (submissions us).length = max limits.retryCount 1) := by
  obtain ⟨vs, q, hsub, hq⟩ := run_follows hs hpick h
  obtain ⟨n, hn⟩ : ∃ n, max limits.retryCount 1 = n + 1 := ⟨max limits.retryCount 1 - 1, by omega⟩
  refine ⟨?_, fun v hv => ?_, fun hrefused => ?_⟩
  · have hne : submissions us ≠ [] := fun hnil =>
      (hn ▸ hq).ne_nil (List.sublist_nil.mp (hnil ▸ hsub))
    exact ⟨_, List.getLast?_eq_some_getLast hne⟩
  · obtain ⟨y, hy, hv⟩ := heffect.picked v hv
    rw [hpick, Option.some.injEq] at hy
    exact hy ▸ hv
  · -- no submit has been left out: there are no more than that
    have hlength := hq.length_eq fun v hv => hrefused v (hsub.subset hv)
    have := hsub.length_le
    have := heffect.submissions_le
    omega

/-- The copy is dropped exactly if the row has moved, where a dispatch of a row that waits ends in
another way. -/
theorem Effect.abandoned_iff (heffect : Effect limits e s us o t) {v : Submission}
    (hv : (submissions us).getLast? = some v) (hends : v.after.Expects e → o ≠ .abandoned) :
    o = .abandoned ↔ ∃ v, (submissions us).getLast? = some v ∧ ¬ v.after.Expects e :=
  ⟨fun habandoned => ⟨v, hv, fun hwaits => hends hwaits habandoned⟩,
    fun ⟨w, hw, hmoved⟩ => (heffect.of_moved w hw hmoved).1⟩

/-- The row waits after the last submit, unless the copy is dropped. -/
theorem Effect.expects_of_ne (heffect : Effect limits e s us o t) {v : Submission}
    (hv : (submissions us).getLast? = some v) (hne : o ≠ .abandoned) : v.after.Expects e :=
  Classical.not_not.mp fun hmoved => hne (heffect.of_moved v hv hmoved).1

/-- The executor is given up if its last submit has not got through. -/
theorem Effect.unheard_of_isTransport (heffect : Effect limits e s us o t) {v : Submission}
    (hv : (submissions us).getLast? = some v) (haddress : v.executor = x.address)
    (husable : x.address.IsUsable) (hreply : ∃ reason, v.reply = .error (.transport reason)) :
    Unheard e s x us o t := by
  obtain ⟨reason, hreply⟩ := hreply
  have hlost : v.after.Expects e → ∃ ids, o = .executorLost x.address ids := fun hwaits =>
    (heffect.lost x.address).mpr ⟨v, reason, hv, haddress, hreply, hwaits⟩
  have hwaits := heffect.expects_of_ne hv
  constructor
  case moved =>
    refine heffect.abandoned_iff hv fun hexpects => ?_
    obtain ⟨ids, hids⟩ := hlost hexpects
    simp [hids]
  case lost =>
    exact ⟨fun ⟨ids, hids⟩ => ⟨by simp [hids], husable⟩, fun ⟨hne, _⟩ => hlost (hwaits hne)⟩
  case evicted =>
    intro hne _
    obtain ⟨ids, hids⟩ := hlost (hwaits hne)
    obtain ⟨-, entry, -, hregistry, -⟩ := heffect.of_lost _ _ hids
    exact hregistry
  case failed =>
    refine iff_of_false (fun hfailed => ?_) fun hn => hn.2 husable
    obtain ⟨reason', hrefused⟩ := (heffect.failed.mp hfailed).2.1 v (List.mem_of_getLast? hv)
    rw [hreply] at hrefused
    cases hrefused
  case kept => exact fun _ hn => absurd husable hn

/-- The execution has failed if each submit was refused. -/
theorem Effect.unheard_of_isRefused (heffect : Effect limits e s us o t) {v : Submission}
    (hv : (submissions us).getLast? = some v) (hunusable : ¬ x.address.IsUsable)
    (hall : (submissions us).length = max limits.retryCount 1)
    (hrefused : ∀ w ∈ submissions us, w.IsRefused) : Unheard e s x us o t := by
  have hfailed : v.after.Expects e → o = .failed := fun hwaits =>
    heffect.failed.mpr ⟨hall, hrefused, v, hv, hwaits⟩
  have hwaits := heffect.expects_of_ne hv
  constructor
  case moved => exact heffect.abandoned_iff hv fun hexpects => by simp [hfailed hexpects]
  case lost =>
    refine iff_of_false (fun hlost => ?_) fun hn => hunusable hn.2
    obtain ⟨w, reason, hw, -, hreply, -⟩ := (heffect.lost _).mp hlost
    obtain ⟨reason', hr⟩ := hrefused w (List.mem_of_getLast? hw)
    rw [hreply] at hr
    cases hr
  case evicted => exact fun _ hn => absurd hn hunusable
  case failed =>
    exact ⟨fun h => ⟨by simp [h], hunusable⟩, fun hn => hfailed (hwaits hn.1)⟩
  case kept => exact fun hne _ => (heffect.of_failed (hfailed (hwaits hne))).2

/-- **A dispatch that no executor answers** gives up the executor that it has picked if calls can be
sent to it, and marks the execution as failed if none can. -/
theorem unheard_of_run (hs : s.Expects e) (hpick : s.registry.pick.1 = some x)
    (h : (run limits e).Ran Site.react Eq s us result t)
    (hus : CarriedBy (fun p c => ¬ p.Answered c) (us.map (·.exchange))) :
    ∃ o, result = some o ∧ Unheard e s x us o t := by
  obtain ⟨o, ho, heffect⟩ := run_ran h
  obtain ⟨⟨v, hv⟩, haddress, hall⟩ := heffect.submissions_spec hs hpick h
  refine ⟨o, ho, ?_⟩
  by_cases husable : x.address.IsUsable
  · -- the last submit does not get through
    have hmem := List.mem_of_getLast? hv
    have hv' := haddress v hmem
    exact heffect.unheard_of_isTransport hv hv' husable (hus.isTransport hmem (hv' ▸ husable))
  · -- every submit is refused
    have hrefused : ∀ w ∈ submissions us, w.IsRefused := fun w hw =>
      hus.isRefused hw (haddress w hw ▸ husable)
    exact heffect.unheard_of_isRefused hv husable (hall hrefused) hrefused

/-- A dispatch ends with a failed execution if the executor that it has picked has refused it each
time, or if no call can be sent to that executor. -/
theorem refused_of_failed (h : (run limits e).Ran Site.react Eq s us (some .failed) t)
    (hus : CarriedBy (fun _ _ => True) (us.map (·.exchange))) :
    ∃ x, s.registry.pick.1 = some x ∧ (x.address.IsUsable → ∀ v ∈ submissions us,
      ∃ (p : Passage) (c : Call),
        c.address = x.address ∧ p.reply c = v.reply ∧ p.Refused c) := by
  obtain ⟨o, ho, heffect⟩ := run_ran h
  obtain rfl := Option.some.inj ho
  obtain ⟨-, hrefused, v, hv, -⟩ := heffect.failed.mp rfl
  obtain ⟨x, hpick, -⟩ := heffect.picked v (List.mem_of_getLast? hv)
  refine ⟨x, hpick, fun husable w hw => ?_⟩
  obtain ⟨y, hy, hexecutor⟩ := heffect.picked w hw
  obtain rfl := Option.some.inj (hpick.symm.trans hy)
  obtain ⟨p, c, hc, hp, -⟩ := hus.submission hw
  rw [hexecutor] at hc
  obtain ⟨reason, hreply⟩ := hrefused w hw
  have hcase := Passage.isRejected_iff.mp ⟨reason, hp.trans hreply⟩
  exact ⟨p, c, hc, hp, hcase.resolve_right fun hnot => hnot (hc ▸ husable)⟩

/-- **Which refusals are no answers.** A call is refused without an answer exactly if it goes to no
target; every other call that no executor answers does not get through. So an execution is marked
as failed only if its executor has refused it each time or is no target, and a dispatch that no
executor answers gives up the executor exactly if that is a target. -/
theorem rejection_without_answer_iff (p : Passage) (c : Call) (limits : DispatchLimits)
    (e : Execution) (s t : Site) (us : Turns) :
    (((∃ reason, p.reply c = .error (.rejected reason)) ↔
        p.Refused c ∨ ¬ c.address.IsUsable) ∧
      ((∃ reason, p.reply c = .error (.transport reason)) ↔
        c.address.IsUsable ∧ ¬ p.Answered c)) ∧
    ((run limits e).Ran Site.react Eq s us (some .failed) t →
      CarriedBy (fun _ _ => True) (us.map (·.exchange)) →
        ∃ x, s.registry.pick.1 = some x ∧ (x.address.IsUsable → ∀ v ∈ submissions us,
          ∃ (p : Passage) (c : Call),
            c.address = x.address ∧ p.reply c = v.reply ∧ p.Refused c)) ∧
    (∀ result x, s.Expects e → s.registry.pick.1 = some x →
      (run limits e).Ran Site.react Eq s us result t →
        CarriedBy (fun p c => ¬ p.Answered c) (us.map (·.exchange)) →
          ∃ o, result = some o ∧ Unheard e s x us o t) :=
  ⟨⟨Passage.isRejected_iff, Passage.isTransport_iff⟩, refused_of_failed,
    fun _ _ hs hpick h hus => unheard_of_run hs hpick h hus⟩

/-- An address that is accepted and no target. -/
def badHost : Address := ⟨"bad host", 9000⟩

/-- A site with an execution that waits and an executor at that address. -/
def badHostWaiting : Site :=
  { oneWaiting with registry := Registry.empty.register badHost ⟨0, 0⟩ }

/-- Nothing is written during a call, and it is refused as one to no target is. -/
def refusedUnsent : Reaction where
  now := ⟨0, 0⟩
  reply := .error (.rejected "Invalid endpoint: invalid URI")
  writes := []

/-- An execution that is sent to such an address is marked as failed, and the executor stays. -/
theorem rejection_without_answer_iff_badHost :
    Master.executorAddress "bad host" 9000 = .ok badHost ∧ ¬ badHost.IsUsable ∧
      ∃ us t, (run ⟨3, 0⟩ waitingCopy).Ran Site.react Eq badHostWaiting us (some .failed) t ∧
        CarriedBy (fun p c => ¬ p.Answered c) (us.map (·.exchange)) ∧
        t.registry = badHostWaiting.registry.turned ∧
        ∃ row, t.store.execution? waitingCopy.id = some row ∧ row.status = .failed := by
  have hunusable : ¬ badHost.IsUsable := by decide
  have hran := Interaction.ran_course Site.react (run ⟨3, 0⟩ waitingCopy) (fun _ => refusedUnsent)
    badHostWaiting
  have hcarried : CarriedBy (fun p c => ¬ p.Answered c)
      (((run ⟨3, 0⟩ waitingCopy).course Site.react (fun _ => refusedUnsent)
        badHostWaiting).1.map (·.exchange)) := by
    have hexchanges : ((run ⟨3, 0⟩ waitingCopy).course Site.react (fun _ => refusedUnsent)
        badHostWaiting).1.map (·.exchange) = [
          ⟨.store (.execution 1), .ok (some waitingCopy)⟩,
          ⟨.pick, some ⟨badHost, ⟨0, 0⟩, none⟩⟩,
          ⟨.call (.submit badHost 10 1 .short), refusedUnsent.reply⟩,
          ⟨.call (.submit badHost 10 1 .short), refusedUnsent.reply⟩,
          ⟨.call (.submit badHost 10 1 .short), refusedUnsent.reply⟩,
          ⟨.store (.transition 1 .init (.toStatus .failed)), .ok true⟩] := rfl
    rw [hexchanges]
    intro c reply hmem
    -- a call of these three is the same, and nobody answers it
    have hcall : c = .submit badHost 10 1 .short ∧ reply = refusedUnsent.reply := by
      simp only [List.mem_cons, List.not_mem_nil, or_false] at hmem
      rcases hmem with h | h | h | h | h | h <;> cases h <;> exact ⟨rfl, rfl⟩
    obtain ⟨rfl, rfl⟩ := hcall
    exact ⟨⟨[], .unreachable⟩, Passage.reply_of_not_usable hunusable,
      fun hanswered => hunusable hanswered.1.usable⟩
  obtain ⟨-, -, hunheard⟩ := rejection_without_answer_iff ⟨[], .unreachable⟩
    (.submit badHost 10 1 .short) ⟨3, 0⟩ waitingCopy badHostWaiting _ _
  obtain ⟨o, ho, h⟩ := hunheard _ _ ⟨waitingCopy, rfl, rfl⟩ rfl hran hcarried
  have hfailed : o = .failed := Option.some.inj (ho.symm.trans rfl)
  obtain ⟨hregistry, hrow⟩ := h.kept (by simp [hfailed]) hunusable
  exact ⟨by decide, hunusable, _, _, hran, hcarried, hregistry, hrow⟩

end Dispatch

end WorkflowScheduler
