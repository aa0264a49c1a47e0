import WorkflowScheduler.Proofs.Cancelling
import WorkflowScheduler.Proofs.Refusals
import WorkflowScheduler.Proofs.Writes

/-!
# Where the workers of rows come from

Only a dispatch gives a row a worker, and it does so by its very next request after an executor has
accepted the execution. So the worker of a row is the executor that has accepted it, in its written
form, and since that can be read back, a cancel always finds out where to go.

## Main definitions

* `Request.Credits`: a request that gives a row only the worker that has just accepted it
* `Event.Records`: a step by which a dispatch gives a row a worker
* `AcceptedBy`: the worker that has been recorded last has accepted the execution just before
* `System.Credited`: this holds of every row, and the dispatch in progress keeps to it

## Main results

* `Dispatch.run_credits`: a dispatch records only what has been accepted
* `System.Step.worker`: a worker is recorded by a step, or the row had it before
* `System.Step.credited`: a step keeps a system credited
* `Master.cancel_neverInternal`: a cancel does not end with an internal error
* `System.addresses_read_back`: addresses are read back, so workers and cancels are sound
-/

namespace WorkflowScheduler

/-! ## A dispatch records what has been accepted -/

/-- **A request that gives a row no worker** but the one that has just accepted the execution. -/
def Request.Credits (h : History) : Request → Prop
  | .store (.transition id _ u) => ∀ w, u.worker = some w → ∃ a p k,
      h.getLast? = some ⟨.call (.submit a p id k), .ok ()⟩ ∧ a.display = w
  | _ => True

namespace Dispatch

/-- **The terms on which a dispatch records workers**: others may do anything. -/
def crediting : Terms Request.Answer Site Outside :=
  { Master.anyhow with may := fun h r _ => r.Credits h }

/-- A program on these terms, wherever it begins. -/
def Credits {α : Type} (p : Program α) : Prop :=
  ∀ h s, p.Keeps crediting (fun _ _ _ => True) h s

theorem Credits.done {α : Type} (a : α) : Credits (.done a : Program α) :=
  fun _ _ _ _ => trivial

theorem Credits.keeps_ask {α : Type} {r : Request} {next : r.Answer → Program α} {h : History}
    (hr : r.Credits h) (hnext : ∀ y, Credits (next y)) (s : Site) :
    Interaction.Keeps crediting (fun _ _ _ => True) (.ask r next) h s :=
  fun _ _ => ⟨hr, fun _ => hnext _ _ _⟩

theorem Credits.ask {α : Type} {r : Request} {next : r.Answer → Program α} (hr : ∀ h, r.Credits h)
    (hnext : ∀ y, Credits (next y)) : Credits (.ask r next) :=
  fun h => keeps_ask (hr h) hnext

theorem Credits.bind {α β : Type} {p : Program α} {f : α → Program β} (hp : Credits p)
    (hf : ∀ a, Credits (f a)) : Credits (p.bind f) :=
  fun h s => Interaction.Keeps.bind (hp h s) (fun a h s _ => hf a h s) fun _ _ hs => hs

theorem stillPending_credits (e : Execution) : Credits (stillPending e) := by
  rw [stillPending_eq]
  refine .ask (fun _ => trivial) fun found => ?_
  rcases found with err | _ | row <;> exact .done _

/-- **A commit that follows the accepted submit** records the executor that has accepted. -/
theorem commit_credits {e : Execution} {a : Address} {h : History} {p : Int} {k : FlowKind}
    (hlast : h.getLast? = some ⟨.call (.submit a p e.id k), .ok ()⟩) (s : Site) :
    (commit e a).Keeps crediting (fun _ _ _ => True) h s := by
  rw [commit_eq]
  refine Credits.keeps_ask ?_ (fun recorded => ?_) s
  · intro w hw
    obtain rfl := Option.some.inj hw
    exact ⟨a, p, k, hlast, rfl⟩
  · rcases recorded with err | _ | _
    · exact .done _
    · exact .ask (fun _ => trivial) fun _ => .done _
    · exact .done _

theorem markFailed_credits (e : Execution) : Credits (markFailed e) := by
  rw [markFailed_eq]
  refine .ask (fun _ w hw => by cases hw) fun failed => ?_
  rcases failed with err | _ | _ <;> exact .done _

theorem resubmit_credits (executor : String) (except : Int) (ids : List Int) :
    Credits (resubmit executor except ids) := by
  have hT : Resubmits crediting executor except fun _ _ _ => True :=
    ⟨fun _ => trivial, fun _ _ _ => trivial, fun _ _ _ _ _ => trivial,
      fun _ _ _ _ _ _ => ⟨trivial, fun _ => trivial⟩⟩
  exact fun h s => (hT.keeps (Q := fun _ _ => True) (fun _ _ => trivial) trivial).imp
    fun _ _ _ _ => trivial

theorem failOver_credits (e : Execution) (a : Address) : Credits (failOver e a) := by
  rw [failOver_eq]
  refine .ask (fun _ => trivial) fun _ => .ask (fun _ => trivial) fun evicted =>
    .ask (fun _ => trivial) fun _ => ?_
  cases evicted with
  | none => exact .done _
  | some entry => exact (resubmit_credits _ _ _).bind fun _ => .done _

theorem attempts_credits (e : Execution) (a : Address) (n : Nat) : Credits (attempts e a n) := by
  -- on the attempts: only an accepted one is followed by a commit
  induction n with
  | zero => exact markFailed_credits e
  | succ n ih =>
    rw [attempts_succ]
    refine fun h s t _ => ⟨trivial, fun o => ?_⟩
    have hanswer : crediting.answer o (.call (.submit a e.projectId e.id e.flowKind)) t =
        (o.reply, t) := rfl
    rw [hanswer]
    rcases o.reply with (reason | reason) | _
    · refine ((stillPending_credits e).bind fun b => ?_) _ _
      cases b with
      | true => exact failOver_credits e a
      | false => exact .done _
    · exact ih _ _
    · exact commit_credits (List.getLast?_concat ..) t

/-- **A dispatch records only workers that have accepted.** -/
theorem run_credits (limits : DispatchLimits) (e : Execution) : Credits (run limits e) := by
  rw [run_eq]
  refine (stillPending_credits e).bind fun b => ?_
  cases b with
  | false => exact .done _
  | true =>
    refine .ask (fun _ => trivial) fun picked => ?_
    cases picked with
    | none => exact .ask (fun _ => trivial) fun _ => .ask (fun _ => trivial) fun _ => .done _
    | some x => exact attempts_credits e x.address _

end Dispatch

/-! ## Who has accepted a row -/

/-- What a dispatch has asked at a step, with its copy. -/
def Event.dispatched? : Event → Option (Execution × Exchange Request.Answer)
  | .dispatchAsked c x => some (c, x)
  | _ => none

/-- **A step by which a dispatch has recorded the worker of a row.** -/
def Event.Records (id : Int) (w : String) (ev : Event) : Prop :=
  ∃ c expected, ev = .dispatchAsked c ⟨.store (.transition id expected (.runningOn w)), .ok true⟩

/-- **The executor that has accepted an execution**, as far as can be seen: it has been recorded last
as the worker of the row, and the request that the same dispatch had made just before was a submit
of the execution that it has accepted. -/
def AcceptedBy (tr : List Event) (id : Int) (a : Address) : Prop :=
  ∃ pre c expected post,
    tr = pre ++ .dispatchAsked c
      ⟨.store (.transition id expected (.runningOn a.display)), .ok true⟩ :: post ∧
    (∃ p k, (pre.filterMap Event.dispatched?).getLast? =
      some (c, ⟨.call (.submit a p id k), .ok ()⟩)) ∧
    ∀ ev ∈ post, ∀ w, ¬ ev.Records id w

theorem AcceptedBy.append {tr : List Event} {id : Int} {a : Address} {ev : Event}
    (h : AcceptedBy tr id a) (hev : ∀ w, ¬ ev.Records id w) : AcceptedBy (tr ++ [ev]) id a := by
  obtain ⟨pre, c, expected, post, rfl, haccepted, hpost⟩ := h
  refine ⟨pre, c, expected, post ++ [ev], by simp, haccepted, fun later hlater => ?_⟩
  rcases List.mem_append.mp hlater with hlater | hlater
  · exact hpost later hlater
  · exact List.mem_singleton.mp hlater ▸ hev

/-- **A row that has a worker after a request had it before**, or the request has given it. -/
theorem Site.worker_of_answer {s u : Site} {o : Outside} {x : Exchange Request.Answer} {id : Int}
    {f : Execution} {w : String} (hx : s.answer o x.1 = (x.2, u))
    (hf : u.store.execution? id = some f) (hw : f.worker = some w) :
    (∃ e, s.store.execution? id = some e ∧ e.worker = some w) ∨
      ∃ expected change, x = ⟨.store (.transition id expected change), .ok true⟩ ∧
        change.worker = some w := by
  obtain ⟨r, y⟩ := x
  obtain rfl : (s.answer o r).1 = y := congrArg Prod.fst hx
  obtain rfl : (s.answer o r).2 = u := congrArg Prod.snd hx
  cases he : s.store.execution? id with
  | none =>
    -- a row that comes in has no worker
    obtain ⟨n, -, rfl⟩ := execution?_answer_new he hf
    cases hw
  | some e =>
    rw [execution?_answer he] at hf
    obtain rfl := Option.some.inj hf
    cases r with
    | store q =>
      cases q with
      | transition j expected change =>
        simp only [Request.rowAfter, StoreRequest.rowAfter] at hw
        split at hw
        · next hc =>
          obtain rfl : id = j := (Store.execution?_id he).symm.trans hc.1
          rcases Option.or_eq_some_iff.mp hw with hchange | ⟨-, hw⟩
          · -- the change has taken place, and it names the worker
            refine .inr ⟨expected, change, ?_, hchange⟩
            rw [answer_transition he, decide_eq_true hc.2]
          · exact .inl ⟨e, rfl, hw⟩
        · exact .inl ⟨e, rfl, hw⟩
      | _ => exact .inl ⟨e, rfl, hw⟩
    | _ => exact .inl ⟨e, rfl, hw⟩

/-! ## Cancels find out where to go -/

namespace Master

/-- A program of a cancel that does not end with an internal error, whoever races it for the row. -/
abbrev NeverInternal (id : Int) (p : Program (Except MasterError Unit)) : History → Site → Prop :=
  Interaction.Keeps (cancelling id False)
    (fun _ r _ => ∀ reason, r ≠ some (.error (.internal reason))) p

/-- **A cancel does not end with an internal error**, whether the row is there or not. -/
theorem cancel_neverInternal (id : Int) (s : Site) : NeverInternal id (cancel id).run [] s := by
  have hfound : ∀ t e, t.store.execution? id = some e → NeverInternal id (cancel id).run [] t := by
    intro t e he
    refine (cancel_ends ⟨e, he⟩).imp ?_
    rintro h r u ⟨x, rfl, hends⟩ reason hinternal
    exact hends.ne_internal reason (Option.some.inj hinternal)
  rw [cancel, cancelAttempts, cancelWithin_run] at hfound ⊢
  intro t ht
  cases he : t.store.execution? id with
  | some e => exact hfound t e he t (.refl ht.progress.sound ht.named)
  | none =>
    refine ⟨Nat.zero_lt_succ 3, fun o => ?_⟩
    have hanswer : (cancelling id False).answer o (.store (.execution id)) t = (.ok none, t) := by
      simp [cancelling, Site.answer, Store.answer, he]
    rw [hanswer]
    intro u hu reason hinternal
    cases hinternal

end Master

namespace System

variable {limits : DispatchLimits} {s t : System} {tr : List Event} {ev : Event} {id : Int}

/-- **A worker is recorded by a step, or the row had it before.** -/
theorem Step.worker (h : Step limits s ev t) (hv : s.Valid) {f : Execution} {w : String}
    (hf : t.site.store.execution? id = some f) (hw : f.worker = some w) :
    ev.Records id w ∨
      (∃ e, s.site.store.execution? id = some e ∧ e.worker = some w) ∧ ∀ v, ¬ ev.Records id v := by
  by_cases hrec : ∃ v, ev.Records id v
  · obtain ⟨v, c, expected, rfl⟩ := hrec
    obtain ⟨e, now, -, -, hrow⟩ := h.row_of_transition rfl
    rw [hf] at hrow
    obtain rfl := Option.some.inj hrow
    obtain rfl := Option.some.inj hw
    exact .inl ⟨c, expected, rfl⟩
  · refine .inr ⟨?_, not_exists.mp hrec⟩
    cases h with
    | ask o hk hx =>
      obtain ⟨-, hserved, hanswer, -⟩ := (hv.threads _ (List.mem_of_getElem? hk)).advance hv.site hx
      refine (Site.worker_of_answer hanswer hf hw).resolve_right ?_
      rintro ⟨expected, change, rfl, hchange⟩
      obtain ⟨-, rfl⟩ := hserved
      cases hchange
    | recover o hk hx =>
      obtain ⟨-, hserved, hanswer, -⟩ := (hv.recovery _ hk).1.advance hv.site hx
      refine (Site.worker_of_answer hanswer hf hw).resolve_right ?_
      rintro ⟨expected, change, rfl, hchange⟩
      obtain ⟨-, rfl⟩ := hserved
      cases hchange
    | @dispatch d x rest site o hd hx =>
      obtain ⟨hmay, hanswer, -⟩ := (hv.dispatch d hd).advance hv.site hx
      refine (Site.worker_of_answer hanswer hf hw).resolve_right ?_
      rintro ⟨expected, change, rfl, hchange⟩
      obtain ⟨-, -, -, rfl | ⟨a, rfl⟩⟩ := hmay
      · cases hchange
      · exact hrec ⟨a.display, d.copy, expected, rfl⟩
    | finish now he hr hst =>
      rw [Store.execution?_setStatus now he hst] at hf
      obtain ⟨e, he, rfl⟩ := Option.map_eq_some_iff.mp hf
      refine ⟨e, he, ?_⟩
      split at hw <;> exact hw
    | _ => exact ⟨f, hf, hw⟩

/-- **A credited system**: the dispatch in progress records only what has been accepted, what it has
asked last is what has been seen of dispatches last, and every worker of a row has accepted it. -/
structure Credited (tr : List Event) (s : System) : Prop where
  dispatch : ∀ d, s.dispatch = some d →
    d.rest.Keeps Dispatch.crediting (fun _ _ _ => True) d.asked s.site
  last : ∀ d x, s.dispatch = some d → d.asked.getLast? = some x →
    (tr.filterMap Event.dispatched?).getLast? = some (d.copy, x)
  workers : ∀ id e, s.site.store.execution? id = some e → ∀ w, e.worker = some w →
    ∃ a : Address, a.display = w ∧ AcceptedBy tr id a

/-- The worker that a step records has accepted the execution. -/
theorem Step.acceptedBy_of_records (h : Step limits s ev t) (hc : s.Credited tr) {w : String}
    (hrec : ev.Records id w) : ∃ a : Address, a.display = w ∧ AcceptedBy (tr ++ [ev]) id a := by
  obtain ⟨c, expected, rfl⟩ := hrec
  cases h with
  | @dispatch d _ _ _ o hd hx =>
    obtain ⟨hmay, -⟩ :=
      Interaction.Keeps.advance (T := Dispatch.crediting) (o := o) (hc.dispatch d hd) trivial hx
    obtain ⟨a, p, k, hlast, rfl⟩ := hmay w rfl
    exact ⟨a, rfl, tr, _, _, [], rfl, ⟨p, k, hc.last d _ hd hlast⟩, by simp⟩

theorem Credited.workers_step (hc : s.Credited tr) (h : Step limits s ev t) (hv : s.Valid) :
    ∀ id e, t.site.store.execution? id = some e → ∀ w, e.worker = some w →
      ∃ a : Address, a.display = w ∧ AcceptedBy (tr ++ [ev]) id a := by
  intro id f hf w hw
  rcases h.worker hv hf hw with hrec | ⟨⟨e, he, hew⟩, hnone⟩
  · exact h.acceptedBy_of_records hc hrec
  · obtain ⟨a, ha, haccepted⟩ := hc.workers id e he w hew
    exact ⟨a, ha, haccepted.append hnone⟩

/-- **A step keeps a system credited.** -/
theorem Step.credited (h : Step limits s ev t) (hv : s.Valid) (hc : s.Credited tr) :
    t.Credited (tr ++ [ev]) := by
  refine ⟨?_, ?_, hc.workers_step h hv⟩
  · cases h with
    | take hr hd he =>
      rintro d hd
      cases hd
      exact Dispatch.run_credits limits _ _ _
    | @dispatch d x rest site o hd hx =>
      rintro d' hd'
      cases hd'
      exact (Interaction.Keeps.advance (T := Dispatch.crediting) (o := o) (hc.dispatch d hd) trivial
        hx).2
    | finishDispatch o hd hr => simp
    | restart => simp [restarted]
    | _ => exact fun d hd => (hc.dispatch d hd).rely trivial
  · rw [List.filterMap_append]
    cases h with
    | take hr hd he =>
      rintro d x hd hx
      cases hd
      cases hx
    | @dispatch d x rest site o hd hx =>
      rintro d' x' hd' hx'
      cases hd'
      obtain rfl := Option.some.inj ((List.getLast?_concat ..).symm.trans hx')
      exact List.getLast?_concat ..
    | finishDispatch o hd hr => simp
    | restart => simp [restarted]
    | _ =>
      rw [List.filterMap_cons_none rfl, List.filterMap_nil, List.append_nil]
      exact hc.last

/-- **A steered system**: it is valid and named, and no cancel in progress ends with an internal
error. -/
structure Steered (s : System) : Prop where
  valid : s.Valid
  named : s.Named
  cancels : ∀ k ∈ s.threads, ∀ id, k.job = .cancel id →
    Master.NeverInternal id k.rest k.asked s.site

theorem steered_start (store : Store) : (start store).Steered :=
  ⟨valid_start store, named_start store, by simp [start]⟩

/-- **A step keeps a system steered**, and no cancel is seen to end with an internal error. -/
theorem Step.steered (h : Step limits s ev t) (hs : s.Steered) :
    t.Steered ∧ ∀ id reason, ev ≠ .ended (.cancel id) (some (.error (.internal reason))) := by
  obtain ⟨hv, hprogress⟩ := h.valid hs.valid
  have hn := h.named hs.valid hs.named
  have hraces : ∀ id, s.site.Races id False t.site := fun _ =>
    ⟨hprogress, hn.site, fun hfalse => hfalse.elim⟩
  have hcancels : ∀ k ∈ s.threads, ∀ id, k.job = .cancel id →
      Master.NeverInternal id k.rest k.asked t.site :=
    fun k hk id hj => (hs.cancels k hk id hj).rely (hraces id)
  refine ⟨⟨hv, hn, ?_⟩, fun id reason hev => ?_⟩
  · cases h with
    | begin job hr =>
      intro k hk id hj
      rcases List.mem_append.mp hk with hk | hk
      · exact hcancels k hk id hj
      · obtain rfl := List.mem_singleton.mp hk
        obtain rfl : job = .cancel id := hj
        exact Master.cancel_neverInternal id _
    | ask o hk hx =>
      intro l hl id hj
      rcases List.mem_or_eq_of_mem_set hl with hl | rfl
      · exact hcancels l hl id hj
      · have hkept := hs.cancels _ (List.mem_of_getElem? hk) id hj
        exact (Interaction.Keeps.advance (T := Master.cancelling id False) (o := o) hkept
          (.refl hs.valid.site hs.named.site) hx).2
    | finishJob o hk hr => exact fun k hk => hcancels k (List.mem_of_mem_eraseIdx hk)
    | restart => simp [restarted]
    | _ => exact hcancels
  · subst hev
    obtain ⟨k, hk, hj, o, hr⟩ := h.of_ended
    exact Interaction.Keeps.finish (T := Master.cancelling id False) (o := o)
      (hs.cancels k hk id hj) (.refl hs.valid.site hs.named.site) hr reason rfl

/-! ## Addresses along a run -/

theorem credited_after (limits : DispatchLimits) (store : Store) (ms : List Move) :
    (after limits ms (start store)).Credited (trace limits ms (start store)) := by
  have hstart : (start store).Valid ∧ (start store).Credited [] :=
    ⟨valid_start store, by simp [start], by simp [start], by simp [start, Store.execution?]⟩
  have hafter := trace_induction limits (P := fun tr t => t.Valid ∧ t.Credited tr)
    (fun hs h => ⟨(h.valid hs.1).1, h.credited hs.1 hs.2⟩) ms hstart
  exact hafter.2

/-- **Addresses are read back, and with them workers.** An address with a host is read back from its
written form, which it shares with no other. A text that is read as an address names the host before
its last colon, and it is the written form exactly if its port is written as numbers are. So in every
run the worker of a row is read as the executor that has accepted the execution, and no cancel ends
with an internal error, as it would if the worker could not be read. -/
theorem addresses_read_back (limits : DispatchLimits) (store : Store) (ms : List Move) :
    (∀ a : Address, a.host ≠ "" → Address.parse a.display = .ok a) ∧
      (∀ a b : Address, a.host ≠ "" → b.host ≠ "" → a.display = b.display → a = b) ∧
      (∀ s a, Address.parse s = .ok a → a.host ≠ "" ∧ ∃ port : String,
        s = a.host ++ ":" ++ port ∧ ':' ∉ port.toList ∧
          (a.display = s ↔ port = toString a.port.toNat)) ∧
      (∀ id e, (after limits ms (start store)).site.store.execution? id = some e →
        ∀ w, e.worker = some w → ∃ a, Address.parse w = .ok a ∧
          AcceptedBy (trace limits ms (start store)) id a) ∧
      ∀ id reason,
        .ended (.cancel id) (some (.error (.internal reason))) ∉ trace limits ms (start store) := by
  refine ⟨fun a ha => Address.parse_display ha, fun a b _ _ h => Address.display_injective h, ?_, ?_,
    ?_⟩
  · intro s a hs
    obtain ⟨hhost, port, rfl, hcolon, -⟩ := Address.parse_eq_ok_iff.mp hs
    exact ⟨hhost, port, rfl, hcolon, Address.display_eq_append_iff⟩
  · intro id e he w hw
    -- the worker is a written form, and an injective one
    obtain ⟨a, rfl, haccepted⟩ := (credited_after limits store ms).workers id e he w hw
    obtain ⟨b, hb, hba⟩ := ((named_after limits store ms).site.workers id e he _ hw).parse
    obtain rfl := Address.display_injective hba
    exact ⟨b, hb, haccepted⟩
  · intro id reason hev
    exact (run_induction limits (A := fun _ => True) (fun hs h _ => h.steered hs) ms
      (steered_start store) fun _ _ => trivial).2 _ hev id reason rfl

/-- An executor whose host holds colons has registered, and an execution is dispatched to it. -/
def onIpv6 : List Move :=
  Move.alone (.registerExecutor "::1" 9000 ⟨0, 0⟩) ++
  Move.alone (.execFlow 10 1 ⟨0, 0⟩ Settings.none) ++ Move.dispatchAlone .answering

set_option maxRecDepth 100000 in
/-- A worker with colons in its host is read as the executor that has accepted. -/
theorem addresses_read_back_onIpv6 :
    ((after ⟨1, 0⟩ onIpv6 (start .oneFlow)).site.store.execution? 1).map (·.worker) =
        some (some "::1:9000") ∧
      ∃ a, Address.parse "::1:9000" = .ok a ∧
        AcceptedBy (trace ⟨1, 0⟩ onIpv6 (start .oneFlow)) 1 a := by
  obtain ⟨-, -, -, hworkers, -⟩ := addresses_read_back ⟨1, 0⟩ .oneFlow onIpv6
  exact ⟨rfl, hworkers 1 _ rfl _ rfl⟩

end System

end WorkflowScheduler
