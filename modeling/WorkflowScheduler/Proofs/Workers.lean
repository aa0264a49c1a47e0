import WorkflowScheduler.Proofs.Addresses
import WorkflowScheduler.Proofs.Closing
import WorkflowScheduler.Proofs.RegistryHistory
import WorkflowScheduler.Proofs.System

/-!
# The workers that rows name

An executor comes into the registry only with a host, and a row gets as its worker the written form
of an executor that has been picked from the registry. So the worker of a row can always be read back
as an address, and what is to be passed on to it can be sent.

## Main definitions

* `IsWorker`: the written form of an address that has a host
* `Site.Named`: the executors have hosts, and the workers of rows can be read
* `Request.Names`: a request that keeps to this
* `System.Named`: the same of a whole system, whose dispatch has picked only such executors

## Main results

* `IsWorker.parse`: the worker can be read
* `Site.answer_named`: a request that keeps to it leaves a named site
* `System.named_after`: every run from the start stays named
-/

namespace WorkflowScheduler

/-- The written form of an address that has a host. -/
def IsWorker (w : String) : Prop :=
  ∃ a : Address, a.host ≠ "" ∧ a.display = w

/-- **A worker can be read**, and it is written as it was. -/
theorem IsWorker.parse {w : String} (h : IsWorker w) :
    ∃ a, Address.parse w = .ok a ∧ a.display = w := by
  obtain ⟨a, ha, rfl⟩ := h
  exact ⟨a, Address.parse_display ha, rfl⟩

/-- **A named site**: every executor has a host, and every worker of a row can be read. -/
structure Site.Named (s : Site) : Prop where
  executors : ∀ x ∈ s.registry.executors, x.address.host ≠ ""
  workers : ∀ id e, s.store.execution? id = some e → ∀ w, e.worker = some w → IsWorker w

/-- A request that makes known only executors with a host, and gives rows only such workers. -/
def Request.Names : Request → Prop
  | .register a _ => a.host ≠ ""
  | .report a _ => a.host ≠ ""
  | .store (.transition _ _ u) => ∀ w, u.worker = some w → IsWorker w
  | _ => True

theorem Request.Served.names {r : Request} {s : Site} (h : r.Served s) : r.Names := by
  cases r with
  | register a t => exact h
  | report a b => exact h
  | store q =>
    cases q with
    | transition id expected u =>
      obtain ⟨-, rfl⟩ := h
      intro w hw
      cases hw
    | _ => trivial
  | _ => trivial

namespace Site

variable {s : Site} {o : Outside} {r : Request}

theorem registry_named (h : s.Named) (hr : r.Names) :
    ∀ x ∈ (s.answer o r).2.registry.executors, x.address.host ≠ "" := by
  cases r with
  | register a t =>
    exact Registry.forall_mem_upsert (P := (·.address.host ≠ "")) (fun _ hx => hx) hr h.executors
  | report a b =>
    exact Registry.forall_mem_upsert (P := (·.address.host ≠ "")) (fun _ hx => hx) hr h.executors
  | pick =>
    change ∀ x ∈ s.registry.pick.2.executors, x.address.host ≠ ""
    rw [Registry.pick_executors]
    exact h.executors
  | evict a => exact fun x hx => h.executors x (List.mem_of_mem_filter hx)
  | _ => exact h.executors

theorem worker_rowAfter (hr : r.Names) {now : Instant} {e : Execution}
    (he : ∀ w, e.worker = some w → IsWorker w) :
    ∀ w, (r.rowAfter now e).worker = some w → IsWorker w := by
  unfold Request.rowAfter StoreRequest.rowAfter
  split
  · split
    · next id expected u =>
      split
      · -- the worker of the update, or else the one that the row has
        intro w hw
        rcases Option.or_eq_some_iff.mp hw with hu | ⟨-, hw⟩
        · exact hr w hu
        · exact he w hw
      · exact he
    · exact he
  · exact he

/-- **A request that keeps to it leaves a named site.** -/
theorem answer_named (h : s.Named) (hr : r.Names) : (s.answer o r).2.Named where
  executors := registry_named h hr
  workers id f hf := by
    cases he : s.store.execution? id with
    | none =>
      -- a row that comes in has no worker
      obtain ⟨n, -, rfl⟩ := execution?_answer_new he hf
      intro w hw
      cases hw
    | some e =>
      rw [execution?_answer he] at hf
      obtain rfl := Option.some.inj hf
      exact worker_rowAfter hr (h.workers id e he)

theorem Named.of_answer {u : Site} {x : Exchange Request.Answer} (h : s.Named) (hr : x.1.Names)
    (hx : s.answer o x.1 = (x.2, u)) : u.Named := by
  have := answer_named (o := o) h hr
  rwa [hx] at this

/-- The end that an executor records does not concern the worker. -/
theorem setStatus_named (h : s.Named) {id : Int} {e : Execution} {status : Status} (now : Instant)
    (he : s.store.execution? id = some e) (hst : status.isFinished = true) :
    { s with store := (s.store.setStatus now id status).2 }.Named where
  executors := h.executors
  workers j f hf := by
    rw [Store.execution?_setStatus now he hst] at hf
    obtain ⟨d, hd, rfl⟩ := Option.map_eq_some_iff.mp hf
    have hworker : (if j = id then Store.applyUpdate now (.toStatus status) d else d).worker =
        d.worker := by
      split <;> rfl
    rw [hworker]
    exact h.workers j d hd

end Site

/-! ## Runs -/

/-- A dispatch closes from here on, and what it has picked has a host. -/
structure Dispatching.IsClosing (d : Dispatching) (s : Site) : Prop where
  keeps : d.rest.Keeps Dispatch.closing (Dispatch.Closed d.copy) d.asked s
  hosts : ∀ x : Executor, ⟨.pick, some x⟩ ∈ d.asked → x.address.host ≠ ""

/-- **A named system**: its site is named, and its dispatch has picked only executors with a host. -/
structure System.Named (s : System) : Prop where
  site : s.site.Named
  dispatch : ∀ d, s.dispatch = some d → d.IsClosing s.site

theorem Dispatching.isClosing_start (limits : DispatchLimits) {e : Execution} {s : Site}
    (hb : s.store.Backs e) : (start limits e).IsClosing s where
  keeps := Dispatch.run_closes limits hb fun a ha => by
    obtain ⟨p, k, hx⟩ := ha
    cases hx
  hosts x hx := by cases hx

theorem Dispatching.IsClosing.progress {d : Dispatching} {s t : Site} (h : d.IsClosing s)
    (hst : s.Progress t) : d.IsClosing t :=
  ⟨h.keeps.rely hst, h.hosts⟩

/-- **What a dispatch asks gives rows only such workers**, and it is closing after it. -/
theorem Dispatching.IsClosing.advance {d : Dispatching} {s site : Site} {o : Outside}
    {x : Exchange Request.Answer} {rest : Program DispatchOutcome} (h : d.IsClosing s)
    (hs : s.Sound) (hn : s.Named) (hdisp : x.1.Dispatches d.copy d.asked s)
    (hx : d.rest.advance (Site.answer o) s = .inl (x, rest, site)) :
    x.1.Names ∧ (Dispatching.mk d.copy (d.asked ++ [x]) rest).IsClosing site := by
  obtain ⟨hmay, hkeeps⟩ :=
    Interaction.Keeps.advance (T := Dispatch.closing) (o := o) h.keeps (.refl hs) hx
  have hanswer := Interaction.answer_of_advance hx
  constructor
  · obtain ⟨r, y⟩ := x
    cases r with
    | register a t => exact hdisp.elim
    | report a b => exact hdisp.elim
    | store q =>
      cases q with
      | transition id expected u =>
        intro w hw
        obtain ⟨p, hp, hpw⟩ := hmay id expected u rfl w hw
        exact ⟨p.address, h.hosts p hp, hpw⟩
      | _ => trivial
    | _ => trivial
  · refine ⟨hkeeps, fun p hp => ?_⟩
    rcases List.mem_append.mp hp with hp | hp
    · exact h.hosts p hp
    · -- the executor is being picked from the registry
      obtain rfl := List.mem_singleton.mp hp
      exact hn.executors p (Registry.mem_of_pick (congrArg Prod.fst hanswer))

theorem Dispatching.IsClosing.finish {d : Dispatching} {s : Site} {o : Outside}
    {r : Option DispatchOutcome} (h : d.IsClosing s) (hs : s.Sound)
    (hr : d.rest.advance (Site.answer o) s = .inr r) : Dispatch.Closed d.copy d.asked r s :=
  Interaction.Keeps.finish (T := Dispatch.closing) (o := o) h.keeps (.refl hs) hr

namespace System

variable {limits : DispatchLimits} {s t : System} {ev : Event}

theorem named_start (store : Store) : (start store).Named where
  site := ⟨by simp [start, Registry.empty], by simp [start, Store.execution?]⟩
  dispatch := by simp [start]

/-- **A step keeps a system named.** -/
theorem Step.named (h : Step limits s ev t) (hv : s.Valid) (hn : s.Named) : t.Named := by
  have hprogress := (h.valid hv).2
  have hdispatch : ∀ d, s.dispatch = some d → d.IsClosing t.site := fun d hd =>
    (hn.dispatch d hd).progress hprogress
  cases h with
  | ask o hk hx =>
    obtain ⟨-, hserved, hanswer, -⟩ := (hv.threads _ (List.mem_of_getElem? hk)).advance hv.site hx
    exact ⟨hn.site.of_answer hserved.names hanswer, hdispatch⟩
  | take hr hd he =>
    refine ⟨⟨hn.site.executors, hn.site.workers⟩, fun d hd => ?_⟩
    cases hd
    exact Dispatching.isClosing_start limits (hv.take he).1
  | dispatch o hd hx =>
    obtain ⟨hmay, hanswer, -⟩ := (hv.dispatch _ hd).advance hv.site hx
    obtain ⟨hnames, hclosing⟩ := (hn.dispatch _ hd).advance hv.site hn.site hmay hx
    refine ⟨hn.site.of_answer hnames hanswer, fun d hd => ?_⟩
    cases hd
    exact hclosing
  | finishDispatch o hd hr => exact ⟨hn.site, by simp⟩
  | finish now he hr hst => exact ⟨Site.setStatus_named hn.site now he hst, hdispatch⟩
  | restart =>
    -- nothing is registered any more, and the rows are as they were
    exact ⟨⟨by simp [restarted, Registry.empty], hn.site.workers⟩, by simp [restarted]⟩
  | recover o hk hx =>
    obtain ⟨-, hserved, hanswer, -⟩ := (hv.recovery _ hk).1.advance hv.site hx
    exact ⟨hn.site.of_answer hserved.names hanswer, hdispatch⟩
  | _ => exact ⟨hn.site, hdispatch⟩

/-- **Every run from the start stays named.** -/
theorem named_after (limits : DispatchLimits) (store : Store) (ms : List Move) :
    (after limits ms (start store)).Named := by
  have := after_induction limits (P := fun t => t.Valid ∧ t.Named)
    (fun hs h => ⟨(h.valid hs.1).1, h.named hs.1 hs.2⟩) ms ⟨valid_start store, named_start store⟩
  exact this.2

end System

end WorkflowScheduler
