import Mathlib.Data.List.Sort
import WorkflowScheduler.Agent.Reporter
import WorkflowScheduler.Proofs.Refusals
import WorkflowScheduler.Proofs.RegistryHistory

/-!
# What an agent reports

An agent holds what has been submitted to it until that is cancelled, and its reporter tells the
master at every tick. The line between the two may fail at any request, also after the master has
done what it was asked for; between two requests of a tick the agent may be called, and the master
may forget the agent or restart. The reporter never learns of that, but since a report makes an
executor known again, a tick that succeeds leaves the master with what the agent holds.

## Main definitions

* `Surroundings`, `Surroundings.answer`: what a reporter asks, and how it is answered
* `Reporting`, `Reporting.step`, `Reporting.run`: an agent and its master, step by step
* `Reporting.Held`: what an agent holds, as far as can be seen of its calls
* `Reporting.Faithful`: what holds after every run

## Main results

* `Service.announcement_cases`: a request of an executor is refused, or it is done
* `Reporter.tick_keeps`: when a tick registers, what it reports, and what it remembers
* `Reporting.Step.kept`: what every step preserves
* `Reporting.reports_held`: an agent reports what it holds
-/

namespace WorkflowScheduler

/-! ## The requests of executors -/

namespace Service

/-- A request of an executor, which gives a time and its address; both are read before it is done. -/
def announcement (field : String) (millis : Int) (host : String) (port : Int)
    (f : Instant → Address → Operation Unit) : Operation Unit := do
  let t ← instantOf field millis
  let a ← Operation.ofExcept (Master.executorAddress host port)
  f t a

/-- A request of which the time has been read is refused because of the address, or it is done. -/
theorem addressed_cases (host : String) (port : Int) (f : Address → Operation Unit) (o : Outside)
    (s : Site) :
    (∃ e : MasterError,
      (acknowledged (Operation.ofExcept (Master.executorAddress host port) >>= f)).run
        (Site.answer o) s = (some ⟨e.code, e.message⟩, s)) ∨
      ∃ a, Master.executorAddress host port = .ok a ∧
        (acknowledged (Operation.ofExcept (Master.executorAddress host port) >>= f)).run
          (Site.answer o) s = (acknowledged (f a)).run (Site.answer o) s := by
  cases Master.executorAddress host port with
  | error e => exact .inl ⟨e, rfl⟩
  | ok a => exact .inr ⟨a, rfl, rfl⟩

/-- **A request of an executor is refused, or it is done.** -/
theorem announcement_cases (field : String) (millis : Int) (host : String) (port : Int)
    (f : Instant → Address → Operation Unit) (o : Outside) (s : Site) :
    (∃ e : MasterError, (acknowledged (announcement field millis host port f)).run (Site.answer o) s
        = (some ⟨e.code, e.message⟩, s)) ∨
      ∃ t a, Master.executorAddress host port = .ok a ∧
        (acknowledged (announcement field millis host port f)).run (Site.answer o) s =
          (acknowledged (f t a)).run (Site.answer o) s := by
  by_cases hm : millis = 0
  · -- zero stands for the time of the master
    subst hm
    rcases addressed_cases host port (f o.now) o s with ⟨e, he⟩ | ⟨a, ha, hdone⟩
    · exact .inl ⟨e, he⟩
    · exact .inr ⟨o.now, a, ha, hdone⟩
  · rw [announcement, instantOf_of_ne hm]
    cases Instant.ofMillis? millis with
    | none => exact .inl ⟨_, rfl⟩
    | some t =>
      rcases addressed_cases host port (f t) o s with ⟨e, he⟩ | ⟨a, ha, hdone⟩
      · exact .inl ⟨e, he⟩
      · exact .inr ⟨t, a, ha, hdone⟩

/-- A report is refused, or it is entered in the registry. -/
theorem report_cases (limit : Nat) (host : String) (port : Int) (info : ReportInfo) (o : Outside)
    (s : Site) :
    (∃ e : MasterError, (handle limit (.executorReport host port (some info))).run (Site.answer o) s
        = (some ⟨e.code, e.message⟩, s)) ∨
      ∃ t a, Master.executorAddress host port = .ok a ∧
        (handle limit (.executorReport host port (some info))).run (Site.answer o) s =
          (some .ok, { s with registry := s.registry.step (.report a t info.execIds) }) :=
  announcement_cases "report_date" info.reportDate host port
    (fun t a => Operation.request (.report a (.of t info.execIds))) o s

end Service

/-! ## The line to the master -/

/-- What the requests of a reporter are about: the inventory of its agent, and the master. -/
structure Surroundings where
  inventory : Inventory
  master : Site

/-- What comes from outside at a request of a reporter: the time, whether the line connects, whether
a call reaches the master and whether its reply comes back, and what the master meets meanwhile. -/
structure LineOutside where
  now : Instant
  connects : Bool
  arrives : Bool
  returns : Bool
  master : Outside

namespace Surroundings

/-- **A call over the line.** It may fail before or after the master has handled it. -/
def send (o : LineOutside) (p : Program Envelope) (s : Surroundings) :
    Option Envelope × Surroundings :=
  if o.arrives then
    let (reply, site) := p.run (Site.answer o.master) s.master
    (if o.returns then reply else none, { s with master := site })
  else (none, s)

/-- **How a reporter is answered.** -/
def answer (limit : Nat) (o : LineOutside) :
    (q : LineRequest) → Surroundings → q.Answer × Surroundings
  | .connect, s => (o.connects, s)
  | .register host port t, s => s.send o (Service.handle limit (.registerExecutor host port t))
  | .report host port info, s =>
    s.send o (Service.handle limit (.executorReport host port (some info)))
  | .held, s => (s.inventory.execIds, s)
  | .now, s => (o.now, s)

variable {limit : Nat} {o : LineOutside} {s t : Surroundings} {p : Program Envelope}

theorem send_inventory (o : LineOutside) (p : Program Envelope) (s : Surroundings) :
    (s.send o p).2.inventory = s.inventory := by
  unfold send
  split <;> rfl

/-- A call of which the reply comes back has been handled. -/
theorem run_of_send {e : Envelope} (h : s.send o p = (some e, t)) :
    p.run (Site.answer o.master) s.master = (some e, t.master) := by
  unfold send at h
  split at h
  · obtain ⟨hreply, rfl⟩ := Prod.mk.inj h
    split at hreply
    · exact Prod.ext hreply rfl
    · cases hreply
  · cases h

theorem answer_inventory (limit : Nat) (o : LineOutside) (q : LineRequest) (s : Surroundings) :
    (answer limit o q s).2.inventory = s.inventory := by
  cases q with
  | register host port time => exact send_inventory o _ s
  | report host port info => exact send_inventory o _ s
  | _ => rfl

/-- **A report that succeeds is entered in the registry.** -/
theorem registry_of_reported {host : String} {port : Int} {info : ReportInfo} {e : Envelope}
    (h : answer limit o (.report host port info) s = (some e, t)) (he : e.status = 0) :
    ∃ a at_, Master.executorAddress host port = .ok a ∧
      t.master.registry = s.master.registry.step (.report a at_ info.execIds) := by
  have hrun := run_of_send h
  rcases Service.report_cases limit host port info o.master s.master with
    ⟨fault, hrefused⟩ | ⟨at_, a, ha, hdone⟩
  · -- the reply of a refusal tells of an error
    obtain ⟨hreply, -⟩ := Prod.mk.inj (hrun.symm.trans hrefused)
    obtain rfl := Option.some.inj hreply
    exact absurd he fault.code_ne_zero
  · exact ⟨a, at_, ha, congrArg (·.2.registry) (hrun.symm.trans hdone)⟩

end Surroundings

/-! ## What a tick asks -/

namespace Reporter

/-- A registration that has succeeded. -/
def Registered : Exchange LineRequest.Answer → Prop
  | ⟨.register _ _ _, reply⟩ => succeeded reply = true
  | _ => False

/-- The reporter has registered, before the tick or in it. -/
def HasRegistered (r : Reporter) (h : List (Exchange LineRequest.Answer)) : Prop :=
  r.isRegistered = true ∨ ∃ x ∈ h, Registered x

/-- **What a tick may ask**: it registers the address of the reporter if that has not succeeded
before, and then reports for it what it has read to be held. -/
def MayAsk (r : Reporter) (h : List (Exchange LineRequest.Answer)) : LineRequest → Prop
  | .register host port _ => host = r.host ∧ port = r.port.toNat ∧ ¬ r.HasRegistered h
  | .report host port info =>
    host = r.host ∧ port = r.port.toNat ∧ r.HasRegistered h ∧ ⟨.held, info.execIds⟩ ∈ h
  | _ => True

/-- **How a tick ends**: the reporter knows whether it has registered, and if the tick succeeds, its
last request was a report that succeeded. -/
def Ended (r : Reporter) (h : List (Exchange LineRequest.Answer)) : Option (Bool × Reporter) → Prop
  | none => False
  | some (ok, r') =>
    r'.host = r.host ∧ r'.port = r.port ∧ (r'.isRegistered = true ↔ r.HasRegistered h) ∧
      (ok = true → ∃ k info e, h = k ++ [⟨.report r.host r.port.toNat info, some e⟩] ∧
        e.status = 0 ∧ ⟨.held, info.execIds⟩ ∈ k)

/-- The terms of a tick: the agent may be called and the master may change meanwhile. -/
def ticking (limit : Nat) (r : Reporter) : Terms LineRequest.Answer Surroundings LineOutside where
  answer := Surroundings.answer limit
  rely _ _ := True
  may h q _ := r.MayAsk h q
  rely_trans _ _ := trivial
  rely_self _ := trivial

theorem succeeded_iff {reply : Option Envelope} :
    succeeded reply = true ↔ ∃ e, reply = some e ∧ e.status = 0 := by
  cases reply <;> simp [succeeded]

variable {limit : Nat} {r : Reporter} {h : List (Exchange LineRequest.Answer)} {s : Surroundings}

theorem HasRegistered.append (hr : r.HasRegistered h) (k : List (Exchange LineRequest.Answer)) :
    r.HasRegistered (h ++ k) :=
  hr.imp_right fun ⟨x, hx, hreg⟩ => ⟨x, List.mem_append_left k hx, hreg⟩

theorem hasRegistered_concat_iff {x : Exchange LineRequest.Answer} :
    r.HasRegistered (h ++ [x]) ↔ r.HasRegistered h ∨ Registered x := by
  simp [HasRegistered, or_assoc, or_and_right, exists_or]

theorem connect_eq (r : Reporter) :
    r.connect = if r.isConnected then .done true else .ask .connect .done := rfl

theorem beRegistered_eq (r : Reporter) :
    r.beRegistered = if r.isRegistered then .done true
      else .ask .now fun (t : Instant) =>
        .ask (.register r.host r.port.toNat t.toMillis) fun reply => .done (succeeded reply) := rfl

theorem report_eq (r : Reporter) :
    r.report = .ask .held fun (ids : List Int) => .ask .now fun (t : Instant) =>
      .ask (.report r.host r.port.toNat ⟨t.toMillis, ids⟩) fun reply => .done (succeeded reply) :=
  rfl

theorem tick_eq (r : Reporter) :
    r.tick = r.connect.bind fun connected =>
      if connected then r.beRegistered.bind fun registered =>
        if registered then r.report.bind fun reported =>
          .done (reported, { r with isConnected := reported, isRegistered := true })
        else .done (false, { r with isConnected := false })
      else .done (false, { r with isConnected := false }) := rfl

/-- Connecting is no registration. -/
theorem connect_keeps :
    r.connect.Keeps (ticking limit r)
      (fun h b _ => b.isSome ∧ (r.HasRegistered h ↔ r.isRegistered = true)) [] s := by
  have hbefore : r.HasRegistered [] ↔ r.isRegistered = true := by simp [HasRegistered]
  rw [connect_eq]
  cases r.isConnected with
  | true =>
    intro t _
    exact ⟨rfl, hbefore⟩
  | false =>
    intro t _
    refine ⟨trivial, fun o u _ => ⟨rfl, ?_⟩⟩
    exact hasRegistered_concat_iff.trans ((or_iff_left id).trans hbefore)

/-- **A reporter registers unless it has done so.** -/
theorem beRegistered_keeps (hh : r.HasRegistered h ↔ r.isRegistered = true) :
    r.beRegistered.Keeps (ticking limit r)
      (fun h b _ => ∃ g, b = some g ∧ (g = true ↔ r.HasRegistered h)) h s := by
  rw [beRegistered_eq]
  cases hr : r.isRegistered with
  | true =>
    intro t _
    exact ⟨true, rfl, by simp [hh, hr]⟩
  | false =>
    intro t _
    refine ⟨trivial, fun o u _ => ?_⟩
    have hnow : ∀ y, ¬ r.HasRegistered (h ++ [⟨.now, y⟩]) := by
      intro y hy
      rcases hasRegistered_concat_iff.mp hy with hy | hy
      · exact absurd (hh.mp hy) (by simp [hr])
      · exact hy
    refine ⟨⟨rfl, rfl, hnow _⟩, fun o' v _ => ⟨_, rfl, ?_⟩⟩
    -- it has registered now exactly if its call has succeeded
    have hcall : ∀ time (reply : Option Envelope),
        Registered ⟨.register r.host r.port.toNat time, reply⟩ ↔ succeeded reply = true :=
      fun _ _ => Iff.rfl
    exact ((hasRegistered_concat_iff.trans (or_iff_right (hnow _))).trans (hcall _ _)).symm

/-- **A reporter that has registered reports what it has read to be held.** -/
theorem report_keeps (hr : r.HasRegistered h) :
    r.report.Keeps (ticking limit r) (fun h b _ => ∃ ok, b = some ok ∧ r.HasRegistered h ∧
      (ok = true → ∃ k info e, h = k ++ [⟨.report r.host r.port.toNat info, some e⟩] ∧
        e.status = 0 ∧ ⟨.held, info.execIds⟩ ∈ k)) h s := by
  rw [report_eq]
  intro t _
  refine ⟨trivial, fun o u _ => ⟨trivial, fun o' v _ => ?_⟩⟩
  refine ⟨⟨rfl, rfl, (hr.append _).append _, by simp⟩, fun o'' w _ => ?_⟩
  refine ⟨_, rfl, ((hr.append _).append _).append _, fun hok => ?_⟩
  obtain ⟨e, he, hzero⟩ := succeeded_iff.mp hok
  exact ⟨_, _, e, congrArg (_ ++ [·]) (Sigma.ext rfl (heq_of_eq he)), hzero, by simp⟩

/-- **A tick keeps to its terms.** -/
theorem tick_keeps (limit : Nat) (r : Reporter) (s : Surroundings) :
    r.tick.Keeps (ticking limit r) (fun h result _ => r.Ended h result) [] s := by
  rw [tick_eq]
  refine Interaction.Keeps.bind connect_keeps ?_ fun h t ht => by simp at ht
  intro connected h t ht
  obtain ⟨-, hh⟩ := ht t trivial
  cases connected with
  | false => exact fun u _ => ⟨rfl, rfl, hh.symm, nofun⟩
  | true =>
    refine Interaction.Keeps.bind (beRegistered_keeps hh) ?_ fun h t ht => by simp at ht
    intro registered h t ht
    obtain ⟨g, hg, hregistered⟩ := ht t trivial
    obtain rfl := Option.some.inj hg
    cases registered with
    | false =>
      refine fun u _ => ⟨rfl, rfl, ⟨Or.inl, fun hr => ?_⟩, nofun⟩
      cases hregistered.mpr hr
    | true =>
      refine Interaction.Keeps.bind (report_keeps (hregistered.mp rfl)) ?_ fun h t ht => by simp at ht
      intro reported h t ht u _
      obtain ⟨ok, hok, hr, hlast⟩ := ht t trivial
      obtain rfl := Option.some.inj hok
      exact ⟨rfl, rfl, iff_of_true rfl hr, hlast⟩

end Reporter

/-! ## Calls to the agent -/

/-- A call to an agent. -/
inductive AgentCall where
  | submit (id : Int) (kind : String)
  | adHoc (id : Int)
  | cancel (id : Int)

namespace Inventory

/-- **How a call to an agent is answered.** -/
def serve (v : Inventory) : AgentCall → Envelope × Inventory
  | .submit id kind => v.submit id kind
  | .adHoc id => v.adHoc id
  | .cancel id => v.cancel id

variable {v : Inventory} {id x : Int}

theorem status_cancel : (v.cancel id).1.status = 0 ↔ id ∈ v.execIds := by
  have hheld : v.held.contains id = true ↔ id ∈ v.execIds := IdSet.contains_iff
  cases hc : v.held.contains id <;>
    simp [cancel, remove, contains, hc, ← hheld, Envelope.ok, refusal, MasterError.code_ne_zero]

theorem execIds_cancel (v : Inventory) (id : Int) :
    (v.cancel id).2.execIds = v.execIds.filter (· ≠ id) := by
  unfold cancel
  split <;> next heq => exact (congrArg (·.2.execIds) heq).symm

theorem mem_submit {kind : String} : x ∈ (v.submit id kind).2.execIds ↔
    x ∈ v.execIds ∨ x = id ∧ Text.allBlank kind = false := by
  unfold submit
  split
  · next hblank => simp [hblank]
  · next hblank =>
    change x ∈ v.held.insert id ↔ x ∈ v.held ∨ _
    simp [hblank, or_comm]

end Inventory

/-! ## Runs -/

/-- A tick that is carried on: what it has asked, and what is left of it. -/
structure Ticking where
  asked : List (Exchange LineRequest.Answer)
  rest : Reporter.Doing (Bool × Reporter)

/-- **An agent and its master**, with the tick that is carried on. -/
structure Reporting where
  around : Surroundings
  reporter : Reporter
  tick : Option Ticking

namespace Reporting

/-- What may happen next. -/
inductive Move where
  | call (c : AgentCall)
  | begin
  /-- The tick makes its next request, and ends if that is its last. -/
  | work (o : LineOutside)
  /-- Something else happens to the registry, an eviction of the agent perhaps. -/
  | registry (ev : RegistryEvent)
  /-- The master is restarted, and only its store is left. -/
  | restart

/-- What can be seen of a step; at the last request of a tick also whether the tick has succeeded. -/
inductive Event where
  | served (c : AgentCall) (reply : Envelope)
  | began
  | asked (x : Exchange LineRequest.Answer) (outcome : Option Bool)
  | registry (ev : RegistryEvent)
  | restarted

/-- An agent that holds nothing, and a master that knows no executor. -/
def start (host : String) (port : UInt16) (store : Store) : Reporting :=
  ⟨⟨.empty, ⟨store, .empty, .empty, .empty⟩⟩, .start host port, none⟩

/-- **One step**, with what can be seen of it, if the move is possible. -/
def step (limit : Nat) : Move → Reporting → Option (Event × Reporting)
  | .call c, s =>
    let (reply, inventory) := s.around.inventory.serve c
    some (.served c reply, { s with around := { s.around with inventory := inventory } })
  | .begin, s =>
    match s.tick with
    | some _ => none
    | none => some (.began, { s with tick := some ⟨[], s.reporter.tick⟩ })
  | .work o, s =>
    match s.tick with
    | none => none
    | some k =>
      match k.rest.advance (Surroundings.answer limit o) s.around with
      | .inr _ => none
      | .inl (x, .done (ok, reporter), around) => some (.asked x (some ok), ⟨around, reporter, none⟩)
      | .inl (x, rest, around) =>
        some (.asked x none, { s with around := around, tick := some ⟨k.asked ++ [x], rest⟩ })
  | .registry ev, s =>
    let master := { s.around.master with registry := s.around.master.registry.step ev }
    some (.registry ev, { s with around := { s.around with master := master } })
  | .restart, s =>
    let master := ⟨s.around.master.store, .empty, .empty, .empty⟩
    some (.restarted, { s with around := { s.around with master := master } })

/-- A run that goes on by a move, if it is possible. -/
def perform (limit : Nat) (p : List Event × Reporting) (m : Move) : List Event × Reporting :=
  match step limit m p.2 with
  | none => p
  | some (ev, s) => (p.1 ++ [ev], s)

/-- **A run**: what has been seen, and the state it has led to. -/
def run (limit : Nat) (ms : List Move) (s : Reporting) : List Event × Reporting :=
  ms.foldl (perform limit) ([], s)

/-- **The steps, case by case.** -/
inductive Step (limit : Nat) (s : Reporting) : Event → Reporting → Prop where
  | call (c : AgentCall) : Step limit s (.served c (s.around.inventory.serve c).1)
      { s with around := { s.around with inventory := (s.around.inventory.serve c).2 } }
  | begin (h : s.tick = none) :
      Step limit s .began { s with tick := some ⟨[], s.reporter.tick⟩ }
  | ask {k : Ticking} {x : Exchange LineRequest.Answer}
      {rest : Reporter.Doing (Bool × Reporter)} {around : Surroundings} (o : LineOutside)
      (hk : s.tick = some k)
      (hx : k.rest.advance (Surroundings.answer limit o) s.around = .inl (x, rest, around))
      (hrest : ∀ ok reporter, rest ≠ .done (ok, reporter)) :
      Step limit s (.asked x none)
        { s with around := around, tick := some ⟨k.asked ++ [x], rest⟩ }
  | finish {k : Ticking} {x : Exchange LineRequest.Answer} {ok : Bool} {reporter : Reporter}
      {around : Surroundings} (o : LineOutside) (hk : s.tick = some k)
      (hx : k.rest.advance (Surroundings.answer limit o) s.around =
        .inl (x, .done (ok, reporter), around)) :
      Step limit s (.asked x (some ok)) ⟨around, reporter, none⟩
  | registry (ev : RegistryEvent) : Step limit s (.registry ev)
      { s with around := { s.around with master :=
        { s.around.master with registry := s.around.master.registry.step ev } } }
  | restart : Step limit s .restarted
      { s with around := { s.around with master :=
        ⟨s.around.master.store, .empty, .empty, .empty⟩ } }

variable {limit : Nat} {s t : Reporting} {tr : List Event} {ev : Event}

/-- **A step is one of the cases.** -/
theorem step_cases {m : Move} (h : step limit m s = some (ev, t)) : Step limit s ev t := by
  cases m with
  | call c => cases h; exact .call c
  | begin =>
    simp only [step] at h
    split at h
    · cases h
    · next hk => cases h; exact .begin hk
  | work o =>
    simp only [step] at h
    split at h
    · cases h
    · next k hk =>
      split at h
      · cases h
      · next hx => cases h; exact .finish o hk hx
      · next hrest hx => cases h; exact .ask o hk hx hrest
  | registry ev => cases h; exact .registry ev
  | restart => cases h; exact .restart

/-- **What every step preserves holds after a run**, of the state and of what has been seen. -/
theorem run_induction {P : List Event → Reporting → Prop} (hs : P [] s)
    (hstep : ∀ {tr s ev t}, P tr s → Step limit s ev t → P (tr ++ [ev]) t) (ms : List Move) :
    P (run limit ms s).1 (run limit ms s).2 := by
  have hstart : P (([], s) : List Event × Reporting).1 (([], s) : List Event × Reporting).2 := hs
  refine List.foldlRecOn (motive := fun p => P p.1 p.2) ms (perform limit) hstart ?_
  intro p hp m _
  unfold perform
  split
  · exact hp
  · next hm => exact hstep hp (step_cases hm)

/-! ## What can be seen to be held -/

/-- A submit that is accepted. -/
def Event.Submits (x : Int) : Event → Prop
  | .served (.submit id kind) _ => id = x ∧ Text.allBlank kind = false
  | _ => False

/-- A cancel that succeeds. -/
def Event.Cancels (x : Int) : Event → Prop
  | .served (.cancel id) reply => id = x ∧ reply.status = 0
  | _ => False

/-- **What an agent holds, as far as can be seen of its calls**: an execution that has been submitted
with a category that is not blank, and not been cancelled with success since. -/
def Held (tr : List Event) (x : Int) : Prop :=
  ∃ pre ev post, tr = pre ++ ev :: post ∧ ev.Submits x ∧ ∀ later ∈ post, ¬ later.Cancels x

/-- An event among those of a longer run is the last one, or it was there before. -/
theorem append_cons_cases {pre post : List Event} {e : Event} (h : tr ++ [ev] = pre ++ e :: post) :
    (post = [] ∧ pre = tr ∧ e = ev) ∨ ∃ mid, post = mid ++ [ev] ∧ tr = pre ++ e :: mid := by
  rcases List.eq_nil_or_concat' post with rfl | ⟨mid, last, rfl⟩
  · obtain ⟨hpre, hlast⟩ := List.append_inj' h rfl
    exact .inl ⟨rfl, hpre.symm, (List.singleton_inj.mp hlast).symm⟩
  · rw [← List.cons_append, ← List.append_assoc] at h
    obtain ⟨hpre, hlast⟩ := List.append_inj' h rfl
    exact .inr ⟨mid, by rw [List.singleton_inj.mp hlast], hpre⟩

theorem held_concat_iff {x : Int} :
    Held (tr ++ [ev]) x ↔ ev.Submits x ∨ Held tr x ∧ ¬ ev.Cancels x := by
  constructor
  · rintro ⟨pre, first, post, heq, hsubmits, hpost⟩
    rcases append_cons_cases heq with ⟨-, -, rfl⟩ | ⟨mid, rfl, rfl⟩
    · exact .inl hsubmits
    · obtain ⟨hmid, hlast⟩ := List.forall_mem_append.mp hpost
      exact .inr ⟨⟨pre, first, mid, rfl, hsubmits, hmid⟩, hlast ev List.mem_cons_self⟩
  · rintro (hsubmits | ⟨⟨pre, first, post, rfl, hsubmits, hpost⟩, hev⟩)
    · exact ⟨tr, ev, [], rfl, hsubmits, by simp⟩
    · refine ⟨pre, first, post ++ [ev], by simp, hsubmits, ?_⟩
      exact List.forall_mem_append.mpr ⟨hpost, List.forall_mem_singleton.mpr hev⟩

/-- A call makes of what is held what can be seen of it. -/
theorem mem_serve_iff {v : Inventory} {c : AgentCall} {x : Int} :
    x ∈ (v.serve c).2.execIds ↔ (Event.served c (v.serve c).1).Submits x ∨
      x ∈ v.execIds ∧ ¬ (Event.served c (v.serve c).1).Cancels x := by
  cases c with
  | submit id kind =>
    change x ∈ (v.submit id kind).2.execIds ↔
      (id = x ∧ Text.allBlank kind = false) ∨ x ∈ v.execIds ∧ ¬ False
    rw [Inventory.mem_submit, not_false_eq_true, and_true, or_comm, eq_comm]
  | adHoc id =>
    change x ∈ v.execIds ↔ False ∨ x ∈ v.execIds ∧ ¬ False
    simp
  | cancel id =>
    change x ∈ (v.cancel id).2.execIds ↔
      False ∨ x ∈ v.execIds ∧ ¬ (id = x ∧ (v.cancel id).1.status = 0)
    rw [Inventory.execIds_cancel, Inventory.status_cancel]
    -- what is not held is not there to be cancelled
    have hheld : x ∈ v.execIds → (id = x ∧ id ∈ v.execIds ↔ x = id) := by
      rintro hx
      exact ⟨fun h => h.1.symm, fun h => ⟨h.symm, h ▸ hx⟩⟩
    rw [List.mem_filter, decide_eq_true_eq, false_or]
    exact and_congr_right fun hx => not_congr (hheld hx).symm

/-- **What was held at a moment of the tick that has begun last**, and is held still unless the agent
has been called since. -/
def HeldDuring (tr : List Event) (v : Inventory) (ids : List Int) : Prop :=
  ∃ before during, tr = before ++ during ∧ .began ∈ before ∧ .began ∉ during ∧
    ids.Pairwise (· < ·) ∧ (∀ x, x ∈ ids ↔ Held before x) ∧
    ((∀ c reply, .served c reply ∉ during) → ids = v.execIds)

/-- A step by which a reporter registers with success. -/
def Event.Registers : Event → Prop
  | .asked x _ => Reporter.Registered x
  | _ => False

/-- **What must have been seen before a step**: a cancel succeeds exactly if the execution is held, a
reporter does not register again once it has succeeded, and it does not report before. -/
def Event.FitsAfter (pre : List Event) : Event → Prop
  | .served (.cancel x) reply => reply.status = 0 ↔ Held pre x
  | .asked ⟨.register _ _ _, _⟩ _ => ∀ ev ∈ pre, ¬ ev.Registers
  | .asked ⟨.report _ _ _, _⟩ _ => ∃ ev ∈ pre, ev.Registers
  | _ => True

/-- The registry shows an executor with a heartbeat of what was held during the last tick. -/
def Shown (host : String) (port : UInt16) (tr : List Event) (s : Reporting) : Prop :=
  ∃ e b, s.around.master.registry.get? ⟨host, port⟩ = some e ∧ e.heartbeat = some b ∧
    HeldDuring tr s.around.inventory b.execIds.ids

/-- **A faithful agent**: it holds what has been submitted and not cancelled since, each once; every
step fits what has been seen before; and right after a tick that has succeeded, the registry shows
what the agent has held. A tick that is carried on can always go on. -/
structure Faithful (host : String) (port : UInt16) (tr : List Event) (s : Reporting) : Prop where
  held : ∀ x, x ∈ s.around.inventory.execIds ↔ Held tr x
  ascending : s.around.inventory.execIds.Pairwise (· < ·)
  fits : ∀ pre ev post, tr = pre ++ ev :: post → ev.FitsAfter pre
  shown : ∀ x, tr.getLast? = some (.asked x (some true)) → Shown host port tr s
  goesOn : ∀ k, s.tick = some k → ∃ q next, k.rest = .ask q next

/-- **What every step preserves**: the agent is faithful, and the tick that is carried on keeps to its
terms, with what it has read and what the reporter knows. -/
structure Kept (limit : Nat) (host : String) (port : UInt16) (tr : List Event) (s : Reporting) :
    Prop where
  faithful : Faithful host port tr s
  address : s.reporter.host = host ∧ s.reporter.port = port
  registered : (∃ ev ∈ tr, ev.Registers) ↔
    s.reporter.HasRegistered (s.tick.elim [] (·.asked))
  tick : ∀ k, s.tick = some k → k.rest.Keeps (Reporter.ticking limit s.reporter)
    (fun h result _ => s.reporter.Ended h result) k.asked s.around
  began : ∀ k, s.tick = some k → .began ∈ tr
  read : ∀ k, s.tick = some k → ∀ ids : List Int, ⟨.held, ids⟩ ∈ k.asked →
    HeldDuring tr s.around.inventory ids

/-! ## What every step preserves -/

theorem HeldDuring.append {v w : Inventory} {ids : List Int} (h : HeldDuring tr v ids)
    (hbegan : ev ≠ .began) (hw : (∀ c reply, ev ≠ .served c reply) → w = v) :
    HeldDuring (tr ++ [ev]) w ids := by
  obtain ⟨before, during, rfl, hbefore, hduring, hascending, hheld, hsame⟩ := h
  refine ⟨before, during ++ [ev], by simp, hbefore, ?_, hascending, hheld, fun hnone => ?_⟩
  · simp [hduring, hbegan.symm]
  · -- nothing has been served, in this step neither
    have hev : ∀ c reply, ev ≠ .served c reply := by
      rintro c reply rfl
      exact hnone c reply (by simp)
    rw [hw hev]
    exact hsame fun c reply hserved => hnone c reply (List.mem_append_left _ hserved)

/-- What a request of a tick leaves of the surroundings. -/
theorem answered {k : Ticking} {x : Exchange LineRequest.Answer} {o : LineOutside}
    {rest : Reporter.Doing (Bool × Reporter)} {around : Surroundings}
    (hx : k.rest.advance (Surroundings.answer limit o) s.around = .inl (x, rest, around)) :
    around.inventory = s.around.inventory := by
  have hanswer := Interaction.answer_of_advance hx
  obtain rfl : (Surroundings.answer limit o x.1 s.around).2 = around := congrArg Prod.snd hanswer
  exact Surroundings.answer_inventory limit o x.1 s.around

/-- Only a call changes what is held. -/
theorem Step.inventory_eq (h : Step limit s ev t) (hev : ∀ c reply, ev ≠ .served c reply) :
    t.around.inventory = s.around.inventory := by
  cases h with
  | call c => exact absurd rfl (hev c _)
  | ask o hk hx hrest => exact answered hx
  | finish o hk hx => exact answered hx
  | _ => rfl

/-- **What a step makes of what is held can be seen of it.** -/
theorem Step.mem_inventory_iff (h : Step limit s ev t) {x : Int} :
    x ∈ t.around.inventory.execIds ↔
      ev.Submits x ∨ x ∈ s.around.inventory.execIds ∧ ¬ ev.Cancels x := by
  by_cases hev : ∃ c reply, ev = .served c reply
  · obtain ⟨c, reply, rfl⟩ := hev
    cases h
    exact mem_serve_iff
  · simp only [not_exists] at hev
    rw [h.inventory_eq hev]
    have hnone : ¬ ev.Submits x ∧ ¬ ev.Cancels x := by
      cases ev with
      | served c reply => exact absurd rfl (hev c reply)
      | _ => exact ⟨id, id⟩
    simp [hnone]

variable {host : String} {port : UInt16}

/-- What a tick asks fits what has been seen. -/
theorem Kept.fitsAfter (hs : Kept limit host port tr s) {k : Ticking}
    {x : Exchange LineRequest.Answer} {o : LineOutside}
    {rest : Reporter.Doing (Bool × Reporter)} {around : Surroundings} (hk : s.tick = some k)
    (hx : k.rest.advance (Surroundings.answer limit o) s.around = .inl (x, rest, around))
    (outcome : Option Bool) : (Event.asked x outcome).FitsAfter tr := by
  have hmay : s.reporter.MayAsk k.asked x.1 :=
    (Interaction.Keeps.advance (T := Reporter.ticking limit s.reporter) (o := o) (hs.tick k hk)
      trivial hx).1
  have hregistered := hs.registered
  rw [hk] at hregistered
  obtain ⟨q, a⟩ := x
  cases q with
  | register host port time =>
    intro ev hev hreg
    exact hmay.2.2 (hregistered.mp ⟨ev, hev, hreg⟩)
  | report host port info => exact hregistered.mpr hmay.2.2.1
  | _ => trivial

theorem Kept.fits_step (hs : Kept limit host port tr s) (h : Step limit s ev t) :
    ev.FitsAfter tr := by
  cases h with
  | call c =>
    cases c with
    | cancel id => exact Inventory.status_cancel.trans (hs.faithful.held id)
    | _ => trivial
  | ask o hk hx hrest => exact hs.fitsAfter hk hx none
  | finish o hk hx => exact hs.fitsAfter hk hx (some _)
  | _ => trivial

/-- What is held now has been held during the tick that is carried on. -/
theorem heldDuring_now {v : Inventory} (hbegan : .began ∈ tr)
    (hheld : ∀ x, x ∈ v.execIds ↔ Held tr x) : HeldDuring tr v v.execIds :=
  ⟨tr, [], by simp, hbegan, by simp, v.held.ascending, hheld, fun _ => rfl⟩

/-- The end of a tick tells whether the reporter has registered, and what was asked last. -/
theorem Kept.ended (hs : Kept limit host port tr s) {k : Ticking}
    {x : Exchange LineRequest.Answer} {o : LineOutside} {ok : Bool} {reporter : Reporter}
    {around : Surroundings} (hk : s.tick = some k)
    (hx : k.rest.advance (Surroundings.answer limit o) s.around =
      .inl (x, .done (ok, reporter), around)) :
    s.reporter.Ended (k.asked ++ [x]) (some (ok, reporter)) :=
  (Interaction.Keeps.advance (T := Reporter.ticking limit s.reporter) (o := o) (hs.tick k hk)
    trivial hx).2 around trivial

theorem Kept.registered_step (hs : Kept limit host port tr s) (h : Step limit s ev t) :
    (∃ e ∈ tr ++ [ev], e.Registers) ↔ t.reporter.HasRegistered (t.tick.elim [] (·.asked)) := by
  have happend : (∃ e ∈ tr ++ [ev], e.Registers) ↔
      s.reporter.HasRegistered (s.tick.elim [] (·.asked)) ∨ ev.Registers := by
    rw [← hs.registered]
    simp [or_and_right, exists_or]
  rw [happend]
  cases h with
  | begin hk =>
    rw [hk]
    exact or_iff_left id
  | ask o hk hx hrest =>
    rw [hk]
    exact Reporter.hasRegistered_concat_iff.symm
  | finish o hk hx =>
    -- the reporter remembers what was seen of its tick
    obtain ⟨-, -, hregistered, -⟩ := hs.ended hk hx
    rw [hk]
    refine Reporter.hasRegistered_concat_iff.symm.trans (hregistered.symm.trans ?_)
    simp [Reporter.HasRegistered]
  | _ => exact or_iff_left id

theorem Kept.tick_step (hs : Kept limit host port tr s) (h : Step limit s ev t) :
    ∀ k, t.tick = some k → k.rest.Keeps (Reporter.ticking limit t.reporter)
      (fun h result _ => t.reporter.Ended h result) k.asked t.around := by
  intro k hk
  cases h with
  | begin hnone =>
    obtain rfl := Option.some.inj hk
    exact Reporter.tick_keeps limit s.reporter s.around
  | @ask k' _ _ _ o hk' hx hrest =>
    obtain rfl := Option.some.inj hk
    exact (Interaction.Keeps.advance (T := Reporter.ticking limit s.reporter) (o := o)
      (hs.tick k' hk') trivial hx).2
  | finish o hk' hx => cases hk
  | _ => exact (hs.tick k hk).rely trivial

theorem Kept.read_step (hs : Kept limit host port tr s) (h : Step limit s ev t)
    (hheld : ∀ x, x ∈ t.around.inventory.execIds ↔ Held (tr ++ [ev]) x) :
    ∀ k, t.tick = some k → ∀ ids : List Int, ⟨.held, ids⟩ ∈ k.asked →
      HeldDuring (tr ++ [ev]) t.around.inventory ids := by
  have hsame := h.inventory_eq
  -- what has been read before was held before
  have hbefore : ∀ k, s.tick = some k → ∀ ids : List Int, ⟨.held, ids⟩ ∈ k.asked → ev ≠ .began →
      HeldDuring (tr ++ [ev]) t.around.inventory ids :=
    fun k hk ids hids hev => (hs.read k hk ids hids).append hev hsame
  intro k hk ids hids
  cases h with
  | begin hnone =>
    obtain rfl := Option.some.inj hk
    cases hids
  | @ask k' x rest around o hk' hx hrest =>
    obtain rfl := Option.some.inj hk
    rcases List.mem_append.mp hids with hids | hids
    · exact hbefore k' hk' ids hids nofun
    · have hanswer := Interaction.answer_of_advance hx
      obtain rfl := List.mem_singleton.mp hids
      have hread : s.around.inventory.execIds = ids := congrArg Prod.fst hanswer
      obtain rfl : around.inventory.execIds = ids := by rw [answered hx, hread]
      exact heldDuring_now (List.mem_append_left _ (hs.began k' hk')) hheld
  | finish o hk' hx => cases hk
  | _ => exact hbefore k hk ids hids nofun

theorem Kept.began_step (hs : Kept limit host port tr s) (h : Step limit s ev t) :
    ∀ k, t.tick = some k → .began ∈ tr ++ [ev] := by
  intro k hk
  cases h with
  | begin hnone => simp
  | ask o hk' hx hrest => exact List.mem_append_left _ (hs.began _ hk')
  | finish o hk' hx => cases hk
  | _ => exact List.mem_append_left _ (hs.began k hk)

theorem tick_eq_ask (r : Reporter) : ∃ q next, r.tick = .ask q next := by
  rw [Reporter.tick_eq, Reporter.connect_eq, Reporter.beRegistered_eq, Reporter.report_eq]
  cases r.isConnected <;> cases r.isRegistered <;> exact ⟨_, _, rfl⟩

/-- A tick that is carried on can go on: it does not break off, and it has ended if it is done. -/
theorem Kept.goesOn_step (hs : Kept limit host port tr s) (h : Step limit s ev t) :
    ∀ k, t.tick = some k → ∃ q next, k.rest = .ask q next := by
  have htick := hs.tick_step h
  intro k hk
  cases h with
  | begin hnone =>
    obtain rfl := Option.some.inj hk
    exact tick_eq_ask s.reporter
  | @ask k' x rest around o hk' hx hrest =>
    have hkeeps := htick k hk
    obtain rfl := Option.some.inj hk
    cases rest with
    | done result => exact absurd rfl (hrest result.1 result.2)
    | crash => exact (hkeeps around trivial).elim
    | ask q next => exact ⟨q, next, rfl⟩
  | finish o hk' hx => cases hk
  | _ => exact hs.faithful.goesOn k hk

theorem Kept.address_step (hs : Kept limit host port tr s) (h : Step limit s ev t) :
    t.reporter.host = host ∧ t.reporter.port = port := by
  obtain ⟨hhost, hport⟩ := hs.address
  cases h with
  | finish o hk hx =>
    obtain ⟨hhost', hport', -⟩ := hs.ended hk hx
    exact ⟨hhost'.trans hhost, hport'.trans hport⟩
  | _ => exact ⟨hhost, hport⟩

/-- An executor gives the address that it has. -/
theorem address_of_port {host : String} {port : UInt16} {a : Address}
    (h : Master.executorAddress host port.toNat = .ok a) : a = ⟨host, port⟩ := by
  unfold Master.executorAddress at h
  split at h
  · cases h
  · split at h
    · cases h
      simp
    · cases h

/-- A report of ids that ascend is kept as it is. -/
theorem ofList_ids_of_pairwise {ids : List Int} (h : ids.Pairwise (· < ·)) :
    (IdSet.ofList ids).ids = ids :=
  (IdSet.ofList ids).ascending.eq_of_mem_iff h fun _ => IdSet.mem_ofList

/-- **A tick that succeeds shows the master what was held.** -/
theorem Kept.shown_step (hs : Kept limit host port tr s) {x : Exchange LineRequest.Answer}
    (h : Step limit s (.asked x (some true)) t) :
    Shown host port (tr ++ [.asked x (some true)]) t := by
  cases h with
  | @finish k _ _ reporter around o hk hx =>
    obtain ⟨-, -, -, hlast⟩ := hs.ended hk hx
    obtain ⟨asked, info, e, hasked, he, hread⟩ := hlast rfl
    obtain ⟨rfl, hx'⟩ := List.append_inj' hasked rfl
    obtain rfl := List.singleton_inj.mp hx'
    have hheld := hs.read k hk info.execIds hread
    have hanswer := Interaction.answer_of_advance hx
    -- the report has been entered under the address of the reporter
    obtain ⟨a, at_, ha, hregistry⟩ := Surroundings.registry_of_reported hanswer he
    rw [hs.address.1, hs.address.2] at ha
    obtain rfl := address_of_port ha
    have hentry := s.around.master.registry.get?_step (.report ⟨host, port⟩ at_ info.execIds) ⟨host, port⟩
    rw [← hregistry, RegistryEvent.turn, if_pos rfl] at hentry
    obtain ⟨-, -, -, -, -, hascending, -, -⟩ := id hheld
    refine ⟨_, .of at_ info.execIds, hentry, ?_, ?_⟩
    · cases s.around.master.registry.get? ⟨host, port⟩ <;> rfl
    · rw [Heartbeat.of, ofList_ids_of_pairwise hascending]
      exact hheld.append (by simp) fun _ => answered hx

/-- **A step leaves the agent faithful, and everything kept.** -/
theorem Step.kept (h : Step limit s ev t) (hs : Kept limit host port tr s) :
    Kept limit host port (tr ++ [ev]) t := by
  have hheld : ∀ x, x ∈ t.around.inventory.execIds ↔ Held (tr ++ [ev]) x := by
    intro x
    rw [h.mem_inventory_iff, hs.faithful.held, held_concat_iff]
  have hfits : ∀ pre e post, tr ++ [ev] = pre ++ e :: post → e.FitsAfter pre := by
    intro pre e post heq
    rcases append_cons_cases heq with ⟨-, rfl, rfl⟩ | ⟨mid, -, hmid⟩
    · exact hs.fits_step h
    · exact hs.faithful.fits pre e mid hmid
  have hshown : ∀ x, (tr ++ [ev]).getLast? = some (.asked x (some true)) →
      Shown host port (tr ++ [ev]) t := by
    intro x hx
    obtain rfl := Option.some.inj ((List.getLast?_concat ..).symm.trans hx)
    exact hs.shown_step h
  exact ⟨⟨hheld, t.around.inventory.held.ascending, hfits, hshown, hs.goesOn_step h⟩,
    hs.address_step h, hs.registered_step h, hs.tick_step h, hs.began_step h,
    hs.read_step h hheld⟩

theorem kept_start (limit : Nat) (host : String) (port : UInt16) (store : Store) :
    Kept limit host port [] (start host port store) where
  faithful := by
    refine ⟨fun x => ?_, .nil, by simp, by simp, nofun⟩
    simp [start, Inventory.empty, Inventory.execIds, IdSet.empty, Held]
  address := ⟨rfl, rfl⟩
  registered := by simp [start, Reporter.start, Reporter.HasRegistered]
  tick := nofun
  began := nofun
  read := nofun

/-- **An agent reports what it holds**, in every run of its calls, of ticks that fail at any request,
and of evictions and restarts of its master. It holds exactly what has been submitted with a category
that is not blank after it was last cancelled with success, and a cancel succeeds exactly for what it
holds. Right after every tick that succeeds the registry has the address of the agent, evicted since
it registered or not, with a heartbeat of what the agent has held during that tick; and the reporter
registers only until that has first succeeded. -/
theorem reports_held (limit : Nat) (host : String) (port : UInt16) (store : Store)
    (ms : List Move) :
    Faithful host port (run limit ms (start host port store)).1
      (run limit ms (start host port store)).2 := by
  have hkept : Kept limit host port (run limit ms (start host port store)).1
      (run limit ms (start host port store)).2 := by
    apply run_induction (P := Kept limit host port)
    · exact kept_start limit host port store
    · exact fun hs h => h.kept hs
  exact hkept.faithful

/-- An agent has reported what it holds when it is evicted; it is called, and reports again. -/
def evictedBetween : List Move :=
  let o : LineOutside := ⟨⟨5, 0⟩, true, true, true, ⟨⟨6, 0⟩, .ok ()⟩⟩
  [.call (.submit 2 "short"), .begin] ++ List.replicate 6 (.work o) ++
    [.registry (.evict ⟨"e", 9000⟩), .call (.cancel 2), .call (.submit 1 "short"), .begin] ++
    List.replicate 3 (.work o)

set_option maxRecDepth 100000 in
/-- The agent is known again without a second registration, and as of its last report. -/
theorem reports_held_evictedBetween :
    let p := run 10 evictedBetween (start "e" 9000 .empty)
    p.2.around.master.registry.get? ⟨"e", 9000⟩ =
        some ⟨⟨"e", 9000⟩, ⟨5, 0⟩, some ⟨⟨5, 0⟩, ⟨[1], by decide⟩⟩⟩ ∧
      Shown "e" 9000 p.1 p.2 :=
  ⟨rfl, (reports_held 10 "e" 9000 .empty evictedBetween).shown _ rfl⟩

end Reporting

end WorkflowScheduler
