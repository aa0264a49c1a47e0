import WorkflowScheduler.Proofs.Installing

/-!
# Calls on triggers at the same time

Any number of calls may set, delete and restore schedules at the same time, and the triggers may be
shut down meanwhile. A call that installs a trigger spawns its task with one request and enters it
with the next one; between the two the task already runs, and any other call may act on its key. No
task is lost on the way: until it is entered it is in the hand of its call, and what leaves the table
is ended.

## Main definitions

* `Master.inHand?`: the task that a call has spawned and not yet entered
* `Master.MayAsk`: what a call may ask with a task in hand, or with none
* `ScheduleCall`, `Calling`: a call, and a call under way
* `Scheduling`, `Scheduling.step`: calls on one table of triggers, step by step
* `TriggerTable.Drops`: the triggers of a project are removed from a table

## Main results

* `ScheduleCall.operation_keeps`: every call enters what it spawns
* `Site.accounts_answer`: a request leaves every task accounted for
* `Scheduling.Kept.step`: a step leaves every task accounted for
* `Scheduling.live_tasks_held`: where the tasks are that will still fire
-/

namespace WorkflowScheduler

/-! ## Tasks in hand -/

namespace Master

/-- The task that an exchange has spawned, with the key of its trigger. -/
def spawned? : Exchange Request.Answer → Option (TriggerKey × Nat)
  | ⟨.spawnTrigger g, id⟩ => some (g.key, id)
  | _ => none

/-- **The task in hand**: the last request has spawned it. -/
def inHand? (h : History) : Option (TriggerKey × Nat) :=
  h.getLast?.bind spawned?

@[simp] theorem inHand?_nil : inHand? [] = none := rfl

@[simp] theorem inHand?_concat (h : History) (x : Exchange Request.Answer) :
    inHand? (h ++ [x]) = spawned? x := by
  simp [inHand?]

/-- A request that neither spawns nor enters a task. -/
def IsOrdinary : Request → Prop
  | .spawnTrigger _ => False
  | .enterTrigger _ _ => False
  | _ => True

theorem spawned?_of_isOrdinary {r : Request} (hr : IsOrdinary r) (a : r.Answer) :
    spawned? ⟨r, a⟩ = none := by
  cases r with
  | spawnTrigger g => exact hr.elim
  | _ => rfl

/-- **What may be asked**: a task in hand is entered at once under its own key, and nothing else ever
is; a trigger that is spawned has the key of its workflow under some project. -/
inductive MayAsk : Option (TriggerKey × Nat) → Request → Prop
  | enter (k : TriggerKey) (id : Nat) : MayAsk (some (k, id)) (.enterTrigger k id)
  | spawn {g : Trigger} {projectId : Int} (hg : g.key = .ofFlow projectId g.schedule.flowId) :
      MayAsk none (.spawnTrigger g)
  | ordinary {r : Request} (hr : IsOrdinary r) : MayAsk none r

/-- The terms of a call, whatever the others do. -/
def calling : Terms Request.Answer Site Outside where
  answer := Site.answer
  rely _ _ := True
  may h r _ := MayAsk (inHand? h) r
  rely_trans _ _ := trivial
  rely_self _ := trivial

/-- A call ends with nothing in hand. -/
def EmptyHanded {α : Type} (h : History) (_ : Option α) (_ : Site) : Prop :=
  inHand? h = none

/-! ## What calls ask -/

variable {h : History} {projectId flowId : Int} {c : Schedule}

theorem cronExpression_bind {α : Type} (text : String) (f : CronExpression → Operation α) :
    (cronExpression text >>= f).run = match CronExpression.parse text with
      | .ok e => (f e).run
      | .error fault => .done (.error (.ofCronFault text fault)) := by
  unfold cronExpression
  cases CronExpression.parse text <;> rfl

theorem setSchedule_eq (projectId flowId : Int) :
    (setSchedule projectId flowId).run = .ask (.store (.schedule flowId)) fun
      | .ok none => .done (.error (.scheduleNotFound flowId))
      | .ok (some c) => match CronExpression.parse c.crontab with
        | .ok e => (install (.ofFlow projectId flowId) c e).run
        | .error fault => .done (.error (.ofCronFault c.crontab fault))
      | .error fault => .done (.error (.store fault)) :=
  congrArg (Interaction.ask _) <| funext fun
    | .ok none => rfl
    | .ok (some c) => cronExpression_bind c.crontab (install (.ofFlow projectId flowId) c)
    | .error _ => rfl

theorem installEach_cons (c : Schedule) (cs : List Schedule) :
    (installEach (c :: cs)).run = match CronExpression.parse c.crontab with
      | .error _ => (installEach cs).run
      | .ok e => .ask (.spawnTrigger ⟨.ofFlow c.projectId c.flowId, c, e⟩) fun (id : Nat) =>
        .ask (.enterTrigger (.ofFlow c.projectId c.flowId) id) fun _ =>
          (installEach cs).run.bind fun n => .done (n.map (· + 1)) := by
  conv => lhs; unfold installEach
  cases CronExpression.parse c.crontab with
  | error fault => rfl
  | ok e =>
    refine congrArg (Interaction.ask _) <| funext fun id =>
      congrArg (Interaction.ask _) <| funext fun _ => ?_
    change (installEach cs).run.bind (ExceptT.bindCont fun n => pure (n + 1)) = _
    congr 1
    funext n
    cases n <;> rfl

theorem restore_eq :
    restore.run = .ask (.store .onlineSchedules) fun
      | .ok cs => (installEach cs).run
      | .error fault => .done (.error (.store fault)) :=
  congrArg (Interaction.ask _) <| funext fun
    | .ok _ => rfl
    | .error _ => rfl

variable {α : Type} {s : Site}

theorem done_keeps (hh : inHand? h = none) (a : α) :
    (Interaction.done a : Program α).Keeps calling EmptyHanded h s :=
  fun _ _ => hh

/-- An ordinary request, and what is done with its answer. -/
theorem ordinary_keeps {r : Request} {next : r.Answer → Program α} (hh : inHand? h = none)
    (hr : IsOrdinary r)
    (hnext : ∀ t o k, inHand? k = none →
      (next (Site.answer o r t).1).Keeps calling EmptyHanded k (Site.answer o r t).2) :
    (Interaction.ask r next).Keeps calling EmptyHanded h s := by
  refine fun t _ => ⟨?_, fun o => hnext t o _ ?_⟩
  · change MayAsk (inHand? h) r
    rw [hh]
    exact .ordinary hr
  · rw [inHand?_concat]
    exact spawned?_of_isOrdinary hr _

/-- **What is spawned is entered with the next request**, whatever is done after that. -/
theorem spawn_keeps {g : Trigger} {next : Program α} (hh : inHand? h = none)
    (hg : g.key = .ofFlow projectId g.schedule.flowId)
    (hnext : ∀ t k, inHand? k = none → next.Keeps calling EmptyHanded k t) :
    (Interaction.ask (.spawnTrigger g) fun (id : Nat) =>
      .ask (.enterTrigger g.key id) fun _ => next : Program α).Keeps calling EmptyHanded h s := by
  refine fun t _ => ⟨?_, fun o u _ => ⟨?_, fun o' => hnext _ _ ?_⟩⟩
  · change MayAsk (inHand? h) _
    rw [hh]
    exact .spawn hg
  · change MayAsk (inHand? (h ++ [_])) _
    rw [inHand?_concat]
    exact .enter g.key _
  · rw [inHand?_concat]
    rfl

theorem install_keeps {k : TriggerKey} {e : CronExpression} (hh : inHand? h = none)
    (hk : k = .ofFlow projectId c.flowId) :
    (install k c e).run.Keeps calling EmptyHanded h s := by
  have hinstall : (install k c e).run = .ask (.spawnTrigger ⟨k, c, e⟩) fun (id : Nat) =>
      .ask (.enterTrigger k id) fun _ => .done (.ok ()) := rfl
  rw [hinstall]
  exact spawn_keeps (g := ⟨k, c, e⟩) hh hk fun _ _ hk' => done_keeps hk' _

theorem setSchedule_keeps (hh : inHand? h = none) (projectId flowId : Int) :
    (setSchedule projectId flowId).run.Keeps calling EmptyHanded h s := by
  rw [setSchedule_eq]
  refine ordinary_keeps hh trivial fun t o k hk => ?_
  have hanswer : (t.answer o (.store (.schedule flowId))).1 = .ok (t.store.schedule? flowId) := rfl
  rw [hanswer]
  cases hc : t.store.schedule? flowId with
  | none => exact done_keeps hk _
  | some c =>
    simp only
    cases CronExpression.parse c.crontab with
    | error fault => exact done_keeps hk _
    | ok e =>
      have hkey : TriggerKey.ofFlow projectId flowId = .ofFlow projectId c.flowId := by
        rw [Store.flowId_of_schedule? hc]
      exact install_keeps hk hkey

theorem installEach_keeps (hh : inHand? h = none) (cs : List Schedule) :
    (installEach cs).run.Keeps calling EmptyHanded h s := by
  induction cs generalizing h s with
  | nil => exact done_keeps hh _
  | cons c cs ih =>
    rw [installEach_cons]
    cases CronExpression.parse c.crontab with
    | error fault => exact ih hh
    | ok e =>
      refine spawn_keeps (g := ⟨.ofFlow c.projectId c.flowId, c, e⟩) hh rfl fun t k hk => ?_
      -- what is counted afterwards asks for nothing
      exact (ih hk).bind (fun n k t hk' => done_keeps (hk' t trivial) _) fun _ _ hk' => hk'

theorem restore_keeps (hh : inHand? h = none) : restore.run.Keeps calling EmptyHanded h s := by
  rw [restore_eq]
  exact ordinary_keeps hh trivial fun t o k hk => installEach_keeps hk _

end Master

/-! ## Calls -/

/-- **A call on triggers.** -/
inductive ScheduleCall where
  | set (projectId flowId : Int)
  | delete (projectId flowId : Int)
  | deleteAll (projectId : Int)
  | restore

namespace ScheduleCall

/-- What a call is answered if it succeeds. -/
def Value : ScheduleCall → Type
  | .set _ _ => Unit
  | .delete _ _ => Bool
  | .deleteAll _ => Nat
  | .restore => Nat

/-- What is done at a call. -/
def operation : (c : ScheduleCall) → Operation c.Value
  | .set p f => Master.setSchedule p f
  | .delete p f => Master.deleteSchedule p f
  | .deleteAll p => Master.deleteSchedules p
  | .restore => Master.restore

/-- **Every call enters what it spawns**, at once and under its own key. -/
theorem operation_keeps (c : ScheduleCall) (s : Site) :
    c.operation.run.Keeps Master.calling Master.EmptyHanded [] s := by
  cases c with
  | set p f => exact Master.setSchedule_keeps rfl p f
  | delete p f => exact Master.ordinary_keeps rfl trivial fun _ _ _ hk => Master.done_keeps hk _
  | deleteAll p => exact Master.ordinary_keeps rfl trivial fun _ _ _ hk => Master.done_keeps hk _
  | restore => exact Master.restore_keeps rfl

end ScheduleCall

/-- **A call under way**: what it has asked, and what is left of it. -/
structure Calling where
  call : ScheduleCall
  asked : History
  rest : Program (Except MasterError call.Value)

namespace Calling

/-- A call that begins. -/
def start (c : ScheduleCall) : Calling :=
  ⟨c, [], c.operation.run⟩

/-- The task that a call has spawned and not yet entered. -/
def inHand? (c : Calling) : Option (TriggerKey × Nat) :=
  Master.inHand? c.asked

/-- A call that has something left to ask. -/
def InProgress (c : Calling) : Prop :=
  ∃ r next, c.rest = .ask r next

/-- A call keeps to its terms from here on. -/
def IsKept (c : Calling) : Prop :=
  ∀ s, c.rest.Keeps Master.calling Master.EmptyHanded c.asked s

variable {c : Calling} {s t : Site} {o : Outside}

/-- The one request of a call that deletes all triggers of a project. -/
def IsDeletion (c : Calling) : Prop :=
  ∀ p asked rest, c = ⟨.deleteAll p, asked, rest⟩ →
    rest = (Master.deleteSchedules p).run ∨ ∃ n, rest = .done (.ok n)

end Calling

/-! ## What a request does to the tasks -/

/-- **A request leaves every task accounted for**: what is in hand is entered, what is spawned is in
hand, and what is removed is ended. -/
theorem Site.accounts_answer {s : Site} {r : Request} {hand : Option (TriggerKey × Nat)}
    {l : List (TriggerKey × Nat)} (hr : Master.MayAsk hand r)
    (hs : s.triggers.Accounts (hand.toList ++ l)) (o : Outside) :
    (s.answer o r).2.triggers.Accounts
      ((Master.spawned? ⟨r, (s.answer o r).1⟩).toList ++ l) := by
  cases hr with
  | enter k id => exact TriggerTable.Accounts.enter hs
  | spawn hg => exact hs.spawn o.now hg
  | ordinary hr =>
    rw [Master.spawned?_of_isOrdinary hr]
    cases r with
    | spawnTrigger g => exact hr.elim
    | enterTrigger k id => exact hr.elim
    | removeTrigger k =>
      change (s.triggers.remove k).2.Accounts _
      rw [TriggerTable.remove_eq]
      exact hs.letGo _
    | removeTriggers group =>
      change (s.triggers.removeGroup group).2.Accounts _
      rw [TriggerTable.removeGroup_eq]
      exact hs.letGo _
    | _ => exact hs

/-- **The triggers of a project are removed from a table**: exactly those under a key that was made
for the project, and of the tasks exactly theirs are ended. -/
structure TriggerTable.Drops (t u : TriggerTable) (projectId : Int)
    (gone : List (TriggerKey × Nat)) : Prop where
  held : t.held.Perm (gone ++ u.held)
  made : ∀ h ∈ gone, ∃ flowId, h.1 = .ofFlow projectId flowId
  others : ∀ h ∈ u.held, ∀ flowId, h.1 ≠ .ofFlow projectId flowId
  tasks : u.tasks = t.tasks.map fun k =>
    if (k.trigger.key, k.id) ∈ gone then k.ended else k

/-- A key that is held is of the group of a project if it was made for this project. -/
theorem TriggerTable.Accounts.group_eq_iff {t : TriggerTable} {l : List (TriggerKey × Nat)}
    (h : t.Accounts l) {a : TriggerKey × Nat} (ha : a ∈ t.held) (projectId : Int) :
    a.1.group = TriggerKey.groupOf projectId ↔ ∃ flowId, a.1 = .ofFlow projectId flowId := by
  obtain ⟨k, hk, -, hkey, -⟩ := h.placed a (List.mem_append_left _ ha)
  obtain ⟨q, hq⟩ := h.keyed k hk
  rw [hkey] at hq
  constructor
  · intro hgroup
    rw [hq] at hgroup
    exact ⟨_, TriggerKey.groupOf_injective hgroup ▸ hq⟩
  · rintro ⟨f, hf⟩
    rw [hf]
    rfl

/-- **To remove the group of a project is to remove its triggers.** -/
theorem TriggerTable.Accounts.drops_removeGroup {t : TriggerTable} {l : List (TriggerKey × Nat)}
    (h : t.Accounts l) (projectId : Int) :
    ∃ gone, t.Drops (t.removeGroup (TriggerKey.groupOf projectId)).2 projectId gone ∧
      (t.removeGroup (TriggerKey.groupOf projectId)).1 = gone.length := by
  refine ⟨t.held.filter fun a => a.1.group = TriggerKey.groupOf projectId, ?_, rfl⟩
  rw [removeGroup_eq]
  constructor
  · exact (List.filter_append_perm _ _).symm
  · intro a ha
    obtain ⟨ha, hgroup⟩ := List.mem_filter.mp ha
    exact (h.group_eq_iff ha projectId).mp (of_decide_eq_true hgroup)
  · intro a ha f hf
    obtain ⟨ha, hgroup⟩ := List.mem_filter.mp ha
    simp [(h.group_eq_iff ha projectId).mpr ⟨f, hf⟩] at hgroup
  · refine List.map_congr_left fun k hk => if_congr ?_ rfl rfl
    rw [holdsUnder_iff hk, List.mem_filter]

/-! ## Calls at the same time -/

/-- **Calls on one table of triggers.** -/
structure Scheduling where
  site : Site
  calls : List Calling

namespace Scheduling

/-- What may happen next. -/
inductive Move where
  /-- A call begins. -/
  | call (c : ScheduleCall)
  /-- One of the calls makes its next request. -/
  | work (i : Nat) (o : Outside)
  /-- All triggers are shut down. -/
  | shutdown
  /-- A task fires and looks at the clock. -/
  | fire (task : Nat) (now : Instant)
  /-- Others change anything but the triggers. -/
  | edit (store : Store) (registry : Registry) (queue : Queue)

/-- No call has begun, and nothing is installed. -/
def start (s : Site) : Scheduling :=
  ⟨{ s with triggers := .empty }, []⟩

/-- **One step.** A call that has been answered makes no more requests. -/
def step : Move → Scheduling → Scheduling
  | .call c, s => { s with calls := s.calls ++ [.start c] }
  | .work i o, s =>
    match s.calls[i]? with
    | none => s
    | some c =>
      match c.rest.advance (Site.answer o) s.site with
      | .inl (x, rest, site) => ⟨site, s.calls.set i { c with asked := c.asked ++ [x], rest := rest }⟩
      | .inr _ => s
  | .shutdown, s => { s with site := { s.site with triggers := s.site.triggers.clear } }
  | .fire task now, s =>
    { s with site := { s.site with triggers := s.site.triggers.fire task now } }
  | .edit store registry queue, s => { s with site := ⟨store, registry, queue, s.site.triggers⟩ }

/-- **The state after a run.** -/
def after (ms : List Move) (s : Scheduling) : Scheduling :=
  ms.foldl (fun s m => step m s) s

/-- The tasks in the hand of some call. -/
def inHand (s : Scheduling) : List (TriggerKey × Nat) :=
  s.calls.filterMap Calling.inHand?

/-- **Every task is accounted for**: it is held, or in the hand of one of the calls, or it will fire no
more; and every call enters what it has in hand. -/
structure Kept (s : Scheduling) : Prop where
  tasks : s.site.triggers.Accounts s.inHand
  calls : ∀ c ∈ s.calls, c.IsKept
  deletions : ∀ c ∈ s.calls, c.IsDeletion

variable {s : Scheduling} {m : Move} {i : Nat} {o : Outside} {c d : Calling}

/-- The tasks in hand when one call is replaced: those of the other calls stay. -/
theorem inHand_set (hc : s.calls[i]? = some c) :
    ∃ l, s.inHand.Perm (c.inHand?.toList ++ l) ∧
      ∀ site d, (⟨site, s.calls.set i d⟩ : Scheduling).inHand.Perm (d.inHand?.toList ++ l) := by
  obtain ⟨hi, rfl⟩ := List.getElem?_eq_some_iff.mp hc
  have hset : ∀ site d, (⟨site, s.calls.set i d⟩ : Scheduling).inHand.Perm
      (d.inHand?.toList ++ ((s.calls.take i).filterMap Calling.inHand? ++
        (s.calls.drop (i + 1)).filterMap Calling.inHand?)) := by
    intro site d
    unfold inHand
    rw [List.set_eq_take_append_cons_drop, if_pos hi, List.filterMap_append]
    cases hd : d.inHand? with
    | none =>
      rw [List.filterMap_cons_none hd]
      exact .rfl
    | some a =>
      rw [List.filterMap_cons_some hd]
      exact List.perm_middle
  refine ⟨_, ?_, hset⟩
  have hsame := hset s.site s.calls[i]
  rwa [List.set_getElem_self] at hsame

/-- **What a call does when it is its turn**: it makes a request, or it has ended before. -/
theorem work_cases (hc : s.calls[i]? = some c) (o : Outside) :
    (∃ r next, c.rest = .ask r next ∧ step (.work i o) s =
      ⟨(s.site.answer o r).2, s.calls.set i ⟨c.call, c.asked ++ [⟨r, (s.site.answer o r).1⟩],
        next (s.site.answer o r).1⟩⟩) ∨
    ¬ c.InProgress ∧ step (.work i o) s = s := by
  unfold Calling.InProgress
  cases hrest : c.rest with
  | done a =>
    refine .inr ⟨by simp, ?_⟩
    simp [step, hc, hrest, Interaction.advance]
  | crash =>
    refine .inr ⟨by simp, ?_⟩
    simp [step, hc, hrest, Interaction.advance]
  | ask r next =>
    refine .inl ⟨r, next, rfl, ?_⟩
    simp only [step, hc, hrest, Interaction.advance]

theorem kept_start (s : Site) : (start s).Kept where
  tasks := TriggerTable.orderly_iff.mp TriggerTable.orderly_empty
  calls := by simp [start]
  deletions := by simp [start]

/-- **A request of a call leaves every task accounted for.** -/
theorem Kept.ask (hk : s.Kept) (hc : s.calls[i]? = some c) {r : Request}
    {next : r.Answer → Program (Except MasterError c.call.Value)} (hrest : c.rest = .ask r next)
    (o : Outside) :
    (⟨(s.site.answer o r).2, s.calls.set i ⟨c.call, c.asked ++ [⟨r, (s.site.answer o r).1⟩],
      next (s.site.answer o r).1⟩⟩ : Scheduling).Kept := by
  have hmem := List.mem_of_getElem? hc
  have hkept := hk.calls c hmem
  unfold Calling.IsKept at hkept
  rw [hrest] at hkept
  refine ⟨?_, fun d hd => ?_, fun d hd => ?_⟩
  · -- the request moves at most one task between the table and the hand of the call
    obtain ⟨l, hbefore, hafter⟩ := inHand_set hc
    have hmay : Master.MayAsk c.inHand? r := (hkept s.site s.site trivial).1
    have htasks := Site.accounts_answer hmay (hk.tasks.perm hbefore) o
    refine htasks.perm (.symm ?_)
    have hhand := hafter (s.site.answer o r).2 ⟨c.call, c.asked ++ [⟨r, (s.site.answer o r).1⟩],
      next (s.site.answer o r).1⟩
    rwa [Calling.inHand?, Master.inHand?_concat] at hhand
  · rcases List.mem_or_eq_of_mem_set hd with hd | rfl
    · exact hk.calls d hd
    · intro t
      exact ((hkept s.site s.site trivial).2 o).rely trivial
  · rcases List.mem_or_eq_of_mem_set hd with hd | rfl
    · exact hk.deletions d hd
    · -- the one request of a deletion has now been made
      obtain ⟨call, before, rest⟩ := c
      rintro p asked rest' heq
      cases heq
      rcases hk.deletions _ hmem p before rest rfl with hrun | ⟨n, hdone⟩
      · rw [hrun] at hrest
        cases hrest
        exact .inr ⟨_, rfl⟩
      · rw [hdone] at hrest
        cases hrest

/-- **A step leaves every task accounted for.** -/
theorem Kept.step (hk : s.Kept) (m : Move) : (step m s).Kept := by
  cases m with
  | call c =>
    refine ⟨?_, fun d hd => ?_, fun d hd => ?_⟩
    · have hhand : inHand ⟨s.site, s.calls ++ [.start c]⟩ = s.inHand := by
        simp [inHand, Calling.inHand?, Calling.start]
      change s.site.triggers.Accounts (inHand ⟨s.site, s.calls ++ [.start c]⟩)
      rw [hhand]
      exact hk.tasks
    · rcases List.mem_append.mp hd with hd | hd
      · exact hk.calls d hd
      · obtain rfl := List.mem_singleton.mp hd
        exact c.operation_keeps
    · rcases List.mem_append.mp hd with hd | hd
      · exact hk.deletions d hd
      · obtain rfl := List.mem_singleton.mp hd
        rintro p asked rest ⟨⟩
        exact .inl rfl
  | work i o =>
    cases hc : s.calls[i]? with
    | none => simpa only [Scheduling.step, hc] using hk
    | some c =>
      rcases work_cases hc o with ⟨r, next, hrest, hstep⟩ | ⟨-, hstep⟩
      · rw [hstep]
        exact hk.ask hc hrest o
      · rwa [hstep]
  | shutdown =>
    refine ⟨?_, hk.calls, hk.deletions⟩
    change s.site.triggers.clear.Accounts s.inHand
    rw [TriggerTable.clear_eq]
    exact hk.tasks.letGo _
  | fire task now => exact ⟨hk.tasks.fire task now, hk.calls, hk.deletions⟩
  | edit store registry queue => exact ⟨hk.tasks, hk.calls, hk.deletions⟩

/-- **A run leaves every task accounted for.** -/
theorem Kept.after (hk : s.Kept) (ms : List Move) : (after ms s).Kept := by
  induction ms generalizing s with
  | nil => exact hk
  | cons m ms ih => exact ih (hk.step m)

/-- **A call that deletes the triggers of a project** does so with its one request. -/
theorem Kept.delete (hk : s.Kept) {p : Int} {asked : History}
    {rest : Program (Except MasterError Nat)} (hc : s.calls[i]? = some ⟨.deleteAll p, asked, rest⟩)
    (hrest : Calling.InProgress ⟨.deleteAll p, asked, rest⟩) (o : Outside) :
    ∃ gone, s.site.triggers.Drops (Scheduling.step (.work i o) s).site.triggers p gone ∧
      (Scheduling.step (.work i o) s).calls[i]? =
        some ⟨.deleteAll p, asked ++ [⟨.removeTriggers (TriggerKey.groupOf p), gone.length⟩],
          .done (.ok gone.length)⟩ := by
  rcases hk.deletions _ (List.mem_of_getElem? hc) p asked rest rfl with rfl | ⟨n, rfl⟩
  · obtain ⟨gone, hdrops, hn⟩ := hk.tasks.drops_removeGroup p
    have hstep : Scheduling.step (.work i o) s =
        ⟨{ s.site with triggers := (s.site.triggers.removeGroup (TriggerKey.groupOf p)).2 },
          s.calls.set i ⟨.deleteAll p, asked ++ [⟨.removeTriggers (TriggerKey.groupOf p),
            (s.site.triggers.removeGroup (TriggerKey.groupOf p)).1⟩],
            .done (.ok (s.site.triggers.removeGroup (TriggerKey.groupOf p)).1)⟩⟩ := by
      simp only [Scheduling.step, hc]
      rfl
    rw [hstep]
    refine ⟨gone, hdrops, ?_⟩
    rw [List.getElem?_set_self (List.getElem?_eq_some_iff.mp hc).1, hn]
  · obtain ⟨r, next, heq⟩ := hrest
    cases heq

/-- Two calls have read the schedule of one workflow and spawned a task for it. -/
def bothSpawned : List Move :=
  let o : Outside := ⟨⟨0, 0⟩, .ok ()⟩
  [.call (.set 10 1), .call (.set 10 1), .work 0 o, .work 1 o, .work 0 o, .work 1 o]

/-- Both tasks run under one key, until the one that is entered last ends the other. -/
example :
    let s := after bothSpawned (start Site.oneSchedule)
    let t := after [.work 1 ⟨⟨0, 0⟩, .ok ()⟩, .work 0 ⟨⟨0, 0⟩, .ok ()⟩] s
    s.site.triggers.tasks.map Task.isLive = [true, true] ∧ s.site.triggers.held = [] ∧
      t.site.triggers.tasks.map Task.isLive = [true, false] ∧
      t.site.triggers.held = [(.ofFlow 10 1, 0)] := by
  decide +kernel

end Scheduling

end WorkflowScheduler
