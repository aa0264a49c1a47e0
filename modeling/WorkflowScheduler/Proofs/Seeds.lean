import WorkflowScheduler.Proofs.Scheduling
import WorkflowScheduler.Proofs.StoredRecords

/-!
# Stores filled from a seed

A seed may list an id as often as it likes. Its entries are put into the store one after the other,
each in the place of an earlier one with its id, so that the last one counts: for what is looked up,
for what is in force, and so for the triggers that are installed when the schedules are restored. A
schedule that was in force further up in the seed and is not in its last entry has no trigger.

## Main definitions

* `IsLastOf`: the last entry of a list under a key
* `Store.put`, `Store.filled`: a list filled entry by entry
* `Schedule.trigger?`, `Store.restorable`: the triggers that are to be restored
* `Master.Installs`: requests by which triggers are installed
* `TriggerTable.Installed`: what a table has become by then
* `Master.Restored`: what a restore answers, asks and leaves behind

## Main results

* `Store.find?_filled`: what is found is the last entry
* `Store.load_empty`: a store after a seed has been loaded
* `Store.pairwise_onlineSchedules`: the schedules in force are ascending
* `Master.installEach_yields`: what is asked to install schedules, whatever is answered
* `TriggerTable.Installed.cons`: one trigger after another
* `Master.restored`: what a restore does, whatever others do
* `Store.last_entry_counts`: what a store filled from a seed holds and restores
-/

namespace WorkflowScheduler

/-! ## Lists filled entry by entry -/

section Filling

variable {α : Type} {key : α → Int} {l : List α} {k : Int} {x : α}

/-- **The last entry of a list under a key.** -/
def IsLastOf (key : α → Int) (l : List α) (k : Int) (x : α) : Prop :=
  ∃ before after, l = before ++ x :: after ∧ key x = k ∧ ∀ y ∈ after, key y ≠ k

theorem isLastOf_iff : IsLastOf key l k x ↔ (l.reverse.find? fun y => key y = k) = some x := by
  rw [List.find?_eq_some_iff_append]
  constructor
  · rintro ⟨before, after, rfl, hkey, hafter⟩
    exact ⟨by simpa using hkey, after.reverse, before.reverse, by simp, by simpa using hafter⟩
  · rintro ⟨hkey, after, before, heq, hafter⟩
    refine ⟨before.reverse, after.reverse, ?_, by simpa using hkey, by simpa using hafter⟩
    rw [← List.reverse_reverse l, heq]
    simp

namespace Store

/-- Put an entry in the place of one with the same key. -/
def put (key : α → Int) (l : List α) (x : α) : List α :=
  x :: l.filter fun y => key y ≠ key x

/-- A list after the entries of another one have been put into it. -/
def filled (key : α → Int) (l : List α) : List α :=
  l.foldl (put key) []

theorem filled_concat (key : α → Int) (l : List α) (x : α) :
    filled key (l ++ [x]) = put key (filled key l) x :=
  List.foldl_concat ..

/-- What an entry that is put does to a lookup. -/
theorem find?_put (key : α → Int) (l : List α) (x : α) (k : Int) :
    ((put key l x).find? fun y => key y = k) =
      if key x = k then some x else l.find? fun y => key y = k := by
  unfold put
  rw [List.find?_cons]
  by_cases hkey : key x = k
  · simp [hkey]
  · simp only [hkey, decide_false, if_false, List.find?_filter]
    congr 1
    funext y
    -- what is filtered out has another key than is looked for
    by_cases hy : key y = k
    · simp [hy, Ne.symm hkey]
    · simp [hy]

/-- **What is found is the last entry.** -/
theorem find?_filled (key : α → Int) (l : List α) (k : Int) :
    ((filled key l).find? fun y => key y = k) = l.reverse.find? fun y => key y = k := by
  induction l using List.reverseRecOn with
  | nil => rfl
  | append_singleton l x ih =>
    rw [filled_concat, find?_put, ih, List.reverse_concat, List.find?_cons]
    by_cases hkey : key x = k <;> simp [hkey]

theorem nodup_filled (key : α → Int) (l : List α) : ((filled key l).map key).Nodup := by
  induction l using List.reverseRecOn with
  | nil => exact List.nodup_nil
  | append_singleton l x ih =>
    rw [filled_concat, put, List.map_cons, List.nodup_cons]
    refine ⟨?_, ih.sublist (List.filter_sublist.map key)⟩
    simp [List.mem_map]

theorem mem_filled : x ∈ filled key l ↔ IsLastOf key l (key x) x := by
  rw [isLastOf_iff, ← find?_filled]
  constructor
  · intro hx
    cases hfind : (filled key l).find? fun y => key y = key x with
    | none => simpa using List.find?_eq_none.mp hfind x hx
    | some y =>
      have hkey : key y = key x := by simpa using List.find?_some hfind
      have hy := List.mem_of_find?_eq_some hfind
      rw [List.inj_on_of_nodup_map (nodup_filled key l) hy hx hkey]
  · exact List.mem_of_find?_eq_some

/-- **A lookup gives the last entry of a list**, and nothing under a key that is not listed. -/
structure GivesLast (key : α → Int) (l : List α) (lookup : Int → Option α) : Prop where
  found : ∀ k x, lookup k = some x ↔ IsLastOf key l k x
  missing : ∀ k, lookup k = none ↔ ∀ x ∈ l, key x ≠ k

theorem givesLast_filled (key : α → Int) (l : List α) :
    GivesLast key l fun k => (filled key l).find? fun y => key y = k where
  found k x := by rw [find?_filled, isLastOf_iff]
  missing k := by simp [find?_filled]

end Store

end Filling

/-! ## Stores -/

namespace Store

/-- **A store after a seed has been loaded.** -/
theorem load_empty (seed : Seed) :
    empty.load seed =
      { empty with
        master := seed.master
        workflows := filled Workflow.id seed.workflows
        schedules := filled Schedule.flowId seed.schedules
        adHocs := filled AdHoc.id seed.adHocs } := by
  have hworkflows (s : Store) : seed.workflows.foldl putWorkflow s =
      { s with workflows := seed.workflows.foldl (put Workflow.id) s.workflows } :=
    List.foldl_hom (fun m => { s with workflows := m }) fun _ _ => rfl
  have hschedules (s : Store) : seed.schedules.foldl putSchedule s =
      { s with schedules := seed.schedules.foldl (put Schedule.flowId) s.schedules } :=
    List.foldl_hom (fun m => { s with schedules := m }) fun _ _ => rfl
  have hadHocs (s : Store) : seed.adHocs.foldl putAdHoc s =
      { s with adHocs := seed.adHocs.foldl (put AdHoc.id) s.adHocs } :=
    List.foldl_hom (fun m => { s with adHocs := m }) fun _ _ => rfl
  unfold load
  simp only [hworkflows, hschedules, hadHocs, empty, filled, Option.or_none]

/-- A store is filled from a file if the content of the file is text that holds a seed. -/
theorem ofSeedFile_eq_ok_iff {bytes : ByteArray} {store : Store} :
    ofSeedFile (some bytes) = .ok store ↔ ∃ text seed, String.fromUTF8? bytes = some text ∧
      Seed.read text = .ok seed ∧ store = empty.load seed := by
  simp only [ofSeedFile]
  cases String.fromUTF8? bytes with
  | none => simp
  | some text =>
    cases hread : Seed.read text with
    | error p => simp [hread]
    | ok seed => simp [hread, eq_comm]

variable {s : Store} {c : Schedule}

theorem mem_onlineSchedules : c ∈ s.onlineSchedules ↔ c ∈ s.schedules ∧ c.state = .online := by
  simp [onlineSchedules, List.mem_mergeSort]

/-- The schedules in force are ascending, and no two of them are for one workflow. -/
theorem pairwise_onlineSchedules (h : (s.schedules.map Schedule.flowId).Nodup) :
    s.onlineSchedules.Pairwise fun c d => c.flowId < d.flowId := by
  have hsorted : s.onlineSchedules.Pairwise fun c d => decide (c.flowId ≤ d.flowId) = true := by
    apply List.pairwise_mergeSort
    · intro a b c hab hbc
      simp only [decide_eq_true_eq] at hab hbc ⊢
      exact Int.le_trans hab hbc
    · intro a b
      simpa using Int.le_total a.flowId b.flowId
  have hdistinct : s.onlineSchedules.Pairwise fun c d => c.flowId ≠ d.flowId := by
    have hperm := List.mergeSort_perm (s.schedules.filter fun c => c.state = .online)
      fun c d => c.flowId ≤ d.flowId
    refine List.pairwise_map.mp ((hperm.map Schedule.flowId).nodup_iff.mpr ?_)
    exact h.sublist (List.filter_sublist.map Schedule.flowId)
  exact hsorted.imp₂ (fun c d hle hne => Int.lt_iff_le_and_ne.mpr ⟨of_decide_eq_true hle, hne⟩)
    hdistinct

end Store

/-- The trigger that a schedule is restored as, under its own project, if its expression can be
read. -/
def Schedule.trigger? (c : Schedule) : Option Trigger :=
  match CronExpression.parse c.crontab with
  | .error _ => none
  | .ok e => some ⟨.ofFlow c.projectId c.flowId, c, e⟩

/-- **The triggers that are to be restored**, those of the schedules in force. -/
def Store.restorable (s : Store) : List Trigger :=
  s.onlineSchedules.filterMap Schedule.trigger?

theorem Schedule.trigger?_eq_some_iff {c : Schedule} {g : Trigger} :
    c.trigger? = some g ↔
      ∃ e, CronExpression.parse c.crontab = .ok e ∧ g = ⟨.ofFlow c.projectId c.flowId, c, e⟩ := by
  unfold trigger?
  cases CronExpression.parse c.crontab with
  | error f => simp
  | ok e => simp [eq_comm]

/-- No two triggers that are to be restored have one key. -/
theorem Store.nodup_restorable {s : Store} (h : (s.schedules.map Schedule.flowId).Nodup) :
    (s.restorable.map Trigger.key).Nodup := by
  rw [List.nodup_iff_pairwise_ne, List.pairwise_map, restorable, List.pairwise_filterMap]
  refine (pairwise_onlineSchedules h).imp ?_
  rintro c d hlt _ hc _ hd hkey
  obtain ⟨e, -, rfl⟩ := Schedule.trigger?_eq_some_iff.mp hc
  obtain ⟨e', -, rfl⟩ := Schedule.trigger?_eq_some_iff.mp hd
  exact Int.ne_of_lt hlt (TriggerKey.ofFlow_injective hkey).2

/-! ## Requests -/

namespace Master

/-- **Requests by which triggers are installed** one after the other: the task of each is spawned,
and entered at once under its key. -/
inductive Installs : List Trigger → History → Prop
  | nil : Installs [] []
  | cons {g : Trigger} {gs : List Trigger} {h : History} (id : Nat) (hr : Installs gs h) :
      Installs (g :: gs) (⟨.spawnTrigger g, id⟩ :: ⟨.enterTrigger g.key id, ()⟩ :: h)

/-- **Schedules that cannot be read are passed over**, and all others are installed and counted,
whatever is answered. -/
theorem installEach_yields {cs : List Schedule} {h : History} {r : Option (Except MasterError Nat)}
    (hy : (installEach cs).run.Yields h r) :
    r = some (.ok (cs.filterMap Schedule.trigger?).length) ∧
      Installs (cs.filterMap Schedule.trigger?) h := by
  induction cs generalizing h r with
  | nil =>
    cases hy
    exact ⟨rfl, .nil⟩
  | cons c cs ih =>
    rw [installEach_cons] at hy
    rw [List.filterMap_cons, Schedule.trigger?]
    cases he : CronExpression.parse c.crontab with
    | error f =>
      rw [he] at hy
      exact ih hy
    | ok e =>
      rw [he] at hy
      cases hy with
      | ask id hy =>
        cases hy with
        | ask _ hrest =>
          obtain ⟨n, hn, rfl⟩ := hrest.of_map
          obtain ⟨rfl, hinstalls⟩ := ih hn
          exact ⟨rfl, .cons id hinstalls⟩

/-- Such requests change nothing but the table of triggers. -/
theorem Installs.leaves {gs : List Trigger} {h : History} (hi : Installs gs h) :
    ∀ x ∈ h, ∀ (o : Outside) (a : Site), (Site.answer o x.1 a).2.store = a.store ∧
      (Site.answer o x.1 a).2.registry = a.registry ∧ (Site.answer o x.1 a).2.queue = a.queue := by
  induction hi with
  | nil => simp
  | cons id _ ih =>
    refine List.forall_mem_cons.mpr ⟨fun o a => ⟨rfl, rfl, rfl⟩, ?_⟩
    exact List.forall_mem_cons.mpr ⟨fun o a => ⟨rfl, rfl, rfl⟩, ih⟩

end Master

/-! ## The table of triggers -/

namespace TriggerTable

variable {t u : TriggerTable} {g : Trigger} {gs : List Trigger} {now : Instant}

/-- **What a table has become once triggers have been installed.** -/
structure Installed (t : TriggerTable) (gs : List Trigger) (u : TriggerTable) : Prop where
  /-- An orderly table stays orderly. -/
  orderly : t.Orderly → u.Orderly
  /-- One task has been spawned for each trigger, in their order, and no other. -/
  spawned : u.tasks.map Task.trigger = t.tasks.map Task.trigger ++ gs
  /-- It waits for what its trigger waits for at some time, and nobody has ended it. -/
  fresh : ∀ x ∈ gs.zipIdx t.tasks.length,
    ∃ now, Task.await ⟨x.2, x.1, none, .finished⟩ now ∈ u.tasks
  /-- The key of a trigger holds its task, and any other key what it has held before. -/
  held : ∀ k id, (k, id) ∈ u.held ↔
    (∃ g, (g, id) ∈ gs.zipIdx t.tasks.length ∧ g.key = k) ∨
      (k, id) ∈ t.held ∧ ∀ g ∈ gs, g.key ≠ k
  /-- The tasks of other keys are as they were. -/
  kept : ∀ k ∈ t.tasks, (∀ g ∈ gs, g.key ≠ k.trigger.key) → k ∈ u.tasks

theorem Installed.nil (t : TriggerTable) : t.Installed [] t :=
  ⟨id, by simp, by simp, by simp, fun k hk _ => hk⟩

/-- **One trigger after another**, each under a key of its own. -/
theorem Installed.cons {projectId : Int} (hg : g.key = .ofFlow projectId g.schedule.flowId)
    (hkey : ∀ g' ∈ gs, g'.key ≠ g.key) (h : (t.install now g).Installed gs u) :
    t.Installed (g :: gs) u where
  orderly ht := h.orderly (ht.install now hg)
  spawned := by rw [h.spawned, map_trigger_install, List.append_assoc, List.singleton_append]
  fresh := by
    rw [List.zipIdx_cons, ← t.length_install now g]
    refine List.forall_mem_cons.mpr ⟨⟨now, h.kept _ ?_ fun g' hg' => ?_⟩, h.fresh⟩
    · exact mem_tasks_install.mpr (.inr rfl)
    · rw [Task.await_trigger]
      exact hkey g' hg'
  held k id := by
    rw [h.held, mem_held_install, List.zipIdx_cons, length_install]
    constructor
    · rintro (⟨g', hg', hk⟩ | ⟨⟨rfl, rfl⟩ | ⟨hheld, hne⟩, hgs⟩)
      · exact .inl ⟨g', List.mem_cons_of_mem _ hg', hk⟩
      · exact .inl ⟨g, List.mem_cons_self, rfl⟩
      · exact .inr ⟨hheld, List.forall_mem_cons.mpr ⟨hne.symm, hgs⟩⟩
    · rintro (⟨g', hg', rfl⟩ | ⟨hheld, hgs⟩)
      · rcases List.mem_cons.mp hg' with heq | hg'
        · cases heq
          exact .inr ⟨.inl ⟨rfl, rfl⟩, hkey⟩
        · exact .inl ⟨g', hg', rfl⟩
      · obtain ⟨hne, hgs⟩ := List.forall_mem_cons.mp hgs
        exact .inr ⟨.inr ⟨hheld, hne.symm⟩, hgs⟩
  kept k hk hgs := by
    obtain ⟨hne, hgs⟩ := List.forall_mem_cons.mp hgs
    exact h.kept k (mem_install hk hne) hgs

end TriggerTable

/-! ## The whole restore -/

namespace Master

variable {α : Type} {p : Program α} {others : Site → Site → Prop} {s t : Site}
  {turns : List (Turn Request.Answer Site)} {gs : List Trigger}

/-- **What such requests do to the table**, if nobody else touches it. -/
theorem Installs.installed {result : Option α} {h : History} (hi : Installs gs h)
    (hr : p.Ran Site.answer others s turns result t) (hturns : turns.map (·.exchange) = h)
    (hothers : ∀ a b, others a b → b.triggers = a.triggers)
    (hkeys : (gs.map Trigger.key).Nodup)
    (hflows : ∀ g ∈ gs, ∃ projectId, g.key = .ofFlow projectId g.schedule.flowId) :
    s.triggers.Installed gs t.triggers := by
  induction hi generalizing p s turns with
  | nil =>
    obtain rfl := List.map_eq_nil_iff.mp hturns
    rw [hr.unchanged (f := Site.triggers) hothers (by simp)]
    exact .nil _
  | @cons g gs h id hi ih =>
    obtain ⟨u, us, rfl, hu, hus⟩ := List.map_eq_cons_iff.mp hturns
    obtain ⟨v, vs, rfl, hv, hvs⟩ := List.map_eq_cons_iff.mp hus
    obtain ⟨hsu, ⟨o, hspawn⟩, q, hr⟩ := hr.tail
    obtain ⟨huv, ⟨o', henter⟩, q', hr⟩ := hr.tail
    rw [hu] at hspawn
    rw [hv] at henter
    have htable : v.after.triggers = s.triggers.install o.now g := by
      have hid : (u.before.triggers.spawn o.now g).1 = id := congrArg Prod.fst hspawn
      have hspawned : (u.before.triggers.spawn o.now g).2 = u.after.triggers :=
        congrArg (fun x => x.2.triggers) hspawn
      have hentered : v.before.triggers.enter g.key id = v.after.triggers :=
        congrArg (fun x => x.2.triggers) henter
      rw [← hentered, hothers _ _ huv, ← hspawned, ← hid, hothers _ _ hsu]
      rfl
    rw [List.map_cons, List.nodup_cons] at hkeys
    obtain ⟨⟨projectId, hg⟩, hflows⟩ := List.forall_mem_cons.mp hflows
    have hrest := ih hr hvs hkeys.2 hflows
    rw [htable] at hrest
    refine .cons hg (fun g' hg' hkey => hkeys.1 ?_) hrest
    exact hkey ▸ List.mem_map_of_mem hg'

/-- **What a restore answers, asks and leaves behind**, given the triggers to be restored. -/
structure Restored (gs : List Trigger) (others : Site → Site → Prop) (s : Site)
    (turns : List (Turn Request.Answer Site)) (result : Option (Except MasterError Nat))
    (t : Site) : Prop where
  /-- The answer is how many there are. -/
  answer : result = some (.ok gs.length)
  /-- The schedules are read once, and then nothing is done but to install these triggers. -/
  asked : ∃ (cs : List Schedule) (h : History),
    turns.map (·.exchange) = ⟨.store .onlineSchedules, .ok cs⟩ :: h ∧ Installs gs h
  /-- Only the table of triggers is changed. -/
  leaves : ∀ u ∈ turns, u.after.store = u.before.store ∧
    u.after.registry = u.before.registry ∧ u.after.queue = u.before.queue
  /-- The triggers are in the table at the end, unless others have done something to it. -/
  table : (∀ a b, others a b → b.triggers = a.triggers) → s.triggers.Installed gs t.triggers

/-- If others do nothing, nothing but the table of triggers is changed. -/
theorem Restored.eq_of_ran {result : Option (Except MasterError Nat)}
    (h : Restored gs Eq s turns result t)
    (hr : restore.run.Ran Site.answer Eq s turns result t) :
    t = { s with triggers := t.triggers } := by
  have hsame {τ : Type} {f : Site → τ} (a b : Site) (hab : a = b) : f b = f a := by rw [hab]
  have hstore := hr.unchanged (f := Site.store) hsame fun u hu => (h.leaves u hu).1
  have hregistry := hr.unchanged (f := Site.registry) hsame fun u hu => (h.leaves u hu).2.1
  have hqueue := hr.unchanged (f := Site.queue) hsame fun u hu => (h.leaves u hu).2.2
  rw [← hstore, ← hregistry, ← hqueue]

/-- **A restore installs what is in force in a store**, whatever others do once it has read the
schedules. -/
theorem restored {store : Store} (hkeys : (store.schedules.map Schedule.flowId).Nodup)
    {result : Option (Except MasterError Nat)}
    (hr : restore.run.Ran Site.answer others s turns result t)
    (hstore : ∀ a, others s a → a.store.schedules = store.schedules) :
    Restored store.restorable others s turns result t := by
  have hnodup := Store.nodup_restorable hkeys
  have hanswered := hr.answered
  rw [restore_eq] at hr
  cases hr with
  | @ask _ _ _ a _ us _ o hsa hr =>
    have hread : a.store.onlineSchedules = store.onlineSchedules := by
      unfold Store.onlineSchedules
      rw [hstore a hsa]
    change (installEach a.store.onlineSchedules).run.Ran Site.answer others a us result t at hr
    rw [hread] at hr
    obtain ⟨hresult, hinstalls⟩ := installEach_yields hr.yields
    refine ⟨hresult, ⟨_, _, rfl, hinstalls⟩, ?_, ?_⟩
    · intro u hu
      obtain ⟨o, ho⟩ := hanswered u hu
      have hafter : u.after = (Site.answer o u.exchange.1 u.before).2 := (congrArg Prod.snd ho).symm
      rw [hafter]
      rcases List.mem_cons.mp hu with rfl | hu
      · exact ⟨rfl, rfl, rfl⟩
      · exact hinstalls.leaves _ (List.mem_map_of_mem hu) o u.before
    · intro hothers
      rw [← hothers _ _ hsa]
      refine hinstalls.installed hr rfl hothers hnodup fun g hg => ?_
      obtain ⟨c, -, hc⟩ := List.mem_filterMap.mp hg
      obtain ⟨e, -, rfl⟩ := Schedule.trigger?_eq_some_iff.mp hc
      exact ⟨_, rfl⟩

end Master

/-! ## Stores filled from a file -/

namespace Store

/-- **A store holds the last entries of a seed**, and has in force what its last entries say. -/
structure HoldsLast (store : Store) (seed : Seed) : Prop where
  workflows : GivesLast Workflow.id seed.workflows store.workflow?
  schedules : GivesLast Schedule.flowId seed.schedules store.schedule?
  adHocs : GivesLast AdHoc.id seed.adHocs store.adHoc?
  /-- The schedules in force are ascending, and no two of them are for one workflow. -/
  ascending : store.onlineSchedules.Pairwise fun c d => c.flowId < d.flowId
  /-- A schedule is in force if it is the last one for its workflow, and this one is online. -/
  online : ∀ c, c ∈ store.onlineSchedules ↔
    IsLastOf Schedule.flowId seed.schedules c.flowId c ∧ c.state = .online

theorem holdsLast_load (seed : Seed) : (empty.load seed).HoldsLast seed := by
  rw [load_empty]
  refine ⟨givesLast_filled _ _, givesLast_filled _ _, givesLast_filled _ _, ?_, fun c => ?_⟩
  · exact pairwise_onlineSchedules (nodup_filled _ _)
  · rw [mem_onlineSchedules, mem_filled]

/-- **Of several entries of a seed with one id the last one counts.** Whatever text a store has been
filled from, an id is looked up as the last entry of its list with this id. The schedules in force
are ascending by workflow, and they are the last ones of their workflows, as far as those are online.
When the schedules are restored, at whatever times the requests are answered, one trigger is
installed for each of these whose expression can be read, under its own project and workflow;
nothing else changes, and the answer is their number. And whatever others do once a restore has read
the schedules, it installs these triggers and asks for nothing else. -/
theorem last_entry_counts {bytes : ByteArray} {store : Store}
    (h : ofSeedFile (some bytes) = .ok store) :
    (∃ text seed, String.fromUTF8? bytes = some text ∧ Seed.read text = .ok seed ∧
      store.HoldsLast seed) ∧
    (store.restorable.map Trigger.key).Nodup ∧
    (∀ (s : Site) (outside : Nat → Outside), s.store.schedules = store.schedules →
      ∃ table, (Master.restore.run.course Site.answer outside s).2 =
          (some (.ok store.restorable.length), { s with triggers := table }) ∧
        s.triggers.Installed store.restorable table) ∧
    ∀ (others : Site → Site → Prop) (s t : Site) (turns : List (Turn Request.Answer Site))
      (result : Option (Except MasterError Nat)),
      Master.restore.run.Ran Site.answer others s turns result t →
      (∀ a, others s a → a.store.schedules = store.schedules) →
      Master.Restored store.restorable others s turns result t := by
  obtain ⟨text, seed, htext, hseed, rfl⟩ := ofSeedFile_eq_ok_iff.mp h
  have hkeys : ((empty.load seed).schedules.map Schedule.flowId).Nodup := by
    rw [load_empty]
    exact nodup_filled _ _
  refine ⟨⟨text, seed, htext, hseed, holdsLast_load seed⟩, nodup_restorable hkeys, ?_, ?_⟩
  · intro s outside hstore
    have hr := Interaction.ran_course Site.answer Master.restore.run outside s
    have hrestored := Master.restored hkeys hr fun a ha => by rw [← ha, hstore]
    refine ⟨_, Prod.ext hrestored.answer (hrestored.eq_of_ran hr), hrestored.table ?_⟩
    rintro a b rfl
    rfl
  · intro others s t turns result hr
    exact Master.restored hkeys hr

/-- A schedule for the first days of three years. -/
def yearly (flowId projectId : Int) (crontab : String) (state : ScheduleState) : Schedule :=
  ⟨flowId, projectId, crontab, ⟨1704067200, 0⟩, ⟨1798761600, 0⟩, state, .never, [], 1, 0⟩

theorem isRepresentable_yearly {flowId projectId : Int} (hflow : IsSigned32 flowId)
    (hproject : IsSigned32 projectId) (crontab : String) (state : ScheduleState) :
    (yearly flowId projectId crontab state).IsRepresentable := by
  have hday (n : Int) (hn : Instant.InRange ⟨n, 0⟩) : Instant.IsRepresentable ⟨n, 0⟩ :=
    ⟨hn, .inl (by decide : 0 < 1000000000)⟩
  exact ⟨hflow, hproject, hday _ (by decide), hday _ (by decide), (by decide : IsSigned32 1),
    (by decide : IsSigned32 0)⟩

/-- A seed that lists three workflows twice: the schedule of the first one moves to another project,
that of the second one cannot be read any more, and that of the third one is in force no longer. -/
def flippedSeed : Seed where
  master := none
  workflows := [⟨1, 10, "old", 1, .short, 1800, ""⟩, ⟨1, 11, "new", 1, .short, 1800, ""⟩]
  schedules := [yearly 3 10 "0 0 0 1 1 ?" .online, yearly 2 10 "0 0 0 1 1 ?" .online,
    yearly 1 10 "0 0 0 1 1 ?" .online, yearly 3 10 "0 0 0 1 1 ?" .offline,
    yearly 2 10 "daily" .online, yearly 1 11 "0 0 0 1 1 ?" .online]
  adHocs := []

theorem isRepresentable_flippedSeed : flippedSeed.IsRepresentable where
  master := by simp [flippedSeed]
  workflows := by
    simp only [flippedSeed, List.forall_mem_cons]
    refine ⟨?_, ?_, by simp⟩ <;> constructor <;> decide
  schedules := by
    simp only [flippedSeed, List.forall_mem_cons]
    refine ⟨?_, ?_, ?_, ?_, ?_, ?_, by simp⟩ <;>
      exact isRepresentable_yearly (by decide) (by decide) _ _
  adHocs := by simp [flippedSeed]

theorem onlineSchedules_flippedSeed :
    (empty.load flippedSeed).onlineSchedules =
      [yearly 1 11 "0 0 0 1 1 ?" .online, yearly 2 10 "daily" .online] := by
  have hfilter : ((empty.load flippedSeed).schedules.filter fun c => c.state = .online) =
      [yearly 1 11 "0 0 0 1 1 ?" .online, yearly 2 10 "daily" .online] := by decide +kernel
  rw [onlineSchedules, hfilter]
  exact List.mergeSort_of_pairwise (by decide)

/-- Two workflows have a schedule in force, and one of them a trigger: that of its last entry. -/
theorem last_entry_counts_flipped :
    ∃ store, ofSeedFile (some flippedSeed.json.compact.toUTF8) = .ok store ∧
      (store.workflow? 1).map Workflow.name = some "new" ∧
      store.onlineSchedules.map Schedule.flowId = [1, 2] ∧
      ∃ table, (Master.restore.run.course Site.answer (fun _ => ⟨⟨1735689600, 0⟩, .ok ()⟩)
          ⟨store, .empty, .empty, .empty⟩).2 =
        (some (.ok 1), ⟨store, .empty, .empty, table⟩) ∧
        (TriggerKey.ofFlow 11 1, 0) ∈ table.held := by
  have hread : Seed.read flippedSeed.json.compact = .ok flippedSeed :=
    ((Seed.reads isRepresentable_flippedSeed).decodeText_written flippedSeed.isForm_json).1
  have hfile := ofSeedFile_toUTF8 hread
  obtain ⟨-, -, hrestore, -⟩ := last_entry_counts hfile
  obtain ⟨table, hcourse, htable⟩ := hrestore ⟨empty.load flippedSeed, .empty, .empty, .empty⟩
    (fun _ => ⟨⟨1735689600, 0⟩, .ok ()⟩) rfl
  have hkeys : (empty.load flippedSeed).restorable.map Trigger.key = [.ofFlow 11 1] := by
    rw [restorable, onlineSchedules_flippedSeed]
    decide +kernel
  obtain ⟨g, hg, hkey⟩ := List.map_eq_singleton_iff.mp hkeys
  rw [hg] at hcourse htable
  refine ⟨_, hfile, by decide +kernel, by rw [onlineSchedules_flippedSeed]; rfl, table, hcourse, ?_⟩
  exact (htable.held _ _).mpr (.inl ⟨g, List.mem_cons_self, hkey⟩)

end Store

end WorkflowScheduler
