import Mathlib.Data.List.Nodup
import WorkflowScheduler.Trigger.Table

/-!
# The table of triggers

A key of the table holds one task, and every task that will still fire is held under the key of its
trigger. Entering a task under a key and removing keys come down to one thing: keys are let go, and
the tasks they hold are ended.

## Main definitions

* `TriggerTable.Orderly`: a table whose keys hold the tasks that will still fire
* `TriggerTable.Accounts`: a table that does so together with what is still to be entered
* `TriggerTable.Holds`: a key holds a task
* `TriggerTable.letGo`: some keys are let go
* `TriggerTable.install`: a trigger is spawned and entered under its key
* `TriggerTable.fire`: a task fires and looks at the clock

## Main results

* `TriggerKey.ofFlow_injective`: a key belongs to one project and one workflow
* `TriggerTable.Accounts.letGo`, `TriggerTable.Accounts.spawn`, `TriggerTable.Accounts.enter`,
  `TriggerTable.Accounts.fire`: every task stays accounted for
* `TriggerTable.Orderly.letGo`, `TriggerTable.Orderly.install`, `TriggerTable.Orderly.fire`: tables
  stay orderly
* `TriggerTable.holds_letGo`, `TriggerTable.mem_held_install`: what is held then
-/

namespace WorkflowScheduler

/-! ## Keys -/

namespace Text

theorem repr_injective {m n : Nat} (h : Nat.repr m = Nat.repr n) : m = n := by
  rw [← Nat.ofDigitChars_ten_toDigits (n := m), ← Nat.toList_repr, h, Nat.toList_repr,
    Nat.ofDigitChars_ten_toDigits]

/-- A minus sign is no digit. -/
theorem repr_ne_minus (m n : Nat) : Nat.repr m ≠ "-" ++ Nat.repr n := by
  intro h
  have hmem : '-' ∈ Nat.toDigits 10 m := by
    rw [← Nat.toList_repr, h, String.toList_append]
    exact List.mem_append_left _ (by decide)
  have hdigit := Nat.isDigit_of_mem_toDigits (by decide) (by decide) hmem
  simp at hdigit

/-- The written form names one number only. -/
theorem toString_injective {a b : Int} (h : toString a = toString b) : a = b := by
  cases a with
  | ofNat m =>
    cases b with
    | ofNat n => rw [repr_injective h]
    | negSucc n => exact absurd h (repr_ne_minus m (n + 1))
  | negSucc m =>
    cases b with
    | ofNat n => exact absurd h.symm (repr_ne_minus n (m + 1))
    | negSucc n =>
      have hsucc := repr_injective ((String.append_right_inj "-").mp h)
      rw [Nat.succ.inj hsucc]

end Text

namespace TriggerKey

theorem groupOf_injective {p q : Int} (h : groupOf p = groupOf q) : p = q :=
  Text.toString_injective ((String.append_right_inj _).mp h)

/-- **A key belongs to one project and one workflow.** -/
theorem ofFlow_injective {p q f g : Int} (h : ofFlow p f = ofFlow q g) : p = q ∧ f = g := by
  obtain ⟨hgroup, hname⟩ := TriggerKey.mk.inj h
  exact ⟨groupOf_injective hgroup, Text.toString_injective ((String.append_right_inj _).mp hname)⟩

end TriggerKey

/-! ## Tasks -/

namespace Task

variable (k : Task) (now : Instant)

theorem ended_of_finished {k : Task} (h : k.state = .finished) : k.ended = k :=
  if_pos h

theorem ended_state {k : Task} (h : k.state ≠ .finished) : k.ended.state = .aborted := by
  unfold ended
  rw [if_neg h]

@[simp] theorem isLive_ended : k.ended.isLive = false := by
  unfold isLive
  by_cases h : k.state = .finished
  · rw [ended_of_finished h, h]
  · rw [ended_state h]

@[simp] theorem ended_ended : k.ended.ended = k.ended := by
  by_cases h : k.state = .finished
  · rw [ended_of_finished h, ended_of_finished h]
  · have haborted := ended_state h
    cases hk : k.ended
    simp_all [ended]

@[simp] theorem await_lastFire : (k.await now).lastFire = k.lastFire := by
  unfold await
  split <;> rfl

theorem await_not_aborted : (k.await now).state ≠ .aborted := by
  unfold await
  split <;> simp

/-- A task waits for what its trigger waits for. -/
theorem await_state_eq_waiting_iff {due : Instant} :
    (k.await now).state = .waiting due ↔ k.trigger.nextFire k.lastFire now = .ok (some due) := by
  unfold await
  split
  · next h => simp [h]
  · next h => exact iff_of_false (by simp) fun heq => h due heq

theorem isLive_iff : k.isLive = true ↔ ∃ due, k.state = .waiting due := by
  unfold isLive
  cases k.state <;> simp

end Task

/-! ## Orderly tables -/

namespace TriggerTable

variable {t : TriggerTable} {k : TriggerKey} {p : TriggerKey → Bool} {g : Trigger} {now : Instant}
  {l m : List (TriggerKey × Nat)}

/-- **A key holds a task.** -/
def Holds (t : TriggerTable) (k : TriggerKey) : Prop :=
  ∃ id, (k, id) ∈ t.held

/-- Tasks are told apart by their numbers. -/
theorem eq_of_id {j k : Task} (hj : j ∈ t.tasks) (hk : k ∈ t.tasks) (hid : j.id = k.id) : j = k :=
  List.inj_on_of_nodup_map (t.numbered ▸ List.nodup_range) hj hk hid

theorem eq_of_key {a b : TriggerKey × Nat} (ha : a ∈ t.held) (hb : b ∈ t.held)
    (hkey : a.1 = b.1) : a = b :=
  List.inj_on_of_nodup_map t.single ha hb hkey

/-- The number of a task has been given out. -/
theorem id_lt {k : Task} (hk : k ∈ t.tasks) : k.id < t.tasks.length := by
  rw [← List.mem_range, ← t.numbered]
  exact List.mem_map_of_mem hk

/-- The number of a task that is held has been given out. -/
theorem lt_of_mem_held {a : TriggerKey × Nat} (ha : a ∈ t.held) : a.2 < t.tasks.length := by
  obtain ⟨k, hk, hid, -⟩ := t.belongs a ha
  exact hid ▸ id_lt hk

/-- **An orderly table**: the keys of tasks are those of their workflows, no key holds a task that was
ended from outside, and every task that will still fire is held. -/
structure Orderly (t : TriggerTable) : Prop where
  keyed : ∀ k ∈ t.tasks, ∃ projectId, k.trigger.key = .ofFlow projectId k.trigger.schedule.flowId
  holds : ∀ h ∈ t.held, ∃ k ∈ t.tasks, k.id = h.2 ∧ k.trigger.key = h.1 ∧ k.state ≠ .aborted
  live : ∀ k ∈ t.tasks, k.isLive = true → (k.trigger.key, k.id) ∈ t.held

theorem orderly_empty : empty.Orderly :=
  ⟨by simp [empty], by simp [empty], by simp [empty]⟩

/-- A key has at most one task that will still fire. -/
theorem Orderly.live_unique (h : t.Orderly) {j k : Task} (hj : j ∈ t.tasks) (hk : k ∈ t.tasks)
    (hjlive : j.isLive = true) (hklive : k.isLive = true)
    (hkey : j.trigger.key = k.trigger.key) : j = k := by
  have hheld := eq_of_key (h.live j hj hjlive) (h.live k hk hklive) hkey
  exact eq_of_id hj hk (congrArg Prod.snd hheld)

/-- **A table and what is still to be entered**: the keys of tasks are those of their workflows; each
task is held or to be entered at most once, under the key of its trigger, and is not ended from
outside; and every task that will still fire is among them. -/
structure Accounts (t : TriggerTable) (l : List (TriggerKey × Nat)) : Prop where
  keyed : ∀ k ∈ t.tasks, ∃ projectId, k.trigger.key = .ofFlow projectId k.trigger.schedule.flowId
  once : ((t.held ++ l).map Prod.snd).Nodup
  placed : ∀ h ∈ t.held ++ l, ∃ k ∈ t.tasks, k.id = h.2 ∧ k.trigger.key = h.1 ∧ k.state ≠ .aborted
  live : ∀ k ∈ t.tasks, k.isLive = true → (k.trigger.key, k.id) ∈ t.held ++ l

namespace Accounts

/-- The number of a task that is held or to be entered has been given out. -/
theorem lt_of_mem (h : t.Accounts l) {a : TriggerKey × Nat} (ha : a ∈ t.held ++ l) :
    a.2 < t.tasks.length := by
  obtain ⟨k, hk, hid, -⟩ := h.placed a ha
  exact hid ▸ id_lt hk

/-- What is still to be entered is not held. -/
theorem not_mem_held (h : t.Accounts l) {a : TriggerKey × Nat} (ha : a ∈ l) : a ∉ t.held := by
  intro hheld
  have hdisjoint := (List.nodup_append'.mp (List.map_append ▸ h.once)).2.2
  exact hdisjoint (List.mem_map_of_mem hheld) (List.mem_map_of_mem ha)

/-- What is to be entered may come in any order. -/
theorem perm (h : t.Accounts l) (hl : l.Perm m) : t.Accounts m where
  keyed := h.keyed
  once := (((hl.append_left t.held).map Prod.snd).nodup_iff).mp h.once
  placed a ha := h.placed a ((hl.append_left t.held).mem_iff.mpr ha)
  live k hk hlive := (hl.append_left t.held).mem_iff.mp (h.live k hk hlive)

/-- **A change of tasks** that keeps their numbers and triggers, of which some are held no longer. -/
theorem of_map (h : t.Accounts l) {u : TriggerTable} {f : Task → Task}
    (hid : ∀ k, (f k).id = k.id) (htrigger : ∀ k, (f k).trigger = k.trigger)
    (htasks : u.tasks = t.tasks.map f) (hsub : u.held.Sublist t.held)
    (hkept : ∀ k ∈ t.tasks, (k.trigger.key, k.id) ∈ u.held ++ l → k.state ≠ .aborted →
      (f k).state ≠ .aborted)
    (hlive : ∀ k ∈ t.tasks, (f k).isLive = true → (k.trigger.key, k.id) ∈ u.held ++ l) :
    u.Accounts l where
  keyed k' hk' := by
    obtain ⟨k, hk, rfl⟩ := List.mem_map.mp (htasks ▸ hk')
    rw [htrigger]
    exact h.keyed k hk
  once := h.once.sublist ((hsub.append_right l).map Prod.snd)
  placed a ha := by
    obtain ⟨k, hk, hnumber, hkey, hstate⟩ := h.placed a ((hsub.append_right l).subset ha)
    refine ⟨f k, htasks ▸ List.mem_map_of_mem hk, (hid k).trans hnumber, ?_, hkept k hk ?_ hstate⟩
    · rw [htrigger, hkey]
    · rwa [hkey, hnumber]
  live k' hk' hk'live := by
    obtain ⟨k, hk, rfl⟩ := List.mem_map.mp (htasks ▸ hk')
    rw [hid, htrigger]
    exact hlive k hk hk'live

end Accounts

/-- **A table is orderly if nothing is still to be entered.** -/
theorem orderly_iff : t.Orderly ↔ t.Accounts [] := by
  constructor
  · intro h
    refine ⟨h.keyed, ?_, by simpa using h.holds, by simpa using h.live⟩
    -- one number is held under one key, that of its trigger
    rw [List.append_nil]
    refine List.Nodup.map_on ?_ t.single.of_map
    intro a ha b hb hid
    obtain ⟨j, hj, hja, hjkey⟩ := t.belongs a ha
    obtain ⟨k, hk, hkb, hkkey⟩ := t.belongs b hb
    obtain rfl := eq_of_id hj hk (hja.trans (hid.trans hkb.symm))
    exact Prod.ext (hjkey.symm.trans hkkey) hid
  · intro h
    exact ⟨h.keyed, by simpa using h.placed, by simpa using h.live⟩

/-! ## Letting keys go -/

/-- Whether a task is held under one of some keys. -/
def holdsUnder (t : TriggerTable) (p : TriggerKey → Bool) (k : Task) : Bool :=
  t.held.any fun h => p h.1 && h.2 == k.id

/-- **Let some keys go**, and end the tasks that they hold. -/
def letGo (t : TriggerTable) (p : TriggerKey → Bool) : TriggerTable :=
  (t.mapTasks (fun k => if t.holdsUnder p k then k.ended else k)
    (fun k => by split <;> simp) (fun k => by split <;> simp)).keep fun k => !p k

theorem tasks_letGo (t : TriggerTable) (p : TriggerKey → Bool) :
    (t.letGo p).tasks = t.tasks.map fun k => if t.holdsUnder p k then k.ended else k := rfl

theorem held_letGo (t : TriggerTable) (p : TriggerKey → Bool) :
    (t.letGo p).held = t.held.filter fun h => !p h.1 := rfl

theorem holds_letGo : (t.letGo p).Holds k ↔ t.Holds k ∧ p k = false := by
  simp [Holds, held_letGo]

/-- A task is held under a key if this is the key of its trigger. -/
theorem holdsUnder_iff {k : Task} (hk : k ∈ t.tasks) :
    t.holdsUnder p k = true ↔ (k.trigger.key, k.id) ∈ t.held ∧ p k.trigger.key = true := by
  constructor
  · intro hunder
    obtain ⟨a, ha, hpa⟩ := List.any_eq_true.mp hunder
    simp only [Bool.and_eq_true, beq_iff_eq] at hpa
    obtain ⟨j, hj, hnumber, hkey⟩ := t.belongs a ha
    obtain rfl := eq_of_id hj hk (hnumber.trans hpa.2)
    rw [hkey, hnumber]
    exact ⟨ha, hpa.1⟩
  · rintro ⟨hheld, hp⟩
    exact List.any_eq_true.mpr ⟨_, hheld, by simp [hp]⟩

theorem Accounts.letGo (h : t.Accounts l) (p : TriggerKey → Bool) : (t.letGo p).Accounts l := by
  refine h.of_map ?_ ?_ (t.tasks_letGo p) List.filter_sublist ?_ ?_
  · intro k
    split <;> simp
  · intro k
    split <;> simp
  · intro k hk hplaced hstate
    rw [if_neg]
    · exact hstate
    · intro hunder
      obtain ⟨hheld, hp⟩ := (holdsUnder_iff hk).mp hunder
      -- it is kept, or it is still to be entered: then it is not held at all
      rcases List.mem_append.mp hplaced with hkept | hl
      · simp [held_letGo, hp] at hkept
      · exact h.not_mem_held hl hheld
  · intro k hk hlive
    by_cases hunder : t.holdsUnder p k = true
    · rw [if_pos hunder] at hlive
      simp at hlive
    · rw [if_neg hunder] at hlive
      rcases List.mem_append.mp (h.live k hk hlive) with hheld | hl
      · refine List.mem_append_left _ (List.mem_filter.mpr ⟨hheld, ?_⟩)
        cases hp : p k.trigger.key with
        | false => simp [hp]
        | true => exact absurd ((holdsUnder_iff hk).mpr ⟨hheld, hp⟩) hunder
      · exact List.mem_append_right _ hl

theorem Orderly.letGo (h : t.Orderly) (p : TriggerKey → Bool) : (t.letGo p).Orderly :=
  orderly_iff.mpr ((orderly_iff.mp h).letGo p)

/-! ## Operations of the table -/

theorem tasks_foldl_abort (l : List (TriggerKey × Nat)) (t : TriggerTable) :
    (l.foldl (fun t h => t.abort h.2) t).tasks =
      t.tasks.map fun k => if l.any (fun h => h.2 == k.id) then k.ended else k := by
  induction l generalizing t with
  | nil => simp
  | cons h l ih =>
    have habort : (t.abort h.2).tasks = t.tasks.map fun k => if k.id = h.2 then k.ended else k := rfl
    rw [List.foldl_cons, ih, habort, List.map_map]
    refine List.map_congr_left fun k _ => ?_
    by_cases hk : k.id = h.2
    · simp [hk]
    · have hne : (h.2 == k.id) = false := beq_false_of_ne (Ne.symm hk)
      simp only [Function.comp_apply, if_neg hk, List.any_cons, hne, Bool.false_or]

theorem held_foldl_abort (l : List (TriggerKey × Nat)) (t : TriggerTable) :
    (l.foldl (fun t h => t.abort h.2) t).held = t.held := by
  induction l generalizing t with
  | nil => rfl
  | cons h l ih => exact ih (t.abort h.2)

/-- **To remove a group is to let its keys go.** -/
theorem removeGroup_eq (t : TriggerTable) (group : String) :
    (t.removeGroup group).2 = t.letGo fun k => k.group = group := by
  refine TriggerTable.ext ?_ ?_
  · refine (tasks_foldl_abort _ t).trans ?_
    simp only [tasks_letGo, holdsUnder, List.any_filter]
    rfl
  · simp only [removeGroup, keep, held_foldl_abort, held_letGo, decide_not, ne_eq]

/-- **To clear a table is to let all its keys go.** -/
theorem clear_eq (t : TriggerTable) : t.clear = t.letGo fun _ => true := by
  refine TriggerTable.ext ?_ ?_
  · refine (tasks_foldl_abort _ t).trans ?_
    simp only [tasks_letGo, holdsUnder, Bool.true_and]
  · simp only [clear, keep, held_foldl_abort, held_letGo, Bool.not_true]

theorem not_holds_of_heldBy? (h : t.heldBy? k = none) : ¬ t.Holds k := by
  rintro ⟨id, hid⟩
  exact bne_iff_ne.mp (List.lookup_eq_none_iff.mp h _ hid) rfl

theorem mem_of_heldBy? {id : Nat} (h : t.heldBy? k = some id) : (k, id) ∈ t.held := by
  obtain ⟨l, m, heq, -⟩ := List.lookup_eq_some_iff.mp h
  rw [heq]
  exact List.mem_append_right _ List.mem_cons_self

/-- To let a key go that holds nothing changes nothing. -/
theorem letGo_of_not_holds (h : ¬ t.Holds k) : t.letGo (· = k) = t := by
  have hne : ∀ a ∈ t.held, a.1 ≠ k := by
    rintro a ha rfl
    exact h ⟨a.2, ha⟩
  have hunder : ∀ j, t.holdsUnder (· = k) j = false := fun j =>
    List.any_eq_false.mpr fun a ha => by simp [hne a ha]
  refine TriggerTable.ext ?_ ?_
  · simp only [tasks_letGo, hunder, Bool.false_eq_true, if_false, List.map_id']
  · exact List.filter_eq_self.mpr fun a ha => by simp [hne a ha]

/-- To let a key go that holds a task ends this task. -/
theorem letGo_of_mem {id : Nat} (h : (k, id) ∈ t.held) :
    t.letGo (· = k) = (t.abort id).keep (· ≠ k) := by
  have hunder : ∀ j, t.holdsUnder (· = k) j = true ↔ j.id = id := by
    intro j
    constructor
    · intro hj
      obtain ⟨a, ha, hak⟩ := List.any_eq_true.mp hj
      simp only [Bool.and_eq_true, decide_eq_true_eq, beq_iff_eq] at hak
      obtain rfl := eq_of_key ha h hak.1
      exact hak.2.symm
    · rintro rfl
      exact List.any_eq_true.mpr ⟨_, h, by simp⟩
  refine TriggerTable.ext ?_ ?_
  · simp only [tasks_letGo, hunder]
    rfl
  · simp only [held_letGo, keep, decide_not, ne_eq]
    rfl

/-- **To release a key is to let it go.** -/
theorem release_eq (t : TriggerTable) (k : TriggerKey) : t.release k = t.letGo (· = k) := by
  unfold release
  split
  · next h => exact (letGo_of_not_holds (not_holds_of_heldBy? h)).symm
  · next id h => exact (letGo_of_mem (mem_of_heldBy? h)).symm

/-- **To remove a key is to let it go.** -/
theorem remove_eq (t : TriggerTable) (k : TriggerKey) : (t.remove k).2 = t.letGo (· = k) :=
  t.release_eq k

/-- **To enter a task is to let its key go first.** -/
theorem enter_eq {id : Nat} (h : t.Runs k id) :
    (t.enter k id).tasks = (t.letGo (· = k)).tasks ∧
      (t.enter k id).held = (k, id) :: (t.letGo (· = k)).held := by
  unfold enter
  rw [dif_pos h, ← release_eq]
  exact ⟨rfl, rfl⟩

/-- **A task that is spawned is still to be entered.** -/
theorem Accounts.spawn (h : t.Accounts l) (now : Instant) {projectId : Int}
    (hg : g.key = .ofFlow projectId g.schedule.flowId) :
    (t.spawn now g).2.Accounts ((g.key, t.tasks.length) :: l) := by
  have hid : (t.spawned now g).id = t.tasks.length := Task.await_id _ now
  have htrigger : (t.spawned now g).trigger = g := Task.await_trigger _ now
  have hperm : (t.held ++ (g.key, t.tasks.length) :: l).Perm
      ((g.key, t.tasks.length) :: (t.held ++ l)) := List.perm_middle
  constructor
  case keyed =>
    intro k hk
    rcases List.mem_append.mp hk with hk | hk
    · exact h.keyed k hk
    · obtain rfl := List.mem_singleton.mp hk
      exact ⟨projectId, by rw [htrigger, hg]⟩
  case once =>
    -- its number has not been given out before
    refine ((hperm.map Prod.snd).nodup_iff).mpr (List.nodup_cons.mpr ⟨fun hmem => ?_, h.once⟩)
    obtain ⟨a, ha, heq⟩ := List.mem_map.mp hmem
    have hlt := h.lt_of_mem ha
    simp only at heq
    omega
  case placed =>
    intro a ha
    rcases List.mem_cons.mp (hperm.mem_iff.mp ha) with rfl | ha
    · exact ⟨_, List.mem_append_right _ List.mem_cons_self, hid, by rw [htrigger],
        Task.await_not_aborted _ now⟩
    · obtain ⟨j, hj, hspec⟩ := h.placed a ha
      exact ⟨j, List.mem_append_left _ hj, hspec⟩
  case live =>
    intro j hj hlive
    refine hperm.mem_iff.mpr ?_
    rcases List.mem_append.mp hj with hj | hj
    · exact List.mem_cons_of_mem _ (h.live j hj hlive)
    · obtain rfl := List.mem_singleton.mp hj
      rw [hid, htrigger]
      exact List.mem_cons_self

/-- **A task that is entered takes the place of what its key holds.** -/
theorem Accounts.enter {id : Nat} (h : t.Accounts ((k, id) :: l)) : (t.enter k id).Accounts l := by
  have hrest := h.letGo (· = k)
  have hperm : ((t.letGo (· = k)).held ++ (k, id) :: l).Perm
      ((k, id) :: ((t.letGo (· = k)).held ++ l)) := List.perm_middle
  have hruns : t.Runs k id := by
    obtain ⟨j, hj, hid, hkey, -⟩ := h.placed (k, id) (List.mem_append_right _ List.mem_cons_self)
    exact ⟨j, hj, hid, hkey⟩
  obtain ⟨htasks, hheld⟩ := enter_eq hruns
  constructor
  · rw [htasks]
    exact hrest.keyed
  · rw [hheld]
    exact ((hperm.map Prod.snd).nodup_iff).mp hrest.once
  · rw [htasks, hheld]
    exact fun a ha => hrest.placed a (hperm.mem_iff.mpr ha)
  · rw [htasks, hheld]
    exact fun j hj hlive => hperm.mem_iff.mp (hrest.live j hj hlive)

/-- **Install a trigger**: its task is spawned, and entered under its key. -/
def install (t : TriggerTable) (now : Instant) (g : Trigger) : TriggerTable :=
  let (id, t) := t.spawn now g
  t.enter g.key id

/-- **A trigger that is installed takes the place of what its key holds.** -/
theorem install_eq (t : TriggerTable) (now : Instant) (g : Trigger) :
    (t.install now g).tasks = (t.letGo (· = g.key)).tasks ++ [t.spawned now g] ∧
      (t.install now g).held = (g.key, t.tasks.length) :: (t.letGo (· = g.key)).held := by
  have hfresh : t.holdsUnder (· = g.key) (t.spawned now g) = false := by
    refine List.any_eq_false.mpr fun a ha => ?_
    have hlt := lt_of_mem_held ha
    simp [spawned]
    omega
  have hruns : (t.spawn now g).2.Runs g.key t.tasks.length :=
    ⟨t.spawned now g, List.mem_append_right _ List.mem_cons_self, Task.await_id _ now, by
      rw [spawned, Task.await_trigger]⟩
  obtain ⟨htasks, hheld⟩ := enter_eq hruns
  refine ⟨htasks.trans ?_, hheld⟩
  -- the task that has just been spawned is not held
  change (t.tasks ++ [t.spawned now g]).map (fun k =>
    if t.holdsUnder (· = g.key) k then k.ended else k) = _
  rw [List.map_append, List.map_singleton, hfresh]
  rfl

theorem mem_tasks_install {k : Task} :
    k ∈ (t.install now g).tasks ↔ k ∈ (t.letGo (· = g.key)).tasks ∨ k = t.spawned now g := by
  rw [(t.install_eq now g).1, List.mem_append, List.mem_singleton]

/-- **What is held once a trigger is installed.** -/
theorem mem_held_install {k : TriggerKey} {id : Nat} :
    (k, id) ∈ (t.install now g).held ↔
      (k = g.key ∧ id = t.tasks.length) ∨ (k, id) ∈ t.held ∧ k ≠ g.key := by
  simp [(t.install_eq now g).2, held_letGo]

/-- The keys that hold a task once a trigger is installed. -/
theorem holds_install (t : TriggerTable) (now : Instant) (g : Trigger) :
    (t.install now g).Holds k ↔ k = g.key ∨ t.Holds k := by
  constructor
  · rintro ⟨id, hid⟩
    rcases mem_held_install.mp hid with ⟨hkey, -⟩ | ⟨hheld, -⟩
    · exact .inl hkey
    · exact .inr ⟨id, hheld⟩
  · intro hk
    by_cases hkey : k = g.key
    · exact ⟨_, mem_held_install.mpr (.inl ⟨hkey, rfl⟩)⟩
    · obtain ⟨id, hid⟩ := hk.resolve_left hkey
      exact ⟨id, mem_held_install.mpr (.inr ⟨hid, hkey⟩)⟩

theorem map_trigger_install (t : TriggerTable) (now : Instant) (g : Trigger) :
    (t.install now g).tasks.map Task.trigger = t.tasks.map Task.trigger ++ [g] := by
  have hletGo : (t.letGo (· = g.key)).tasks.map Task.trigger = t.tasks.map Task.trigger := by
    simp only [tasks_letGo, List.map_map]
    refine List.map_congr_left fun k _ => ?_
    simp only [Function.comp_apply]
    split <;> simp
  rw [(t.install_eq now g).1, List.map_append, hletGo]
  simp [spawned]

theorem length_install (t : TriggerTable) (now : Instant) (g : Trigger) :
    (t.install now g).tasks.length = t.tasks.length + 1 := by
  simpa using congrArg List.length (t.map_trigger_install now g)

/-- A task of another key stays as it is when a trigger is installed. -/
theorem mem_install {k : Task} (hk : k ∈ t.tasks) (hkey : g.key ≠ k.trigger.key) :
    k ∈ (t.install now g).tasks := by
  refine mem_tasks_install.mpr (.inl (List.mem_map.mpr ⟨k, hk, if_neg fun hunder => ?_⟩))
  obtain ⟨-, hp⟩ := (holdsUnder_iff hk).mp hunder
  exact hkey (of_decide_eq_true hp).symm

/-- **A table stays orderly when a trigger is installed.** -/
theorem Orderly.install (h : t.Orderly) (now : Instant) {projectId : Int}
    (hg : g.key = .ofFlow projectId g.schedule.flowId) : (t.install now g).Orderly :=
  orderly_iff.mpr ((orderly_iff.mp h).spawn now hg).enter

/-! ## Fires -/

/-- **A task fires** for what it waits for, and looks at the clock again. -/
def fire (t : TriggerTable) (id : Nat) (now : Instant) : TriggerTable :=
  match t.task? id with
  | none => t
  | some k =>
    match k.state with
    | .waiting due => t.modifyTask id (·.fired due now) (fun k => k.fired_id due now)
        (fun k => k.fired_trigger due now)
    | _ => t

theorem task?_modifyTask {f : Task → Task} (hid : ∀ k, (f k).id = k.id)
    (htrigger : ∀ k, (f k).trigger = k.trigger) (id : Nat) :
    (t.modifyTask id f hid htrigger).task? id = (t.task? id).map f := by
  unfold task? modifyTask mapTasks
  simp only
  induction t.tasks with
  | nil => rfl
  | cons k ks ih =>
    rw [List.map_cons, List.find?_cons, List.find?_cons]
    by_cases hk : k.id = id
    · simp [hk, hid]
    · simp only [hk, if_false, decide_false]
      exact ih

/-- After a fire a task waits for what its trigger waits for after this fire time. -/
theorem task?_fire {id : Nat} {k : Task} {due : Instant} (hk : t.task? id = some k)
    (hdue : k.state = .waiting due) (now : Instant) :
    (t.fire id now).task? id = some (k.fired due now) := by
  unfold fire
  simp only [hk, hdue]
  rw [task?_modifyTask, hk, Option.map_some]

/-- **A fire leaves all tasks where they are.** -/
theorem Accounts.fire (h : t.Accounts l) (id : Nat) (now : Instant) : (t.fire id now).Accounts l := by
  unfold TriggerTable.fire
  split
  · exact h
  · next k hk =>
    split
    · next due hdue =>
      refine h.of_map ?_ ?_ rfl (List.Sublist.refl _) ?_ ?_
      · intro j
        split <;> simp
      · intro j
        split <;> simp
      · intro j _ _ hstate
        split
        · exact Task.await_not_aborted _ now
        · exact hstate
      · intro j hj hlive
        split at hlive
        · -- the task has waited, so that it has been placed before
          next hid =>
          obtain rfl : j = k := by
            refine eq_of_id hj (List.mem_of_find?_eq_some hk) ?_
            have hkid := List.find?_some hk
            simp only [decide_eq_true_eq] at hkid
            exact hid.trans hkid.symm
          exact h.live j hj (j.isLive_iff.mpr ⟨due, hdue⟩)
        · exact h.live j hj hlive
    · exact h

/-- **A table stays orderly when a task fires.** -/
theorem Orderly.fire (h : t.Orderly) (id : Nat) (now : Instant) : (t.fire id now).Orderly :=
  orderly_iff.mpr ((orderly_iff.mp h).fire id now)

theorem held_fire (t : TriggerTable) (id : Nat) (now : Instant) : (t.fire id now).held = t.held := by
  unfold fire
  split
  · rfl
  · split <;> rfl

end TriggerTable

end WorkflowScheduler
