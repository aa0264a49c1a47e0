import WorkflowScheduler.Trigger.Basic

/-!
# The table of triggers

Every installed trigger is run by a task of its own. A task is spawned first and entered into the
table afterwards; entering a task under a key that is taken ends the task that was there, and so
does removing a key. A task that has no fire time left is finished, but stays in the table. In every
table the tasks are numbered, and a key holds one task at most, which runs a trigger with this key.

## Main definitions

* `Task`, `TaskState`: a trigger that is being run
* `TriggerTable`, with `spawn`, `enter`, `remove`, `removeGroup`, `clear`
* `TriggerTable.isActive`: whether a key has a task that will still fire
-/

namespace WorkflowScheduler

/-- What a task is doing: waiting for a fire time, finished, or ended from outside. -/
inductive TaskState where
  | waiting (due : Instant)
  | finished
  | aborted
  deriving DecidableEq, Repr

/-- A trigger that is being run, and its last fire time. -/
structure Task where
  id : Nat
  trigger : Trigger
  lastFire : Option Instant
  state : TaskState
  deriving DecidableEq, Repr

namespace Task

/-- Look at the clock, and wait for the next fire time if there is one. A task whose search leaves
the calendar ends. -/
def await (t : Task) (now : Instant) : Task :=
  match t.trigger.nextFire t.lastFire now with
  | .ok (some due) => { t with state := .waiting due }
  | _ => { t with state := .finished }

/-- A task after a fire, when it has looked at the clock again. -/
def fired (t : Task) (due now : Instant) : Task :=
  { t with lastFire := some due }.await now

/-- A task after it was ended from outside. -/
def ended (t : Task) : Task :=
  if t.state = .finished then t else { t with state := .aborted }

/-- Whether a task will still fire. -/
def isLive (t : Task) : Bool :=
  match t.state with
  | .waiting _ => true
  | _ => false

variable (k : Task) (due now : Instant)

@[simp] theorem await_id : (k.await now).id = k.id := by
  unfold await
  split <;> rfl

@[simp] theorem await_trigger : (k.await now).trigger = k.trigger := by
  unfold await
  split <;> rfl

@[simp] theorem fired_id : (k.fired due now).id = k.id :=
  await_id _ now

@[simp] theorem fired_trigger : (k.fired due now).trigger = k.trigger :=
  await_trigger _ now

@[simp] theorem ended_id : k.ended.id = k.id := by
  unfold ended
  split <;> rfl

@[simp] theorem ended_trigger : k.ended.trigger = k.trigger := by
  unfold ended
  split <;> rfl

end Task

/-- All tasks that were ever spawned, and the keys under which tasks are held. -/
@[ext] structure TriggerTable where
  tasks : List Task
  held : List (TriggerKey × Nat)
  /-- Tasks are numbered as they are spawned. -/
  numbered : tasks.map Task.id = List.range tasks.length
  /-- A key holds one task at most. -/
  single : (held.map Prod.fst).Nodup
  /-- What a key holds is the task of a trigger with this key. -/
  belongs : ∀ h ∈ held, ∃ k ∈ tasks, k.id = h.2 ∧ k.trigger.key = h.1
  deriving DecidableEq, Repr

namespace TriggerTable

variable {t : TriggerTable} {k : TriggerKey} {id : Nat}

/-- A table without triggers. -/
def empty : TriggerTable where
  tasks := []
  held := []
  numbered := rfl
  single := List.nodup_nil
  belongs _ hh := absurd hh List.not_mem_nil

/-- Change tasks, but neither their numbers nor their triggers. -/
def mapTasks (t : TriggerTable) (f : Task → Task) (hid : ∀ k, (f k).id = k.id)
    (htrigger : ∀ k, (f k).trigger = k.trigger) : TriggerTable where
  tasks := t.tasks.map f
  held := t.held
  numbered := by
    rw [List.map_map, List.length_map, ← t.numbered]
    exact List.map_congr_left fun k _ => hid k
  single := t.single
  belongs h hh := by
    obtain ⟨k, hk, hnumber, hkey⟩ := t.belongs h hh
    exact ⟨f k, List.mem_map_of_mem hk, (hid k).trans hnumber, (htrigger k) ▸ hkey⟩

/-- Hold no task but those under some keys. -/
def keep (t : TriggerTable) (p : TriggerKey → Bool) : TriggerTable where
  tasks := t.tasks
  held := t.held.filter fun h => p h.1
  numbered := t.numbered
  single := t.single.sublist (List.filter_sublist.map _)
  belongs h hh := t.belongs h (List.mem_filter.mp hh).1

/-- Add the task with the next number. -/
def add (t : TriggerTable) (k : Task) (hid : k.id = t.tasks.length) : TriggerTable where
  tasks := t.tasks ++ [k]
  held := t.held
  numbered := by
    rw [List.map_append, t.numbered, List.map_singleton, hid, List.length_append,
      List.length_singleton, List.range_succ]
  single := t.single
  belongs h hh := by
    obtain ⟨j, hj, hspec⟩ := t.belongs h hh
    exact ⟨j, List.mem_append_left _ hj, hspec⟩

/-- Change the task with an id, but neither this id nor its trigger. -/
def modifyTask (t : TriggerTable) (id : Nat) (f : Task → Task) (hid : ∀ k, (f k).id = k.id)
    (htrigger : ∀ k, (f k).trigger = k.trigger) : TriggerTable :=
  t.mapTasks (fun k => if k.id = id then f k else k)
    (fun k => by split <;> simp [hid]) (fun k => by split <;> simp [htrigger])

/-- End a task, unless it is finished. -/
def abort (t : TriggerTable) (id : Nat) : TriggerTable :=
  t.modifyTask id Task.ended Task.ended_id Task.ended_trigger

/-- The task held under a key. -/
def heldBy? (t : TriggerTable) (k : TriggerKey) : Option Nat :=
  t.held.lookup k

/-- The task of a trigger that has just been spawned. -/
def spawned (t : TriggerTable) (now : Instant) (g : Trigger) : Task :=
  Task.await ⟨t.tasks.length, g, none, .finished⟩ now

/-- Start to run a trigger. The answer is the id of its task. -/
def spawn (t : TriggerTable) (now : Instant) (g : Trigger) : Nat × TriggerTable :=
  (t.tasks.length, t.add (t.spawned now g) (Task.await_id _ now))

/-- End the task under a key, if there is one. -/
def release (t : TriggerTable) (k : TriggerKey) : TriggerTable :=
  match t.heldBy? k with
  | none => t
  | some id => (t.abort id).keep (· ≠ k)

/-- A task runs a trigger with a key. -/
def Runs (t : TriggerTable) (k : TriggerKey) (id : Nat) : Prop :=
  ∃ task ∈ t.tasks, task.id = id ∧ task.trigger.key = k

instance : Decidable (t.Runs k id) :=
  inferInstanceAs (Decidable (∃ task ∈ t.tasks, task.id = id ∧ task.trigger.key = k))

theorem Runs.release (h : t.Runs k id) : (t.release k).Runs k id := by
  obtain ⟨task, htask, hid, hkey⟩ := h
  unfold TriggerTable.release
  split
  · exact ⟨task, htask, hid, hkey⟩
  · refine ⟨_, List.mem_map_of_mem htask, ?_⟩
    split <;> simp [hid, hkey]

/-- A key that was released holds nothing. -/
theorem ne_of_mem_release {h : TriggerKey × Nat} (hh : h ∈ (t.release k).held) : h.1 ≠ k := by
  unfold release at hh
  split at hh
  · next hnone =>
    rintro rfl
    exact bne_iff_ne.mp (List.lookup_eq_none_iff.mp hnone h hh) rfl
  · exact of_decide_eq_true (List.mem_filter.mp hh).2

/-- Hold a task under a key, and end the one that was held there. A task is held only under the key
of its trigger. -/
def enter (t : TriggerTable) (k : TriggerKey) (id : Nat) : TriggerTable :=
  if h : t.Runs k id then
    { tasks := (t.release k).tasks
      held := (k, id) :: (t.release k).held
      numbered := (t.release k).numbered
      single := by
        refine List.nodup_cons.mpr ⟨fun hmem => ?_, (t.release k).single⟩
        obtain ⟨a, ha, hkey⟩ := List.mem_map.mp hmem
        exact ne_of_mem_release ha hkey
      belongs := List.forall_mem_cons.mpr ⟨h.release, (t.release k).belongs⟩ }
  else t

/-- End the task under a key. The answer says whether there was one. -/
def remove (t : TriggerTable) (k : TriggerKey) : Bool × TriggerTable :=
  ((t.heldBy? k).isSome, t.release k)

/-- End all tasks under the keys of a group. The answer is their number. -/
def removeGroup (t : TriggerTable) (group : String) : Nat × TriggerTable :=
  let gone := t.held.filter fun h => h.1.group = group
  let ended := gone.foldl (fun t h => t.abort h.2) t
  (gone.length, ended.keep (·.group ≠ group))

/-- End all tasks that are held. -/
def clear (t : TriggerTable) : TriggerTable :=
  (t.held.foldl (fun t h => t.abort h.2) t).keep fun _ => false

/-- The task with an id. -/
def task? (t : TriggerTable) (id : Nat) : Option Task :=
  t.tasks.find? fun k => k.id = id

/-- **Whether a key has a task that will still fire.** -/
def isActive (t : TriggerTable) (k : TriggerKey) : Bool :=
  match (t.heldBy? k).bind t.task? with
  | none => false
  | some task => task.isLive

/-- The keys of the table, in order. -/
def keys (t : TriggerTable) : List TriggerKey :=
  (t.held.map Prod.fst).mergeSort TriggerKey.notAfter

end TriggerTable

end WorkflowScheduler
