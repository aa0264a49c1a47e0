import Mathlib.Data.List.Induction
import Mathlib.Data.String.Basic
import WorkflowScheduler.Proofs.Site

/-!
# The registry as a record of its history

An executor comes into the registry with its first registration or report after it was last evicted,
and what is known of it is what has been told since then. So the entry of an address can be read off
the history of the registry, without the registry.

## Main definitions

* `Registry.Removes`: an executor is removed, and no other
* `RegistryEvent`, `Registry.step`, `Registry.after`: what happens to a registry
* `RegistryEvent.tenure`: what has happened since an executor was last evicted
* `RegistryEvent.entry`: the entry that a history calls for

## Main results

* `Registry.get?_step`: what an event does to the entry of an address
* `RegistryEvent.entry_concat`: how the entry that is called for goes on
* `Registry.reflects_history`: the registry reflects its history
-/

namespace WorkflowScheduler

/-! ## Entries -/

namespace Registry

section Upsert

variable {a b : Address} {change : Executor → Executor} {new : Executor} {es : List Executor}

variable (hchange : ∀ e, (change e).address = e.address) (hnew : new.address = a)

include hchange hnew

/-- The entry of the address that comes in. -/
theorem find?_upsert (h : Ordered es) :
    (upsert a change new es).find? (·.address = a) =
      some ((es.find? (·.address = a)).elim new change) := by
  induction h with
  | nil => simp [upsert, hnew]
  | cons he hes ih =>
    next e es =>
    unfold upsert
    by_cases hea : e.address = a
    · simp [hea, hchange]
    · rw [if_neg hea]
      split
      · next hlt =>
        -- none of those that follow has the address
        have hnone : es.find? (·.address = a) = none := by
          refine List.find?_eq_none.mpr fun x hx => ?_
          simpa using (hlt.trans (he x hx)).ne.symm
        simp [hnew, hea, hnone]
      · simpa [hea] using ih

/-- The entries of other addresses. -/
theorem find?_upsert_of_ne (hba : b ≠ a) :
    (upsert a change new es).find? (·.address = b) = es.find? (·.address = b) := by
  induction es with
  | nil => simp [upsert, hnew, hba.symm]
  | cons e es ih =>
    unfold upsert
    split
    · next hea => simp [hchange, hea, hba.symm]
    · split
      · simp [hnew, hba.symm]
      · simp only [List.find?_cons, ih]

/-- **What a change does to the entry of an address.** -/
theorem find?_upsert_eq (h : Ordered es) (b : Address) :
    (upsert a change new es).find? (·.address = b) =
      if a = b then some ((es.find? (·.address = b)).elim new change)
      else es.find? (·.address = b) := by
  split
  · next hab =>
    subst hab
    exact find?_upsert hchange hnew h
  · next hab => exact find?_upsert_of_ne hchange hnew (Ne.symm hab)

end Upsert

variable {r : Registry} {a b : Address}

theorem get?_evict (r : Registry) (a b : Address) :
    (r.evict a).2.get? b = if b = a then none else r.get? b := by
  simp only [evict, get?, List.find?_filter]
  split
  · next heq => simp [heq]
  · next hne =>
    congr 1
    funext x
    by_cases hx : x.address = b <;> simp [hx, hne]

/-- **An executor is removed from a registry**, and no other: the others are listed as before, and
the counter has not moved. -/
structure Removes (r : Registry) (a : Address) (s : Registry) : Prop where
  get? : ∀ b, s.get? b = if b = a then none else r.get? b
  executors : s.executors = r.executors.filter (·.address ≠ a)
  cursor : s.cursor = r.cursor

theorem removes_evict (r : Registry) (a : Address) : r.Removes a (r.evict a).2 where
  get? := get?_evict r a
  executors := rfl
  cursor := rfl

theorem get?_pick (r : Registry) (b : Address) : r.pick.2.get? b = r.get? b := by
  rw [get?, pick_executors, get?]

theorem address_of_get? {x : Executor} (h : r.get? a = some x) : x.address = a := by
  simpa using List.find?_some h

theorem mem_of_get? {x : Executor} (h : r.get? a = some x) : x ∈ r.executors :=
  List.mem_of_find?_eq_some h

/-- **Each executor is found under its own address.** -/
theorem Ordered.find?_eq {es : List Executor} (h : Ordered es) {x : Executor} (hx : x ∈ es) :
    es.find? (·.address = x.address) = some x := by
  induction h with
  | nil => exact absurd hx List.not_mem_nil
  | cons he hes ih =>
    rcases List.mem_cons.mp hx with rfl | hx
    · simp
    · rw [List.find?_cons_of_neg (by simpa using (he x hx).ne), ih hx]

theorem has_iff_get? : r.Has a ↔ ∃ x, r.get? a = some x :=
  ⟨fun h => let ⟨x, hx, _⟩ := h.get?; ⟨x, hx⟩,
    fun ⟨x, hx⟩ => ⟨x, mem_of_get? hx, address_of_get? hx⟩⟩

end Registry

/-! ## Events -/

/-- **What happens to a registry**: an executor registers, or reports the executions that it holds,
or one is picked, or one is evicted. -/
inductive RegistryEvent where
  | register (a : Address) (at_ : Instant)
  | report (a : Address) (reportedAt : Instant) (execIds : List Int)
  | pick
  | evict (a : Address)
  deriving DecidableEq

namespace Registry

/-- **A registry after an event.** -/
def step (r : Registry) : RegistryEvent → Registry
  | .register a at_ => r.register a at_
  | .report a reportedAt execIds => r.report a (.of reportedAt execIds)
  | .pick => r.pick.2
  | .evict a => (r.evict a).2

/-- **The registry after a history**, which begins without executors. -/
def after (evs : List RegistryEvent) : Registry :=
  evs.foldl step empty

theorem after_concat (evs : List RegistryEvent) (ev : RegistryEvent) :
    after (evs ++ [ev]) = (after evs).step ev := by
  simp [after]

end Registry

namespace RegistryEvent

/-- The address that an event is about. -/
def address? : RegistryEvent → Option Address
  | register a _ => some a
  | report a _ _ => some a
  | pick => none
  | evict a => some a

/-- An event that makes an executor known. -/
def Announces (ev : RegistryEvent) (a : Address) : Prop :=
  match ev with
  | register b _ => b = a
  | report b _ _ => b = a
  | _ => False

/-- The time at which an event registers an executor. -/
def registration? (a : Address) : RegistryEvent → Option Instant
  | register b at_ => if b = a then some at_ else none
  | _ => none

/-- What an executor reports with an event. -/
def heartbeat? (a : Address) : RegistryEvent → Option Heartbeat
  | report b reportedAt execIds => if b = a then some (.of reportedAt execIds) else none
  | _ => none

/-- **What has happened since an executor was last evicted.** -/
def tenure (a : Address) (evs : List RegistryEvent) : List RegistryEvent :=
  (evs.reverse.takeWhile (· ≠ .evict a)).reverse

/-- When an executor has registered since it was last evicted. -/
def registrations (a : Address) (evs : List RegistryEvent) : List Instant :=
  (tenure a evs).filterMap (registration? a)

/-- What an executor has reported since it was last evicted. -/
def heartbeats (a : Address) (evs : List RegistryEvent) : List Heartbeat :=
  (tenure a evs).filterMap (heartbeat? a)

/-- The time of the last registration, or, if there was none, that of the first report. -/
def registeredAt? (a : Address) (evs : List RegistryEvent) : Option Instant :=
  (registrations a evs).getLast?.or ((heartbeats a evs).head?.map (·.reportedAt))

/-- **The entry that a history calls for**: there is one if the executor has registered or reported
since it was last evicted, and it holds what was reported last. -/
def entry (a : Address) (evs : List RegistryEvent) : Option Executor :=
  (registeredAt? a evs).map fun at_ => ⟨a, at_, (heartbeats a evs).getLast?⟩

variable {a : Address} {evs : List RegistryEvent} {ev : RegistryEvent}

theorem tenure_evict (a : Address) (evs : List RegistryEvent) :
    tenure a (evs ++ [.evict a]) = [] := by
  simp [tenure]

theorem tenure_concat (h : ev ≠ .evict a) : tenure a (evs ++ [ev]) = tenure a evs ++ [ev] := by
  simp [tenure, h]

theorem registrations_concat (h : ev ≠ .evict a) :
    registrations a (evs ++ [ev]) = registrations a evs ++ (registration? a ev).toList := by
  rw [registrations, tenure_concat h, List.filterMap_append, registrations]
  cases hr : registration? a ev <;> simp [hr]

theorem heartbeats_concat (h : ev ≠ .evict a) :
    heartbeats a (evs ++ [ev]) = heartbeats a evs ++ (heartbeat? a ev).toList := by
  rw [heartbeats, tenure_concat h, List.filterMap_append, heartbeats]
  cases hb : heartbeat? a ev <;> simp [hb]

/-- An event that is not about an executor registers and reports nothing of it. -/
theorem silent_of_ne (h : ev.address? ≠ some a) :
    ev ≠ .evict a ∧ registration? a ev = none ∧ heartbeat? a ev = none := by
  cases ev <;> simp_all [address?, registration?, heartbeat?]

/-! ## What an event does to an entry -/

/-- **What an event does to the entry of an address.** -/
def turn (a : Address) (x : Option Executor) : RegistryEvent → Option Executor
  | register b at_ =>
    if b = a then some (x.elim ⟨b, at_, none⟩ fun e => { e with registeredAt := at_ }) else x
  | report b reportedAt execIds =>
    let h := Heartbeat.of reportedAt execIds
    if b = a then some (x.elim ⟨b, reportedAt, some h⟩ fun e => { e with heartbeat := some h })
    else x
  | pick => x
  | evict b => if b = a then none else x

theorem turn_of_ne (h : ev.address? ≠ some a) (x : Option Executor) : ev.turn a x = x := by
  cases ev <;> simp_all [address?, turn]

theorem entry_register (a : Address) (evs : List RegistryEvent) (at_ : Instant) :
    entry a (evs ++ [.register a at_]) = (register a at_).turn a (entry a evs) := by
  have hr : registrations a (evs ++ [.register a at_]) = registrations a evs ++ [at_] := by
    rw [registrations_concat (by simp), registration?, if_pos rfl, Option.toList_some]
  have hb : heartbeats a (evs ++ [.register a at_]) = heartbeats a evs := by
    rw [heartbeats_concat (by simp)]
    exact List.append_nil _
  rw [entry, entry, registeredAt?, registeredAt?, hr, hb, List.getLast?_concat]
  -- an executor that was not known has reported nothing
  rcases heartbeats a evs with _ | ⟨h, hs⟩ <;>
    cases (registrations a evs).getLast? <;> simp [turn]

theorem entry_report (a : Address) (evs : List RegistryEvent) (reportedAt : Instant)
    (execIds : List Int) :
    entry a (evs ++ [.report a reportedAt execIds]) =
      (report a reportedAt execIds).turn a (entry a evs) := by
  have hr : registrations a (evs ++ [.report a reportedAt execIds]) = registrations a evs := by
    rw [registrations_concat (by simp)]
    exact List.append_nil _
  have hb : heartbeats a (evs ++ [.report a reportedAt execIds]) =
      heartbeats a evs ++ [.of reportedAt execIds] := by
    rw [heartbeats_concat (by simp), heartbeat?, if_pos rfl, Option.toList_some]
  rw [entry, entry, registeredAt?, registeredAt?, hr, hb, List.getLast?_concat, List.head?_append]
  -- the first report counts only if there was none before
  rcases heartbeats a evs with _ | ⟨h, hs⟩ <;>
    cases (registrations a evs).getLast? <;> simp [turn, Heartbeat.of]

theorem entry_evict (a : Address) (evs : List RegistryEvent) :
    entry a (evs ++ [.evict a]) = none := by
  simp [entry, registeredAt?, registrations, heartbeats, tenure_evict]

/-- **How the entry that is called for goes on.** -/
theorem entry_concat (a : Address) (evs : List RegistryEvent) (ev : RegistryEvent) :
    entry a (evs ++ [ev]) = ev.turn a (entry a evs) := by
  by_cases hev : ev.address? = some a
  · cases ev with
    | register b at_ =>
      obtain rfl := Option.some.inj hev
      exact entry_register b evs at_
    | report b reportedAt execIds =>
      obtain rfl := Option.some.inj hev
      exact entry_report b evs reportedAt execIds
    | pick => cases hev
    | evict b =>
      obtain rfl := Option.some.inj hev
      rw [entry_evict, turn, if_pos rfl]
  · obtain ⟨hne, hr, hb⟩ := silent_of_ne hev
    rw [turn_of_ne hev, entry, registeredAt?, registrations_concat hne, heartbeats_concat hne, hr,
      hb]
    simp only [Option.toList_none, List.append_nil, entry, registeredAt?]

theorem announces_iff :
    ev.Announces a ↔ registration? a ev ≠ none ∨ heartbeat? a ev ≠ none := by
  cases ev <;> simp [Announces, registration?, heartbeat?]

/-- An executor is called for exactly if it has registered or reported since it was last evicted. -/
theorem isSome_entry_iff : (entry a evs).isSome ↔ ∃ ev ∈ tenure a evs, ev.Announces a := by
  have hnone : entry a evs = none ↔ registrations a evs = [] ∧ heartbeats a evs = [] := by
    simp [entry, registeredAt?]
  rw [← not_iff_not, Option.not_isSome_iff_eq_none, hnone, registrations, heartbeats,
    List.filterMap_eq_nil_iff, List.filterMap_eq_nil_iff, ← forall₂_and]
  simp only [announces_iff, not_exists, not_and, not_or, not_not]

end RegistryEvent

namespace Registry

open RegistryEvent

variable {r : Registry} {a : Address}

/-- **What an event does to the entry of an address.** -/
theorem get?_step (r : Registry) (ev : RegistryEvent) (a : Address) :
    (r.step ev).get? a = ev.turn a (r.get? a) := by
  cases ev with
  | register b at_ =>
    apply find?_upsert_eq _ _ r.ordered
    · exact fun _ => rfl
    · rfl
  | report b reportedAt execIds =>
    apply find?_upsert_eq _ _ r.ordered
    · exact fun _ => rfl
    · rfl
  | pick => exact get?_pick r a
  | evict b => simp only [Registry.step, get?_evict, turn, eq_comm]

/-- **The registry holds the entry that its history calls for.** -/
theorem get?_after (a : Address) (evs : List RegistryEvent) :
    (after evs).get? a = entry a evs := by
  induction evs using List.reverseRecOn with
  | nil => rfl
  | append_singleton evs ev ih =>
    rw [after_concat, get?_step, ih, entry_concat]

/-- **The registry reflects its history.** After any history an executor is there exactly if it has
registered or reported since it was last evicted; its entry shows the time of its last registration
since then, or, if there was none, that of its first report, and what it has reported last; an
eviction hands out this entry, or nothing, and leaves none; events about other addresses and picks
change nothing of it; and the executors are listed strictly in the order of their addresses, each
found under its own. -/
theorem reflects_history (evs : List RegistryEvent) (a : Address) :
    ((after evs).Has a ↔ ∃ ev ∈ tenure a evs, ev.Announces a) ∧
    (after evs).get? a = entry a evs ∧
    ((after evs).evict a).1 = entry a evs ∧ ¬ ((after evs).evict a).2.Has a ∧
    (∀ ev : RegistryEvent, ev.address? ≠ some a →
      (after (evs ++ [ev])).get? a = (after evs).get? a) ∧
    ((after evs).executors.Pairwise fun x y => x.address.Precedes y.address) ∧
    ∀ x, x ∈ (after evs).executors ↔ (after evs).get? x.address = some x := by
  have hentry := get?_after a evs
  refine ⟨?_, hentry, hentry, ?_, ?_, (after evs).ordered,
    fun x => ⟨(after evs).ordered.find?_eq, mem_of_get?⟩⟩
  · rw [has_iff_get?, hentry, ← isSome_entry_iff, Option.isSome_iff_exists]
  · rw [has_iff_get?, get?_evict, if_pos rfl]
    simp
  · intro ev hev
    rw [after_concat, get?_step, turn_of_ne hev]

/-- An executor that was evicted is back with its next report, and as of that report. -/
example : (after [.register ⟨"a", 1⟩ ⟨5, 0⟩, .evict ⟨"a", 1⟩, .report ⟨"a", 1⟩ ⟨7, 0⟩ [3, 1],
    .report ⟨"a", 1⟩ ⟨9, 0⟩ [4, 2, 4]]).get? ⟨"a", 1⟩ =
      some ⟨⟨"a", 1⟩, ⟨7, 0⟩, some ⟨⟨9, 0⟩, ⟨[2, 4], by decide⟩⟩⟩ := by
  decide

end Registry

end WorkflowScheduler
