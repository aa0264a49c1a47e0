import Mathlib.Data.List.Count
import Mathlib.Data.List.Rotate
import Mathlib.Data.Option.Basic
import WorkflowScheduler.Proofs.RegistryHistory

/-!
# The rotation of executors

While no executor comes or goes, the picks go through the executors in the order of their addresses,
from where the counter stands, again and again. So as many picks in a row as there are executors are
a rotation of their list, whichever pick is the first. When the counter wraps, or when executors come
and go, the rotation goes on from another place, but it never leaves the list.

## Main definitions

* `Registry.addresses`: the addresses of the executors, in their order
* `Registry.run`: a registry after events
* `Registry.picked`: what is answered to the picks among events
* `RegistryEvent.Retains`: an event by which no executor comes or goes
* `turns`: the positions of a list, one after the other and from the start again

## Main results

* `turns_length`: as many turns as there are positions are a rotation of the list
* `Registry.addresses_picked`: what is picked while no executor comes or goes
* `Registry.rotation_fair`: every executor is picked equally often
-/

namespace WorkflowScheduler

/-! ## Turns -/

section Turns

variable {α : Type} {l : List α} {a : α}

/-- **The positions of a list in turn**, from a position on and `p` of them. -/
def turns (l : List α) (c p : Nat) : List (Option α) :=
  (List.range p).map fun k => l[(c + k) % l.length]?

theorem turns_add (l : List α) (c p q : Nat) :
    turns l c (p + q) = turns l c p ++ turns l (c + p) q := by
  simp [turns, List.range_add, Nat.add_assoc]

/-- **As many turns as there are positions are a rotation of the list.** -/
theorem turns_length (l : List α) (c : Nat) : turns l c l.length = (l.rotate c).map some := by
  refine List.ext_getElem (by simp [turns]) fun k hk _ => ?_
  have hlt : (c + k) % l.length < l.length := Nat.mod_lt _ (by simp [turns] at hk; omega)
  simp [turns, List.getElem_rotate, Nat.add_comm k c, hlt]

theorem drop_turns (l : List α) (c j p : Nat) : (turns l c (j + p)).drop j = turns l (c + j) p := by
  rw [turns_add, List.drop_left' (by simp [turns])]

theorem take_turns (l : List α) (c : Nat) {p q : Nat} (h : p ≤ q) :
    (turns l c q).take p = turns l c p := by
  obtain ⟨r, rfl⟩ := Nat.exists_eq_add_of_le h
  rw [turns_add, List.take_left' (by simp [turns])]

/-- **Whole rounds come to every position equally often.** -/
theorem count_turns [DecidableEq α] (hl : l.Nodup) (ha : a ∈ l) (c m : Nat) :
    (turns l c (m * l.length)).count (some a) = m := by
  -- on the rounds: each is a rotation of the list, from where the last one has ended
  induction m with
  | zero => simp [turns]
  | succ m ih =>
    have hround : ((l.rotate (c + m * l.length)).map some).count (some a) = 1 := by
      rw [List.count_map_of_injective _ _ (Option.some_injective α), (l.rotate_perm _).count_eq]
      exact List.count_eq_one_of_mem hl ha
    rw [Nat.succ_mul, turns_add, List.count_append, ih, turns_length, hround]

end Turns

/-! ## Events by which no executor comes or goes -/

namespace Registry

variable {r s : Registry} {a : Address} {ev : RegistryEvent} {evs : List RegistryEvent}

/-- The addresses of the executors, in their order. -/
def addresses (r : Registry) : List Address :=
  r.executors.map (·.address)

@[simp] theorem length_addresses (r : Registry) : r.addresses.length = r.executors.length :=
  List.length_map _

theorem addresses_eq_nil : r.addresses = [] ↔ r.executors = [] :=
  List.map_eq_nil_iff

theorem has_iff_mem_addresses : r.Has a ↔ a ∈ r.addresses :=
  List.mem_map.symm

/-- No executor has the address of another one. -/
theorem nodup_addresses (r : Registry) : r.addresses.Nodup :=
  List.Pairwise.map _ (fun _ _ hlt => hlt.ne) r.ordered

/-- **A registry after events.** -/
def run (r : Registry) (evs : List RegistryEvent) : Registry :=
  evs.foldl step r

theorem run_concat (r : Registry) (evs : List RegistryEvent) (ev : RegistryEvent) :
    r.run (evs ++ [ev]) = (r.run evs).step ev := by
  simp [run]

end Registry

/-- **An event by which no executor comes or goes**: one that is there registers again or reports,
one that is not there is evicted, or there is a pick. -/
def RegistryEvent.Retains (ev : RegistryEvent) (r : Registry) : Prop :=
  match ev with
  | .register a _ => r.Has a
  | .report a _ _ => r.Has a
  | .pick => True
  | .evict a => ¬ r.Has a

instance (r : Registry) (a : Address) : Decidable (r.Has a) :=
  inferInstanceAs (Decidable (∃ x ∈ r.executors, x.address = a))

instance (ev : RegistryEvent) (r : Registry) : Decidable (ev.Retains r) :=
  match ev with
  | .register a _ => inferInstanceAs (Decidable (r.Has a))
  | .report a _ _ => inferInstanceAs (Decidable (r.Has a))
  | .pick => isTrue trivial
  | .evict a => inferInstanceAs (Decidable (¬ r.Has a))

namespace Registry

variable {r s : Registry} {a : Address} {ev : RegistryEvent} {evs : List RegistryEvent}

/-- A change of an executor that is there leaves the addresses as they are. -/
theorem Ordered.addresses_upsert {es : List Executor} {change : Executor → Executor}
    {new : Executor} (h : Ordered es) (hchange : ∀ e, (change e).address = e.address)
    (ha : ∃ x ∈ es, x.address = a) :
    (Registry.upsert a change new es).map (·.address) = es.map (·.address) := by
  induction h with
  | nil => simp at ha
  | cons he hes ih =>
    next e es =>
    unfold Registry.upsert
    by_cases hea : e.address = a
    · simp [hea, hchange]
    · obtain ⟨x, hx, rfl⟩ := ha
      have hxes : x ∈ es := (List.mem_cons.mp hx).resolve_left fun heq => hea (heq ▸ rfl)
      -- the executor stands behind this one, so that nothing is put in front of it
      have hnot : ¬ x.address.Precedes e.address := fun hlt =>
        Address.not_precedes_self _ (hlt.trans (he x hxes))
      simp [hea, hnot, ih ⟨x, hxes, rfl⟩]

/-- **An event by which no executor comes or goes leaves the addresses as they are.** -/
theorem addresses_step (hev : ev.Retains r) :
    (r.step ev).addresses = r.addresses := by
  cases ev with
  | register b at_ => exact r.ordered.addresses_upsert (fun _ => rfl) hev
  | report b reportedAt execIds => exact r.ordered.addresses_upsert (fun _ => rfl) hev
  | pick => exact congrArg (List.map (·.address)) r.pick_executors
  | evict b =>
    have hkept : (r.executors.filter fun e => e.address ≠ b) = r.executors :=
      List.filter_eq_self.mpr fun x hx => decide_eq_true fun hxb => hev ⟨x, hx, hxb⟩
    exact congrArg (List.map (·.address)) hkept

/-- Which events these are depends on the addresses only. -/
theorem retains_congr (h : s.addresses = r.addresses) : ev.Retains s ↔ ev.Retains r := by
  have hhas : ∀ b, s.Has b ↔ r.Has b := fun b => by
    rw [has_iff_mem_addresses, has_iff_mem_addresses, h]
  cases ev <;> simp only [RegistryEvent.Retains, hhas]

/-- **While no executor comes or goes the addresses stay as they are.** -/
theorem addresses_run (hevs : ∀ ev ∈ evs, ev.Retains r) :
    (r.run evs).addresses = r.addresses := by
  induction evs using List.reverseRecOn with
  | nil => rfl
  | append_singleton evs ev ih =>
    obtain ⟨hevs, hev⟩ := List.forall_mem_append.mp hevs
    have hrun := ih hevs
    have hretains := (retains_congr hrun).mpr (hev ev List.mem_cons_self)
    rw [run_concat, addresses_step hretains, hrun]

theorem run_ne_nil (hne : r.executors ≠ []) (hevs : ∀ ev ∈ evs, ev.Retains r) :
    (r.run evs).executors ≠ [] := by
  rw [ne_eq, ← addresses_eq_nil, addresses_run hevs, addresses_eq_nil]
  exact hne

/-! ## Picks -/

/-- **What is answered to the picks among events.** -/
def picked (r : Registry) : List RegistryEvent → List (Option Executor)
  | [] => []
  | ev :: evs => (if ev = .pick then [r.pick.1] else []) ++ picked (r.step ev) evs

theorem picked_concat (r : Registry) (evs : List RegistryEvent) (ev : RegistryEvent) :
    r.picked (evs ++ [ev]) = r.picked evs ++ if ev = .pick then [(r.run evs).pick.1] else [] := by
  induction evs generalizing r with
  | nil => simp [picked, run]
  | cons e evs ih => rw [List.cons_append, picked, ih, picked, List.append_assoc]; rfl

theorem count_concat (evs : List RegistryEvent) (ev : RegistryEvent) :
    (evs ++ [ev]).count .pick = evs.count .pick + if ev = .pick then 1 else 0 := by
  by_cases hev : ev = .pick <;> simp [hev]

/-- **A pick answers the executor at whose position the counter stands.** -/
theorem pick_of_ne_nil (hne : r.executors ≠ []) :
    r.pick = (r.executors[r.cursor.toNat % r.executors.length]?, { r with cursor := r.cursor + 1 }) :=
  if_neg (by simpa using hne)

theorem address_pick (hne : r.executors ≠ []) :
    r.pick.1.map (·.address) = r.addresses[r.cursor.toNat % r.addresses.length]? := by
  simp [pick_of_ne_nil hne, addresses]

/-- The counter moves with each pick, as long as there is an executor. -/
theorem cursor_step (hne : r.executors ≠ []) (ev : RegistryEvent) :
    (r.step ev).cursor = r.cursor + if ev = .pick then 1 else 0 := by
  cases ev with
  | pick => simp [step, pick_of_ne_nil hne]
  | _ => simp [step, register, report, evict]

/-- **The counter after so many picks.** -/
theorem cursor_run (hne : r.executors ≠ []) (hevs : ∀ ev ∈ evs, ev.Retains r) :
    (r.run evs).cursor = r.cursor + .ofNat (evs.count .pick) := by
  induction evs using List.reverseRecOn with
  | nil => simp [Registry.run]
  | append_singleton evs ev ih =>
    obtain ⟨hevs, -⟩ := List.forall_mem_append.mp hevs
    rw [run_concat, cursor_step (run_ne_nil hne hevs), ih hevs, count_concat, UInt64.add_assoc]
    congr 1
    by_cases hev : ev = .pick <;> simp [hev, UInt64.ofNat_add]

/-- Where the counter stands after so many picks, the wrap included. -/
theorem toNat_cursor_run (hne : r.executors ≠ []) (hevs : ∀ ev ∈ evs, ev.Retains r) :
    (r.run evs).cursor.toNat = (r.cursor.toNat + evs.count .pick) % 2 ^ 64 := by
  rw [cursor_run hne hevs, UInt64.toNat_add, UInt64.toNat_ofNat', Nat.add_mod_mod]

/-- **What is picked while no executor comes or goes**: the executors in turn, as long as the counter
does not wrap. -/
theorem addresses_picked (hne : r.executors ≠ [])
    (hevs : ∀ ev ∈ evs, ev.Retains r) (hwrap : r.cursor.toNat + evs.count .pick ≤ 2 ^ 64) :
    (r.picked evs).map (·.map (·.address)) =
      turns r.addresses r.cursor.toNat (evs.count .pick) := by
  induction evs using List.reverseRecOn with
  | nil => rfl
  | append_singleton evs ev ih =>
    obtain ⟨hevs, -⟩ := List.forall_mem_append.mp hevs
    rw [count_concat] at hwrap
    rw [picked_concat, count_concat, List.map_append, ih hevs (by omega), turns_add]
    congr 1
    by_cases hev : ev = .pick
    · -- the pick finds the counter where the picks before it have left it
      have hcursor := toNat_cursor_run hne hevs
      rw [if_pos hev] at hwrap
      rw [Nat.mod_eq_of_lt (by omega)] at hcursor
      have hpick := address_pick (run_ne_nil hne hevs)
      rw [hcursor, addresses_run hevs] at hpick
      simp [hev, turns, hpick]
    · simp [hev, turns]

/-- **Whole rounds of picks come to every executor equally often**, whichever pick is the first. -/
theorem count_picked (hne : r.executors ≠ []) (hevs : ∀ ev ∈ evs, ev.Retains r)
    {j m : Nat} (hj : j + m * r.executors.length ≤ evs.count .pick)
    (hwrap : r.cursor.toNat + evs.count .pick ≤ 2 ^ 64) (ha : r.Has a) :
    ((((r.picked evs).drop j).take (m * r.executors.length)).map (·.map (·.address))).count (some a)
      = m := by
  obtain ⟨q, hq⟩ := Nat.exists_eq_add_of_le hj
  rw [List.map_take, List.map_drop, addresses_picked hne hevs hwrap, hq, Nat.add_assoc, drop_turns,
    take_turns _ _ (Nat.le_add_right _ _), ← length_addresses]
  exact count_turns r.nodup_addresses (has_iff_mem_addresses.mp ha) _ m

/-- **Every executor is picked equally often.** From any registry and any counter on: after whatever
events a pick answers one of the executors that are there and moves the counter on, or, if there is
none, it answers nothing and leaves the counter. While no executor comes or goes, the pick that
follows `k` others answers the executor at the position where the counter stands by then, in the
order of the addresses, the wrap included; and until the counter wraps, any picks in a row that make
up `m` whole rounds answer every executor `m` times. -/
theorem rotation_fair (past : List RegistryEvent) (c : UInt64) (evs : List RegistryEvent) :
    let r : Registry := { after past with cursor := c }
    let s := r.run evs
    let n := r.executors.length
    let k := evs.count .pick
    (s.executors = [] → s.pick = (none, s)) ∧
    (s.executors ≠ [] →
      ∃ x ∈ s.executors, s.pick = (some x, { s with cursor := s.cursor + 1 })) ∧
    (r.executors ≠ [] → (∀ ev ∈ evs, ev.Retains r) →
      s.addresses = r.addresses ∧ s.addresses.Pairwise Address.Precedes ∧
      s.pick.1 = s.executors[(c.toNat + k) % 2 ^ 64 % n]? ∧
      (c.toNat + k < 2 ^ 64 → s.pick.1 = s.executors[(c.toNat + k) % n]?) ∧
      (c.toNat + k ≤ 2 ^ 64 → ∀ j m, j + m * n ≤ k → ∀ a, r.Has a →
        ((((r.picked evs).drop j).take (m * n)).map (·.map (·.address))).count (some a) = m)) := by
  intro r s n k
  refine ⟨fun hnil => if_pos (by simp [hnil]), fun hne => ?_, fun hne hevs => ?_⟩
  · rcases s.pick_cases with ⟨hnil, -⟩ | ⟨x, hx, hp⟩
    · exact absurd hnil hne
    · exact ⟨x, hx, hp⟩
  · have haddresses : s.addresses = r.addresses := addresses_run hevs
    have hlength : s.executors.length = n := by
      rw [← length_addresses, haddresses, length_addresses]
    have hpick : s.pick.1 = s.executors[(c.toNat + k) % 2 ^ 64 % n]? := by
      rw [pick_of_ne_nil (run_ne_nil hne hevs), toNat_cursor_run hne hevs, hlength]
    refine ⟨haddresses, List.Pairwise.map _ (fun _ _ hlt => hlt) s.ordered, hpick,
      fun hwrap => ?_, fun hwrap j m hj a ha => count_picked hne hevs hj hwrap ha⟩
    rw [hpick, Nat.mod_eq_of_lt hwrap]

/-- Three executors, of which one has come back, when the counter is about to wrap: while they
register again and report they are picked twice each. -/
theorem rotation_fair_beforeWrap :
    let past : List RegistryEvent := [.register ⟨"b", 1⟩ ⟨0, 0⟩, .register ⟨"a", 2⟩ ⟨1, 0⟩,
      .evict ⟨"b", 1⟩, .register ⟨"a", 1⟩ ⟨2, 0⟩, .report ⟨"b", 1⟩ ⟨3, 0⟩ [7]]
    let evs : List RegistryEvent := [.pick, .register ⟨"b", 1⟩ ⟨4, 0⟩, .pick, .pick,
      .report ⟨"a", 2⟩ ⟨5, 0⟩ [8, 9], .pick, .evict ⟨"d", 1⟩, .pick, .pick]
    let r : Registry := { after past with cursor := 18446744073709551610 }
    r.executors.length = 3 ∧ (∀ ev ∈ evs, ev.Retains r) ∧
      (r.run evs).pick.1 = (r.run evs).executors[0]? ∧ (r.run evs).cursor = 0 ∧
      ∀ a, r.Has a → ((((r.picked evs).drop 0).take (2 * 3)).map (·.map (·.address))).count (some a)
        = 2 := by
  intro past evs r
  have hretains : ∀ ev ∈ evs, ev.Retains r := by decide
  obtain ⟨-, -, hfair⟩ := rotation_fair past 18446744073709551610 evs
  obtain ⟨-, -, hpick, -, hrounds⟩ := hfair (by decide) hretains
  have hturn : (UInt64.toNat 18446744073709551610 + evs.count .pick) % 2 ^ 64 % r.executors.length =
      0 := by decide
  refine ⟨rfl, hretains, hpick.trans (congrArg ((r.run evs).executors[·]?) hturn), by decide, ?_⟩
  exact fun a ha => hrounds (by decide) 0 2 (by decide) a ha

end Registry

end WorkflowScheduler
