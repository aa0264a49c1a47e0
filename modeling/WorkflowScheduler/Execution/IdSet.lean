/-!
# Sets of ids

The ids of executions that are known to be somewhere, listed ascending and each once.

## Main definitions

* `IdSet`, with `insert`, `erase` and `contains`
* `IdSet.ofList`: the ids of a list, which may repeat them in any order

## Main results

* `IdSet.mem_insert`, `IdSet.mem_erase`, `IdSet.mem_ofList`: what is in a set
-/

namespace WorkflowScheduler

/-- **A set of ids**, listed ascending. -/
structure IdSet where
  ids : List Int
  ascending : ids.Pairwise (· < ·)
  deriving DecidableEq, Repr

namespace IdSet

instance : Membership Int IdSet :=
  ⟨fun s n => n ∈ s.ids⟩

instance (n : Int) (s : IdSet) : Decidable (n ∈ s) :=
  inferInstanceAs (Decidable (n ∈ s.ids))

/-- The set without ids. -/
def empty : IdSet := ⟨[], .nil⟩

/-- Put an id into an ascending list, unless it is there. -/
def insertId (n : Int) : List Int → List Int
  | [] => [n]
  | m :: ms => if n < m then n :: m :: ms else if n = m then m :: ms else m :: insertId n ms

theorem mem_insertId {n k : Int} {ms : List Int} : k ∈ insertId n ms ↔ k = n ∨ k ∈ ms := by
  induction ms with
  | nil => simp [insertId]
  | cons m ms ih =>
    unfold insertId
    split
    · simp
    · split
      · next heq => simp [heq]
      · simp [ih, or_left_comm]

theorem pairwise_insertId (n : Int) {ms : List Int} (h : ms.Pairwise (· < ·)) :
    (insertId n ms).Pairwise (· < ·) := by
  induction h with
  | nil => simp [insertId]
  | cons hm hms ih =>
    next m ms =>
    unfold insertId
    split
    · next hlt =>
      refine .cons (fun k hk => ?_) (.cons hm hms)
      rcases List.mem_cons.mp hk with rfl | hk
      · exact hlt
      · exact Int.lt_trans hlt (hm k hk)
    · split
      · exact .cons hm hms
      · refine .cons (fun k hk => ?_) ih
        rcases mem_insertId.mp hk with rfl | hk
        · omega
        · exact hm k hk

/-- **Put an id into a set.** -/
def insert (s : IdSet) (n : Int) : IdSet :=
  ⟨insertId n s.ids, pairwise_insertId n s.ascending⟩

/-- **Take an id out of a set.** -/
def erase (s : IdSet) (n : Int) : IdSet :=
  ⟨s.ids.filter (· ≠ n), s.ascending.filter _⟩

/-- Whether an id is in a set. -/
def contains (s : IdSet) (n : Int) : Bool :=
  s.ids.contains n

/-- **The ids of a list.** -/
def ofList (ns : List Int) : IdSet :=
  ns.foldl (fun s n => s.insert n) empty

variable {s t : IdSet} {n k : Int}

theorem mem_iff : n ∈ s ↔ n ∈ s.ids := Iff.rfl

@[simp] theorem mem_insert : k ∈ s.insert n ↔ k = n ∨ k ∈ s := mem_insertId

@[simp] theorem mem_erase : k ∈ s.erase n ↔ k ∈ s ∧ k ≠ n := by
  simp [mem_iff, erase]

@[simp] theorem contains_iff : s.contains n = true ↔ n ∈ s := by
  simp [contains, mem_iff]

/-- What is in the set of a list. -/
@[simp] theorem mem_ofList {ns : List Int} : k ∈ ofList ns ↔ k ∈ ns := by
  have hfrom : ∀ s : IdSet, k ∈ ns.foldl (fun s n => s.insert n) s ↔ k ∈ s ∨ k ∈ ns := by
    induction ns with
    | nil => simp
    | cons n ns ih =>
      intro s
      rw [List.foldl_cons, ih, mem_insert, List.mem_cons, or_comm (a := k = n), or_assoc]
  refine (hfrom empty).trans ?_
  simp [mem_iff, empty]

end IdSet

end WorkflowScheduler
