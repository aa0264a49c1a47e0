/-!
# Interactions

An interaction is a sequence of atomic requests to something outside. It says which request comes
next, given the answers so far, and nothing about what happens between two of its requests; so
interactions can be interleaved in any way and their requests answered by anything.

## Main definitions

* `Interaction`: one with a result, or one that breaks off without a result
* `Interaction.run`: an interaction run by something that answers its requests

## Main results

* `Interaction.bind_bind`: the order of composition does not matter
* `Interaction.run_bind`: a composition is run one part after the other
-/

namespace WorkflowScheduler

/-- **An interaction by requests `R` with answers `A`**: its result; a break without a result; or a
request, and how it goes on for each answer. -/
inductive Interaction (R : Type) (A : R → Type) (α : Type) : Type where
  | done (a : α)
  | crash
  | ask (r : R) (next : A r → Interaction R A α)

namespace Interaction

variable {R : Type} {A : R → Type} {α β γ σ : Type}

/-- One interaction after another. -/
def bind : Interaction R A α → (α → Interaction R A β) → Interaction R A β
  | .done a, f => f a
  | .crash, _ => .crash
  | .ask r next, f => .ask r fun answer => bind (next answer) f

instance : Monad (Interaction R A) where
  pure := .done
  bind := bind

/-- A single request. -/
def request (r : R) : Interaction R A (A r) :=
  .ask r .done

/-- **An interaction run by something that answers its requests.** There is no result if it breaks
off. -/
def run (answer : (r : R) → σ → A r × σ) : Interaction R A α → σ → Option α × σ
  | .done a, s => (some a, s)
  | .crash, s => (none, s)
  | .ask r next, s =>
    let (a, s) := answer r s
    run answer (next a) s

theorem bind_bind (p : Interaction R A α) (f : α → Interaction R A β)
    (g : β → Interaction R A γ) : bind (bind p f) g = bind p fun a => bind (f a) g := by
  induction p with
  | done a => rfl
  | crash => rfl
  | ask r next ih => simp only [bind, ih]

theorem run_bind (answer : (r : R) → σ → A r × σ) (p : Interaction R A α)
    (f : α → Interaction R A β) (s : σ) :
    run answer (bind p f) s =
      match run answer p s with
      | (some a, s) => run answer (f a) s
      | (none, s) => (none, s) := by
  induction p generalizing s with
  | done a => rfl
  | crash => rfl
  | ask r next ih => simp only [bind, run, ih]

end Interaction

end WorkflowScheduler
