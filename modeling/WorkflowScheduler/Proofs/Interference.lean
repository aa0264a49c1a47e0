import WorkflowScheduler.Interaction

/-!
# Interactions among others

Between two requests of an interaction others may change the state. What can be said of an
interaction then is said on terms: on which changes by others it relies, and which requests it makes
after which exchanges.

## Main definitions

* `Exchange`: a request and what was answered
* `Terms`: who answers, what the others do, and what may be asked
* `Interaction.Keeps`: an interaction keeps to its terms, and its end meets a condition
* `Interaction.advance`: one step of an interaction
* `Turn`, `Interaction.Ran`: one whole course of an interaction, with what others did meanwhile
* `Interaction.course`: the course of an interaction that a sequence of answers gives
* `Interaction.Yields`: what an interaction asks, and how it ends, whatever is answered

## Main results

* `Interaction.Keeps.bind`: one interaction after another
* `Interaction.Keeps.rely`: an interaction keeps to its terms while others act
* `Interaction.Keeps.advance`: what a step of it asks, and where it leads
* `Interaction.Keeps.ran`: how a course of it ends
* `Interaction.ran_run`: what is run without interruption is one of the courses
-/

namespace WorkflowScheduler

variable {R : Type} {A : R → Type} {α β σ ω : Type}

/-- A request, and what was answered to it. -/
abbrev Exchange (A : R → Type) := (r : R) × A r

/-- **Terms of an interaction**: who answers it, what the others may do to the state meanwhile, and
which request may be made after which exchanges. -/
structure Terms (A : R → Type) (σ ω : Type) where
  answer : ω → (r : R) → σ → A r × σ
  rely : σ → σ → Prop
  may : List (Exchange A) → R → σ → Prop
  rely_trans : ∀ {s t u}, rely s t → rely t u → rely s u
  rely_self : ∀ {s t}, rely s t → rely t t

namespace Interaction

/-- **An interaction keeps to its terms**, after the exchanges `h` and from the state `s` on:
whatever the others do and whatever is answered, it asks only what it may and ends with `post`. -/
def Keeps (T : Terms A σ ω) (post : List (Exchange A) → Option α → σ → Prop) :
    Interaction R A α → List (Exchange A) → σ → Prop
  | .done a, h, s => ∀ t, T.rely s t → post h (some a) t
  | .crash, h, s => ∀ t, T.rely s t → post h none t
  | .ask r next, h, s => ∀ t, T.rely s t → T.may h r t ∧
      ∀ o, Keeps T post (next (T.answer o r t).1) (h ++ [⟨r, (T.answer o r t).1⟩])
        (T.answer o r t).2

/-- One step of an interaction: what it asks, what is answered, and how it goes on; or its end. -/
def advance (answer : (r : R) → σ → A r × σ) :
    Interaction R A α → σ → (Exchange A × Interaction R A α × σ) ⊕ Option α
  | .done a, _ => .inr (some a)
  | .crash, _ => .inr none
  | .ask r next, s => .inl (⟨r, (answer r s).1⟩, next (answer r s).1, (answer r s).2)

theorem answer_of_advance {answer : (r : R) → σ → A r × σ} {p q : Interaction R A α}
    {x : Exchange A} {s t : σ} (h : p.advance answer s = .inl (x, q, t)) :
    answer x.1 s = (x.2, t) := by
  cases p with
  | done a => simp [advance] at h
  | crash => simp [advance] at h
  | ask r next =>
    simp only [advance, Sum.inl.injEq, Prod.mk.injEq] at h
    obtain ⟨rfl, -, rfl⟩ := h
    rfl

namespace Keeps

variable {T : Terms A σ ω} {post : List (Exchange A) → Option α → σ → Prop}
  {p : Interaction R A α} {h : List (Exchange A)} {s t : σ}

/-- An interaction keeps to its terms while others act. -/
theorem rely (hp : p.Keeps T post h s) (hst : T.rely s t) : p.Keeps T post h t := by
  cases p with
  | done a => exact fun u htu => hp u (T.rely_trans hst htu)
  | crash => exact fun u htu => hp u (T.rely_trans hst htu)
  | ask r next => exact fun u htu => hp u (T.rely_trans hst htu)

/-- An interaction keeps to its terms if it does so in every state that others can bring about. -/
theorem of_rely (hp : ∀ t, T.rely s t → p.Keeps T post h t) : p.Keeps T post h s := by
  cases p with
  | done a => exact fun t hst => hp t hst t (T.rely_self hst)
  | crash => exact fun t hst => hp t hst t (T.rely_self hst)
  | ask r next => exact fun t hst => hp t hst t (T.rely_self hst)

theorem imp {post' : List (Exchange A) → Option α → σ → Prop} (hp : p.Keeps T post h s)
    (himp : ∀ h a t, post h a t → post' h a t) : p.Keeps T post' h s := by
  induction p generalizing h s with
  | done a => exact fun t hst => himp _ _ _ (hp t hst)
  | crash => exact fun t hst => himp _ _ _ (hp t hst)
  | ask r next ih => exact fun t hst => ⟨(hp t hst).1, fun o => ih _ ((hp t hst).2 o)⟩

/-- **One interaction after another.** -/
theorem bind {f : α → Interaction R A β} {post' : List (Exchange A) → Option β → σ → Prop}
    (hp : p.Keeps T post h s)
    (hf : ∀ a h s, (∀ t, T.rely s t → post h (some a) t) → (f a).Keeps T post' h s)
    (hcrash : ∀ h t, post h none t → post' h none t) :
    (p.bind f).Keeps T post' h s := by
  -- on the first interaction: the second begins where it is done
  induction p generalizing h s with
  | done a => exact hf a h s hp
  | crash => exact fun t hst => hcrash h t (hp t hst)
  | ask r next ih => exact fun t hst => ⟨(hp t hst).1, fun o => ih _ ((hp t hst).2 o)⟩

/-- **What a step asks is allowed, and the interaction keeps to its terms after it.** -/
theorem advance {o : ω} {x : Exchange A} {q : Interaction R A α} (hp : p.Keeps T post h s)
    (hs : T.rely s s) (hstep : p.advance (T.answer o) s = .inl (x, q, t)) :
    T.may h x.1 s ∧ q.Keeps T post (h ++ [x]) t := by
  cases p with
  | done a => simp [Interaction.advance] at hstep
  | crash => simp [Interaction.advance] at hstep
  | ask r next =>
    simp only [Interaction.advance, Sum.inl.injEq, Prod.mk.injEq] at hstep
    obtain ⟨rfl, rfl, rfl⟩ := hstep
    exact ⟨(hp s hs).1, (hp s hs).2 o⟩

theorem finish {o : ω} {a : Option α} (hp : p.Keeps T post h s) (hs : T.rely s s)
    (hstep : p.advance (T.answer o) s = .inr a) : post h a s := by
  cases p with
  | done a =>
    obtain rfl : some a = _ := by simpa [Interaction.advance] using hstep
    exact hp s hs
  | crash =>
    obtain rfl : none = _ := by simpa [Interaction.advance] using hstep
    exact hp s hs
  | ask r next => simp [Interaction.advance] at hstep

end Keeps

end Interaction

/-! ## Courses -/

/-- A request at its place in a course: the state before it, the exchange, and the state after. -/
structure Turn (A : R → Type) (σ : Type) where
  before : σ
  exchange : Exchange A
  after : σ

namespace Interaction

/-- **A course of an interaction**: what it asks in turn, and how and where it ends. Others may act
before each request and before the end, and each request may be answered differently. -/
inductive Ran (answer : ω → (r : R) → σ → A r × σ) (others : σ → σ → Prop) :
    Interaction R A α → σ → List (Turn A σ) → Option α → σ → Prop
  | done {a : α} {s t : σ} (h : others s t) : Ran answer others (.done a) s [] (some a) t
  | crash {s t : σ} (h : others s t) : Ran answer others .crash s [] none t
  | ask {r : R} {next : A r → Interaction R A α} {s t u : σ} {turns : List (Turn A σ)}
      {result : Option α} (o : ω) (h : others s t)
      (hr : Ran answer others (next (answer o r t).1) (answer o r t).2 turns result u) :
      Ran answer others (.ask r next) s (⟨t, ⟨r, (answer o r t).1⟩, (answer o r t).2⟩ :: turns)
        result u

/-- **How a course ends**, if others do only what the interaction relies on. -/
theorem Keeps.ran {T : Terms A σ ω} {post : List (Exchange A) → Option α → σ → Prop}
    {others : σ → σ → Prop} (hothers : ∀ s t, others s t → T.rely s t) {p : Interaction R A α}
    {h : List (Exchange A)} {s t : σ} {turns : List (Turn A σ)} {result : Option α}
    (hp : p.Keeps T post h s) (hr : p.Ran T.answer others s turns result t) :
    post (h ++ turns.map (·.exchange)) result t := by
  induction hr generalizing h with
  | done hst =>
    rw [List.map_nil, List.append_nil]
    exact hp _ (hothers _ _ hst)
  | crash hst =>
    rw [List.map_nil, List.append_nil]
    exact hp _ (hothers _ _ hst)
  | ask o hst _ ih =>
    have hnext := ih ((hp _ (hothers _ _ hst)).2 o)
    rwa [List.append_assoc] at hnext

namespace Ran

variable {answer : ω → (r : R) → σ → A r × σ} {others : σ → σ → Prop} {p : Interaction R A α}
  {s t : σ} {turns : List (Turn A σ)} {result : Option α}

/-- Every request has been answered in the state before it. -/
theorem answered (h : p.Ran answer others s turns result t) :
    ∀ u ∈ turns, ∃ o, answer o u.exchange.1 u.before = (u.exchange.2, u.after) := by
  induction h with
  | done | crash => simp
  | ask o _ _ ih => exact List.forall_mem_cons.mpr ⟨⟨o, rfl⟩, ih⟩

/-- What is left of a course after its first turn. -/
theorem tail {u : Turn A σ} (h : p.Ran answer others s (u :: turns) result t) :
    others s u.before ∧ (∃ o, answer o u.exchange.1 u.before = (u.exchange.2, u.after)) ∧
      ∃ q : Interaction R A α, q.Ran answer others u.after turns result t := by
  cases h with
  | ask o hst hr => exact ⟨hst, ⟨o, rfl⟩, _, hr⟩

/-- A course that another way of answering allows as well. -/
theorem of_answer {ω' : Type} {answer' : ω' → (r : R) → σ → A r × σ} (g : ω → ω')
    (hanswer : ∀ o r s, answer' (g o) r s = answer o r s)
    (h : p.Ran answer others s turns result t) : p.Ran answer' others s turns result t := by
  induction h with
  | done hst => exact .done hst
  | crash hst => exact .crash hst
  | @ask r _ _ u _ _ _ o hst _ ih =>
    rw [← hanswer o r u] at ih ⊢
    exact .ask (g o) hst ih

/-- A course whose result is only put into another form. -/
theorem of_map {g : α → β} {b : Option β}
    (h : (p.bind fun a => .done (g a)).Ran answer others s turns b t) :
    ∃ a, p.Ran answer others s turns a t ∧ b = a.map g := by
  induction p generalizing s turns with
  | done a =>
    cases h with
    | done hst => exact ⟨some a, .done hst, rfl⟩
  | crash =>
    cases h with
    | crash hst => exact ⟨none, .crash hst, rfl⟩
  | ask r next ih =>
    cases h with
    | ask o hst hr =>
      obtain ⟨a, ha, hb⟩ := ih _ hr
      exact ⟨a, .ask o hst ha, hb⟩

/-- **What neither the others nor any turn changes is at the end as it was.** -/
theorem unchanged {τ : Type} {f : σ → τ} (h : p.Ran answer others s turns result t)
    (hothers : ∀ a b, others a b → f b = f a) (hturns : ∀ u ∈ turns, f u.after = f u.before) :
    f t = f s := by
  induction h with
  | done hst | crash hst => exact hothers _ _ hst
  | ask o hst _ ih =>
    obtain ⟨hturn, hturns⟩ := List.forall_mem_cons.mp hturns
    rw [ih hturns]
    exact hturn.trans (hothers _ _ hst)

/-- **What neither the others nor any turn but one changes** is as it was until that turn, and at
the end as that turn has left it. -/
theorem changed_at {τ : Type} {f : σ → τ} {us vs : List (Turn A σ)} {u : Turn A σ}
    (h : p.Ran answer others s (us ++ u :: vs) result t)
    (hothers : ∀ a b, others a b → f b = f a) (hus : ∀ v ∈ us, f v.after = f v.before)
    (hvs : ∀ v ∈ vs, f v.after = f v.before) : f u.before = f s ∧ f t = f u.after := by
  -- on the turns before: each leaves the rest of the course behind it
  induction us generalizing p s with
  | nil =>
    cases h with
    | ask o hst hr => exact ⟨hothers _ _ hst, hr.unchanged hothers hvs⟩
  | cons w us ih =>
    cases h with
    | ask o hst hr =>
      obtain ⟨hw, hus⟩ := List.forall_mem_cons.mp hus
      obtain ⟨hbefore, hafter⟩ := ih hr hus
      exact ⟨hbefore.trans (hw.trans (hothers _ _ hst)), hafter⟩

end Ran

/-- What is run without interruption is one of the courses, and all of it is answered in one way. -/
theorem exists_ran_answered {answer : ω → (r : R) → σ → A r × σ} {others : σ → σ → Prop}
    (hrefl : ∀ s, others s s) (o : ω) (p : Interaction R A α) (s : σ) :
    ∃ turns, p.Ran answer others s turns (p.run (answer o) s).1 (p.run (answer o) s).2 ∧
      ∀ u ∈ turns, answer o u.exchange.1 u.before = (u.exchange.2, u.after) := by
  induction p generalizing s with
  | done a => exact ⟨[], .done (hrefl s), by simp⟩
  | crash => exact ⟨[], .crash (hrefl s), by simp⟩
  | ask r next ih =>
    obtain ⟨turns, hturns, hanswered⟩ := ih (answer o r s).1 (answer o r s).2
    exact ⟨_, .ask o (hrefl s) hturns, List.forall_mem_cons.mpr ⟨rfl, hanswered⟩⟩

/-- **What is run without interruption is one of the courses.** -/
theorem ran_run {answer : ω → (r : R) → σ → A r × σ} {others : σ → σ → Prop}
    (hrefl : ∀ s, others s s) (o : ω) (p : Interaction R A α) (s : σ) :
    ∃ turns, p.Ran answer others s turns (p.run (answer o) s).1 (p.run (answer o) s).2 := by
  obtain ⟨turns, hturns, -⟩ := exists_ran_answered hrefl o p s
  exact ⟨turns, hturns⟩

/-- **The course of an interaction** whose requests are answered one after another as a sequence
says: its turns, its result and the state it ends in. -/
def course (answer : ω → (r : R) → σ → A r × σ) :
    Interaction R A α → (Nat → ω) → σ → List (Turn A σ) × Option α × σ
  | .done a, _, s => ([], some a, s)
  | .crash, _, s => ([], none, s)
  | .ask r next, os, s =>
    let (a, t) := answer (os 0) r s
    let (turns, result) := course answer (next a) (fun n => os (n + 1)) t
    (⟨s, ⟨r, a⟩, t⟩ :: turns, result)

theorem ran_course (answer : ω → (r : R) → σ → A r × σ) (p : Interaction R A α) (os : Nat → ω)
    (s : σ) : p.Ran answer Eq s (p.course answer os s).1 (p.course answer os s).2.1
      (p.course answer os s).2.2 := by
  induction p generalizing os s with
  | done a => exact .done rfl
  | crash => exact .crash rfl
  | ask r next ih => exact .ask (os 0) rfl (ih _ _ _)

/-! ## Transcripts -/

/-- **A transcript of an interaction**: what it asks, and how it ends, whatever is answered. -/
inductive Yields : Interaction R A α → List (Exchange A) → Option α → Prop
  | done (a : α) : Yields (.done a) [] (some a)
  | crash : Yields .crash [] none
  | ask {r : R} {next : A r → Interaction R A α} {h : List (Exchange A)} {result : Option α}
      (a : A r) (hr : Yields (next a) h result) : Yields (.ask r next) (⟨r, a⟩ :: h) result

/-- A course has a transcript. -/
theorem Ran.yields {answer : ω → (r : R) → σ → A r × σ} {others : σ → σ → Prop}
    {p : Interaction R A α} {s t : σ} {turns : List (Turn A σ)} {result : Option α}
    (h : p.Ran answer others s turns result t) : p.Yields (turns.map (·.exchange)) result := by
  induction h with
  | done _ => exact .done _
  | crash _ => exact .crash
  | ask o _ _ ih => exact .ask _ ih

/-- A transcript of one interaction after another. -/
theorem Yields.of_bind {p : Interaction R A α} {f : α → Interaction R A β}
    {h : List (Exchange A)} {result : Option β} (hp : (p.bind f).Yields h result) :
    (p.Yields h none ∧ result = none) ∨
      ∃ a k l, h = k ++ l ∧ p.Yields k (some a) ∧ (f a).Yields l result := by
  -- on the first interaction: its requests come first
  induction p generalizing h with
  | done a => exact .inr ⟨a, [], h, rfl, .done a, hp⟩
  | crash =>
    cases hp
    exact .inl ⟨.crash, rfl⟩
  | ask r next ih =>
    cases hp with
    | ask a hr =>
      rcases ih a hr with ⟨hnone, rfl⟩ | ⟨b, k, l, rfl, hk, hl⟩
      · exact .inl ⟨.ask a hnone, rfl⟩
      · exact .inr ⟨b, _, l, rfl, .ask a hk, hl⟩

/-- A transcript of an interaction whose result is only put into another form. -/
theorem Yields.of_map {p : Interaction R A α} {g : α → β} {h : List (Exchange A)}
    {result : Option β} (hp : (p.bind fun a => .done (g a)).Yields h result) :
    ∃ a, p.Yields h a ∧ result = a.map g := by
  rcases hp.of_bind with ⟨hnone, rfl⟩ | ⟨a, k, l, rfl, hk, hl⟩
  · exact ⟨none, hnone, rfl⟩
  · cases hl
    rw [List.append_nil]
    exact ⟨some a, hk, rfl⟩

end Interaction

end WorkflowScheduler
