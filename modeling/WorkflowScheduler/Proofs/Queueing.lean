import Mathlib.Data.List.Induction
import WorkflowScheduler.Queue.Basic

/-!
# Producers and the consumer of the queue

Any number of producers push executions at the same time, and one consumer takes them. The counter
of depth and the channel are two things, and between the step on the one and the step on the other
anybody else may make steps. So the counter shows more than there is in the channel while a push
or a receive is under way, and never less.

## Main definitions

* `Pushing`: how far the push of an execution has come
* `Queueing`, `Queueing.step`, `Queueing.after`: producers and a consumer, step by step
* `Queueing.counted`: what the counter has to count
* `Queueing.Accounted`: the channel and the counter agree with what has been sent and taken
* `Queueing.without`: the same without the steps of one push

## Main results

* `Queueing.push_alone`, `Queueing.receive_alone`: the operations of the queue, uninterrupted
* `Queueing.Accounted.step`: every step keeps the account
* `Queueing.step_without`: what a step does is the same without a push that is refused
* `Queueing.fifo_and_depth`: first in, first out, with an exact counter
-/

namespace WorkflowScheduler

/-! ## Steps -/

/-- How far a push has come: it has only begun, or it has raised the counter, or it has been
refused by the channel, or it has ended. -/
inductive Pushing.Stage where
  | begun
  | raised
  | refused
  | ended (sent : Bool)
  deriving DecidableEq

/-- **A push that a producer has begun.** -/
structure Pushing where
  item : Execution
  stage : Pushing.Stage

namespace Pushing

/-- A push that has raised the counter and neither sent its execution nor lowered it again. -/
def isCounted (p : Pushing) : Bool :=
  p.stage = .raised || p.stage = .refused

/-- A push that has sent its execution. -/
def isSent (p : Pushing) : Bool :=
  p.stage = .ended true

/-- A push at its beginning. -/
def restart (p : Pushing) : Pushing :=
  { p with stage := .begun }

end Pushing

/-- **Producers and the consumer of a queue**: the pushes that have been begun, whether the consumer
has taken an execution that it has not yet discounted; what has been sent and what has been taken so
far, and what was left behind when the consumer went away. -/
structure Queueing where
  queue : Queue
  pushes : List Pushing
  receiving : Bool
  sent : List Execution
  taken : List Execution
  left : List Execution

namespace Queueing

/-- What may happen next. -/
inductive Move where
  /-- A producer begins to push an execution. -/
  | push (e : Execution)
  /-- One of the pushes makes its next step. -/
  | work (i : Nat)
  /-- The consumer takes the oldest execution, if there is one. -/
  | take
  /-- The consumer discounts what it has taken. -/
  | discount
  /-- The consumer goes away. -/
  | drop
  deriving DecidableEq

/-- Nothing has happened yet. -/
def start : Queueing :=
  ⟨.empty, [], false, [], [], []⟩

/-- **One step.** A move that is not possible does nothing; the consumer takes nothing before it has
discounted what it took last. -/
def step : Move → Queueing → Queueing
  | .push e, s => { s with pushes := s.pushes ++ [⟨e, .begun⟩] }
  | .work i, s =>
    match s.pushes[i]? with
    | none => s
    | some ⟨e, .begun⟩ =>
      { s with queue := s.queue.raise, pushes := s.pushes.set i ⟨e, .raised⟩ }
    | some ⟨e, .raised⟩ =>
      match s.queue.send e with
      | (true, queue) =>
        { s with
          queue := queue
          pushes := s.pushes.set i ⟨e, .ended true⟩
          sent := s.sent ++ [e] }
      | (false, queue) =>
        { s with queue := queue, pushes := s.pushes.set i ⟨e, .refused⟩ }
    | some ⟨e, .refused⟩ =>
      { s with queue := s.queue.lower, pushes := s.pushes.set i ⟨e, .ended false⟩ }
    | some ⟨_, .ended _⟩ => s
  | .take, s =>
    if s.receiving || !s.queue.hasConsumer then s
    else
      match s.queue.take with
      | (some e, queue) =>
        { s with queue := queue, receiving := true, taken := s.taken ++ [e] }
      | (none, queue) => { s with queue := queue }
  | .discount, s =>
    if s.receiving then { s with queue := s.queue.lower, receiving := false } else s
  | .drop, s =>
    if s.receiving || !s.queue.hasConsumer then s
    else { s with queue := s.queue.close, left := s.queue.waiting }

/-- The state that a run leads to. -/
def run (ms : List Move) (s : Queueing) : Queueing :=
  ms.foldl (fun s m => step m s) s

/-- **The state after a run**, from the beginning. -/
def after (ms : List Move) : Queueing :=
  run ms start

theorem after_concat (ms : List Move) (m : Move) : after (ms ++ [m]) = step m (after ms) := by
  simp [after, run]

variable {s : Queueing} {i : Nat} {e : Execution}

/-! ## Operations without interruption -/

/-- **A push that nothing interrupts** is the push of the queue. -/
theorem push_alone (s : Queueing) (e : Execution) :
    let i := s.pushes.length
    let t := run [.push e, .work i, .work i, .work i] s
    t.queue = (s.queue.push e).2 ∧ t.pushes = s.pushes ++ [⟨e, .ended (s.queue.push e).1⟩] := by
  cases hc : s.queue.hasConsumer <;>
    simp [run, step, Queue.push, Queue.raise, Queue.send, Queue.lower, hc]

/-- **A receive that nothing interrupts** is the receive of the queue. -/
theorem receive_alone (hr : s.receiving = false) (hc : s.queue.hasConsumer = true) :
    run [.take, .discount] s =
      { s with queue := s.queue.receive.2, taken := s.taken ++ s.queue.receive.1.toList } := by
  cases hw : s.queue.waiting <;>
    simp [run, step, Queue.receive, Queue.take, Queue.lower, hr, hc, hw]

theorem drainUpTo_of_nil {q : Queue} (hw : q.waiting = []) (n : Nat) :
    q.drainUpTo n = ([], q) := by
  cases n with
  | zero => rfl
  | succ n => simp [Queue.drainUpTo, Queue.receive, Queue.take, hw]

/-- **A drain that nothing interrupts** is a row of receives. -/
theorem drain_alone (n : Nat) {s : Queueing} (hr : s.receiving = false)
    (hc : s.queue.hasConsumer = true) :
    run (List.replicate n [Move.take, .discount]).flatten s =
      { s with
        queue := (s.queue.drainUpTo n).2
        taken := s.taken ++ (s.queue.drainUpTo n).1 } := by
  induction n generalizing s with
  | zero => simp [run, Queue.drainUpTo]
  | succ n ih =>
    have hrun : run (List.replicate (n + 1) [Move.take, .discount]).flatten s =
        run (List.replicate n [Move.take, .discount]).flatten (run [.take, .discount] s) := by
      simp [run, List.replicate_succ]
    rw [hrun, receive_alone hr hc]
    cases hw : s.queue.waiting with
    | nil =>
      -- there is nothing left to take, then or later
      have hq : s.queue.receive = (none, s.queue) := by simp [Queue.receive, Queue.take, hw]
      simp only [hq, Option.toList_none, List.append_nil]
      rw [ih hr hc, drainUpTo_of_nil hw, drainUpTo_of_nil hw]
    | cons e es =>
      have hq : s.queue.receive = (some e, { s.queue with waiting := es }.lower) := by
        simp [Queue.receive, Queue.take, hw]
      refine Eq.trans (ih hr ?_) ?_
      · simpa [hq, Queue.lower] using hc
      · simp [Queue.drainUpTo, hq]

/-- **The steps, case by case.** -/
inductive Step (s : Queueing) : Move → Queueing → Prop where
  | idle (m : Move) : Step s m s
  | push (e : Execution) : Step s (.push e) { s with pushes := s.pushes ++ [⟨e, .begun⟩] }
  | raise {i : Nat} {e : Execution} (h : s.pushes[i]? = some ⟨e, .begun⟩) :
      Step s (.work i)
        { s with queue := s.queue.raise, pushes := s.pushes.set i ⟨e, .raised⟩ }
  | send {i : Nat} {e : Execution} (h : s.pushes[i]? = some ⟨e, .raised⟩)
      (hc : s.queue.hasConsumer = true) :
      Step s (.work i)
        { s with
          queue := { s.queue with waiting := s.queue.waiting ++ [e] }
          pushes := s.pushes.set i ⟨e, .ended true⟩
          sent := s.sent ++ [e] }
  | refuse {i : Nat} {e : Execution} (h : s.pushes[i]? = some ⟨e, .raised⟩)
      (hc : s.queue.hasConsumer = false) :
      Step s (.work i) { s with pushes := s.pushes.set i ⟨e, .refused⟩ }
  | lower {i : Nat} {e : Execution} (h : s.pushes[i]? = some ⟨e, .refused⟩) :
      Step s (.work i)
        { s with queue := s.queue.lower, pushes := s.pushes.set i ⟨e, .ended false⟩ }
  | take {e : Execution} {es : List Execution} (hr : s.receiving = false)
      (hc : s.queue.hasConsumer = true) (hw : s.queue.waiting = e :: es) :
      Step s .take
        { s with
          queue := { s.queue with waiting := es }
          receiving := true
          taken := s.taken ++ [e] }
  | discount (hr : s.receiving = true) :
      Step s .discount { s with queue := s.queue.lower, receiving := false }
  | drop (hr : s.receiving = false) (hc : s.queue.hasConsumer = true) :
      Step s .drop { s with queue := s.queue.close, left := s.queue.waiting }

/-- **A step is one of the cases.** -/
theorem step_cases (m : Move) (s : Queueing) : Step s m (step m s) := by
  cases m with
  | push e => exact .push e
  | work i =>
    simp only [step]
    split
    · exact .idle _
    · next h => exact .raise h
    · next h =>
      cases hc : s.queue.hasConsumer
      · simpa [Queue.send, hc] using Step.refuse h hc
      · simpa [Queue.send, hc] using Step.send h hc
    · next h => exact .lower h
    · exact .idle _
  | take =>
    simp only [step]
    split
    · exact .idle _
    · next h =>
      obtain ⟨hr, hc⟩ : s.receiving = false ∧ s.queue.hasConsumer = true := by simpa using h
      cases hw : s.queue.waiting with
      | nil => simpa [Queue.take, hw] using Step.idle .take
      | cons e es => simpa [Queue.take, hw] using Step.take hr hc hw
  | discount =>
    simp only [step]
    split
    · next hr => exact .discount hr
    · exact .idle _
  | drop =>
    simp only [step]
    split
    · exact .idle _
    · next h =>
      obtain ⟨hr, hc⟩ : s.receiving = false ∧ s.queue.hasConsumer = true := by simpa using h
      exact .drop hr hc

/-! ## The account -/

/-- **What the counter has to count**: what is in the channel or was left there, the pushes that are
under way, and the receive that is under way. -/
def counted (s : Queueing) : Nat :=
  s.left.length + s.queue.waiting.length + s.pushes.countP Pushing.isCounted + s.receiving.toNat

/-- **The channel and the counter agree with what has been sent and taken.** -/
structure Accounted (s : Queueing) : Prop where
  depth : s.queue.depth = UInt64.ofNat s.counted
  /-- What has been sent has been taken, or was left behind, or waits, in this order. -/
  fifo : s.sent = s.taken ++ (s.left ++ s.queue.waiting)
  left : s.queue.hasConsumer = true → s.left = []
  waiting : s.queue.hasConsumer = false → s.queue.waiting = []
  /-- Nothing is refused as long as there is a consumer. -/
  refused : s.queue.hasConsumer = true → ∀ p ∈ s.pushes,
    p.stage ≠ .refused ∧ p.stage ≠ .ended false
  sent : s.sent.length = s.pushes.countP Pushing.isSent
  receiving : s.receiving = true → s.taken ≠ []

theorem countP_set_add {f : Pushing → Bool} {ps : List Pushing} {p : Pushing} (h : ps[i]? = some p)
    (q : Pushing) :
    (ps.set i q).countP f + (f p).toNat = ps.countP f + (f q).toNat := by
  obtain ⟨hi, rfl⟩ := List.getElem?_eq_some_iff.mp h
  rw [List.countP_set hi]
  have hle : f ps[i] = true → 0 < ps.countP f := fun hf =>
    List.countP_pos_iff.mpr ⟨_, List.getElem_mem hi, hf⟩
  cases hp : f ps[i] <;> cases hq : f q <;> simp_all

theorem raise_ofNat {d : UInt64} {n k : Nat} (hd : d = UInt64.ofNat n) (hk : k = n + 1) :
    d + 1 = UInt64.ofNat k := by
  rw [hd, hk, UInt64.ofNat_add]
  rfl

theorem lower_ofNat {d : UInt64} {n k : Nat} (hd : d = UInt64.ofNat n) (hk : n = k + 1) :
    d - 1 = UInt64.ofNat k := by
  rw [hd, hk, UInt64.ofNat_add]
  exact UInt64.add_sub_cancel _ _

/-- As long as there is a consumer, a push goes on without being refused. -/
theorem Accounted.refused_set (h : s.Accounted) (i : Nat) {p : Pushing}
    (hp : p.stage ≠ .refused ∧ p.stage ≠ .ended false) (hc : s.queue.hasConsumer = true) :
    ∀ q ∈ s.pushes.set i p, q.stage ≠ .refused ∧ q.stage ≠ .ended false := by
  intro q hq
  rcases List.mem_or_eq_of_mem_set hq with hq | rfl
  · exact h.refused hc q hq
  · exact hp

/-- Where a push is refused, there is no consumer. -/
theorem Accounted.closed_of_refused (h : s.Accounted) {p : Pushing} (hp : s.pushes[i]? = some p)
    (hr : p.stage = .refused ∨ p.stage = .ended false) : s.queue.hasConsumer = false := by
  by_contra hc
  have := h.refused (by simpa using hc) p (List.mem_of_getElem? hp)
  rcases hr with hr | hr
  · exact this.1 hr
  · exact this.2 hr

/-- **Every step keeps the account.** -/
theorem Accounted.step (h : s.Accounted) (m : Move) : (Queueing.step m s).Accounted := by
  have hstep := step_cases m s
  generalize Queueing.step m s = t at hstep
  cases hstep with
  | idle => exact h
  | push e =>
    refine ⟨?_, h.fifo, h.left, h.waiting, fun hc => ?_, ?_, h.receiving⟩
    · simpa [counted, Pushing.isCounted] using h.depth
    · exact List.forall_mem_append.mpr
        ⟨h.refused hc, List.forall_mem_singleton.mpr ⟨nofun, nofun⟩⟩
    · simpa [Pushing.isSent] using h.sent
  | @raise i e hp =>
    have hcounted : (s.pushes.set i ⟨e, .raised⟩).countP Pushing.isCounted =
        s.pushes.countP Pushing.isCounted + 1 :=
      countP_set_add (f := Pushing.isCounted) hp ⟨e, .raised⟩
    have hsent := countP_set_add (f := Pushing.isSent) hp ⟨e, .raised⟩
    refine ⟨raise_ofNat h.depth ?_, h.fifo, h.left, h.waiting, h.refused_set i ⟨nofun, nofun⟩,
      h.sent.trans hsent.symm, h.receiving⟩
    simp only [counted, Queue.raise, hcounted]
    omega
  | @send i e hp hc =>
    -- what was counted for the push is now counted for the channel
    have hcounted : (s.pushes.set i ⟨e, .ended true⟩).countP Pushing.isCounted + 1 =
        s.pushes.countP Pushing.isCounted :=
      countP_set_add (f := Pushing.isCounted) hp ⟨e, .ended true⟩
    have hsent : (s.pushes.set i ⟨e, .ended true⟩).countP Pushing.isSent =
        s.pushes.countP Pushing.isSent + 1 :=
      countP_set_add (f := Pushing.isSent) hp ⟨e, .ended true⟩
    refine ⟨h.depth.trans (congrArg UInt64.ofNat ?_), ?_, h.left, fun hn => ?_,
      h.refused_set i ⟨nofun, by simp⟩, ?_, h.receiving⟩
    · simp only [counted, ← hcounted, List.length_append, List.length_singleton]
      omega
    · simp [h.fifo]
    · exact absurd (hn.symm.trans hc) nofun
    · rw [hsent, ← h.sent, List.length_append, List.length_singleton]
  | @refuse i e hp hc =>
    have hcounted := countP_set_add (f := Pushing.isCounted) hp ⟨e, .refused⟩
    have hsent := countP_set_add (f := Pushing.isSent) hp ⟨e, .refused⟩
    refine ⟨h.depth.trans (congrArg UInt64.ofNat ?_), h.fifo, h.left, h.waiting, fun hn => ?_,
      h.sent.trans hsent.symm, h.receiving⟩
    · simp only [counted, Nat.add_right_cancel hcounted]
    · exact absurd (hn.symm.trans hc) nofun
  | @lower i e hp =>
    have hc := h.closed_of_refused hp (.inl rfl)
    have hcounted : (s.pushes.set i ⟨e, .ended false⟩).countP Pushing.isCounted + 1 =
        s.pushes.countP Pushing.isCounted :=
      countP_set_add (f := Pushing.isCounted) hp ⟨e, .ended false⟩
    have hsent := countP_set_add (f := Pushing.isSent) hp ⟨e, .ended false⟩
    refine ⟨lower_ofNat h.depth ?_, h.fifo, h.left, h.waiting, fun hn => ?_,
      h.sent.trans hsent.symm, h.receiving⟩
    · simp only [counted, Queue.lower, ← hcounted]
      omega
    · exact absurd (hn.symm.trans hc) nofun
  | take hr hc hw =>
    -- what was counted for the channel is now counted for the receive
    refine ⟨h.depth.trans (congrArg UInt64.ofNat ?_), ?_, h.left, fun hn => ?_, h.refused, h.sent,
      fun _ => by simp⟩
    · simp only [counted, hr, hw, List.length_cons, Bool.toNat_false, Bool.toNat_true]
      omega
    · simp [h.fifo, h.left hc, hw]
    · exact absurd (hn.symm.trans hc) nofun
  | discount hr =>
    refine ⟨lower_ofNat h.depth ?_, h.fifo, h.left, h.waiting, h.refused, h.sent, nofun⟩
    simp [counted, hr, Queue.lower]
  | drop hr hc =>
    refine ⟨h.depth.trans (congrArg UInt64.ofNat ?_), ?_, nofun, fun _ => rfl, nofun, h.sent,
      h.receiving⟩
    · simp [counted, h.left hc, Queue.close]
    · simp [h.fifo, h.left hc, Queue.close]

theorem accounted_after (ms : List Move) : (after ms).Accounted :=
  List.foldlRecOn ms (fun s m => Queueing.step m s)
    ⟨rfl, rfl, fun _ => rfl, nofun, fun _ _ hp => absurd hp List.not_mem_nil, rfl, nofun⟩
    fun _ h m _ => h.step m

/-- Not more is counted than pushes have been begun. -/
theorem Accounted.counted_le (h : s.Accounted) : s.counted ≤ s.pushes.length := by
  have hfifo := congrArg List.length h.fifo
  rw [h.sent, List.length_append, List.length_append] at hfifo
  have hreceiving : s.receiving.toNat ≤ s.taken.length := by
    cases hr : s.receiving with
    | false => exact Nat.zero_le _
    | true => exact List.length_pos_iff.mpr (h.receiving hr)
  -- no push is both counted and sent
  have hsum : s.pushes.countP Pushing.isCounted + s.pushes.countP Pushing.isSent ≤
      s.pushes.length := by
    rw [List.length_eq_countP_add_countP Pushing.isSent, Nat.add_comm]
    refine Nat.add_le_add_left (List.countP_mono_left fun p _ hp => ?_) _
    rcases p with ⟨e, _ | _ | _ | b⟩ <;> simp_all [Pushing.isCounted, Pushing.isSent]
  unfold counted
  omega

/-! ## A push that is refused -/

/-- **The same without the steps of one push**: it has only begun, and the counter shows something
else. -/
def without (s : Queueing) (i : Nat) (depth : UInt64) : Queueing :=
  { s with
    queue := { s.queue with depth := depth }
    pushes := s.pushes.modify i Pushing.restart }

/-- A push that begins is at its beginning. -/
theorem modify_restart_concat (ps : List Pushing) (i : Nat) (e : Execution) :
    (ps ++ [(⟨e, .begun⟩ : Pushing)]).modify i Pushing.restart =
      ps.modify i Pushing.restart ++ [⟨e, .begun⟩] := by
  induction ps generalizing i with
  | nil => cases i <;> simp [Pushing.restart]
  | cons p ps ih =>
    cases i with
    | zero => rfl
    | succ i => exact congrArg (p :: ·) (ih i)

theorem modify_restart_set_of_ne {j : Nat} (hij : i ≠ j) (ps : List Pushing) (p : Pushing) :
    (ps.set j p).modify i Pushing.restart = (ps.modify i Pushing.restart).set j p := by
  refine List.ext_getElem? fun k => ?_
  simp only [List.getElem?_modify, List.getElem?_set, List.length_modify]
  by_cases hk : j = k
  · subst hk
    simp [hij]
  · simp [hk]

theorem modify_restart_eq_set {ps : List Pushing} {stage : Pushing.Stage}
    (h : ps[i]? = some ⟨e, stage⟩) : ps.modify i Pushing.restart = ps.set i ⟨e, .begun⟩ := by
  refine List.ext_getElem? fun k => ?_
  simp only [List.getElem?_modify, List.getElem?_set]
  by_cases hk : i = k
  · subst hk
    obtain ⟨hi, -⟩ := List.getElem?_eq_some_iff.mp h
    rw [h]
    simp [hi, Pushing.restart]
  · simp [hk]

theorem modify_restart_set_self {ps : List Pushing} {stage : Pushing.Stage}
    (h : ps[i]? = some ⟨e, stage⟩) (stage' : Pushing.Stage) :
    (ps.set i ⟨e, stage'⟩).modify i Pushing.restart = ps.modify i Pushing.restart := by
  obtain ⟨hi, -⟩ := List.getElem?_eq_some_iff.mp h
  rw [modify_restart_eq_set (List.getElem?_set_self hi), modify_restart_eq_set h, List.set_set]

/-- A step that is not one of the push does the same without it. -/
theorem step_without {m : Move} (hm : m ≠ .work i) (s : Queueing) (depth : UInt64) :
    ∃ depth', step m (s.without i depth) = (step m s).without i depth' := by
  cases m with
  | push e =>
    exact ⟨depth, by simp only [step, without, modify_restart_concat]⟩
  | work j =>
    have hij : i ≠ j := fun h => hm (h ▸ rfl)
    have hsame : (s.without i depth).pushes[j]? = s.pushes[j]? := by
      simp [without, hij]
    simp only [step, hsame]
    split
    · exact ⟨depth, rfl⟩
    · exact ⟨depth + 1, by simp only [without, Queue.raise, modify_restart_set_of_ne hij]⟩
    · next e _ =>
      refine ⟨depth, ?_⟩
      cases hc : s.queue.hasConsumer <;>
        simp [without, Queue.send, hc, modify_restart_set_of_ne hij]
    · exact ⟨depth - 1, by simp only [without, Queue.lower, modify_restart_set_of_ne hij]⟩
    · exact ⟨depth, rfl⟩
  | take =>
    refine ⟨depth, ?_⟩
    cases hw : s.queue.waiting <;>
      by_cases hr : s.receiving = true <;> by_cases hc : s.queue.hasConsumer = true <;>
      simp [step, without, Queue.take, hw, hr, hc]
  | discount =>
    by_cases hr : s.receiving = true
    · exact ⟨depth - 1, by simp [step, without, Queue.lower, hr]⟩
    · exact ⟨depth, by simp [step, without, hr]⟩
  | drop =>
    refine ⟨depth, ?_⟩
    by_cases hr : s.receiving = true <;> by_cases hc : s.queue.hasConsumer = true <;>
      simp [step, without, Queue.close, hr, hc]

/-- A step of a push leaves everything else as it is, unless it sends. -/
theorem without_step {s : Queueing} (depth : UInt64)
    (hsent : ∀ e, (step (.work i) s).pushes[i]? ≠ some ⟨e, .ended true⟩) :
    (step (.work i) s).without i depth = s.without i depth := by
  have hstep := step_cases (.work i) s
  generalize Queueing.step (.work i) s = t at hstep hsent
  cases hstep with
  | idle => rfl
  | raise h => simp only [without, Queue.raise, modify_restart_set_self h]
  | send h hc =>
    obtain ⟨hi, -⟩ := List.getElem?_eq_some_iff.mp h
    exact absurd (List.getElem?_set_self hi) (hsent _)
  | refuse h hc => simp only [without, modify_restart_set_self h]
  | lower h => simp only [without, Queue.lower, modify_restart_set_self h]

/-- What is written into another place leaves a push that has sent as it is. -/
theorem getElem?_set_of_ended {ps : List Pushing} {j : Nat} {q : Pushing} {b : Bool}
    (h : ps[i]? = some ⟨e, .ended b⟩) (hq : ps[j]? = some q) (hstage : ∀ c, q.stage ≠ .ended c)
    (p : Pushing) : (ps.set j p)[i]? = some ⟨e, .ended b⟩ := by
  have hji : j ≠ i := by
    rintro rfl
    obtain rfl := Option.some.inj (hq.symm.trans h)
    exact hstage b rfl
  rw [List.getElem?_set_ne hji, h]

/-- **A push that has ended stays as it is.** -/
theorem ended_step {b : Bool} (h : s.pushes[i]? = some ⟨e, .ended b⟩) (m : Move) :
    (step m s).pushes[i]? = some ⟨e, .ended b⟩ := by
  have hstep := step_cases m s
  generalize Queueing.step m s = t at hstep
  cases hstep with
  | idle | take | discount | drop => exact h
  | push =>
    obtain ⟨hi, -⟩ := List.getElem?_eq_some_iff.mp h
    exact (List.getElem?_append_left hi).trans h
  | raise hq | send hq | refuse hq | lower hq => exact getElem?_set_of_ended h hq nofun _

/-- **A run without the steps of a push that has not sent** comes to the same, but for the
counter. -/
theorem after_without (ms : List Move) (i : Nat)
    (hsent : ∀ e, (after ms).pushes[i]? ≠ some ⟨e, .ended true⟩) :
    ∃ depth, after (ms.filter (· ≠ .work i)) = (after ms).without i depth := by
  induction ms using List.reverseRecOn with
  | nil => exact ⟨0, by simp [after, run, start, without, Queue.empty]⟩
  | append_singleton ms m ih =>
    rw [after_concat] at hsent ⊢
    obtain ⟨depth, hdepth⟩ := ih fun e he => hsent e (ended_step he m)
    by_cases hm : m = .work i
    · subst hm
      exact ⟨depth, by rw [without_step depth hsent, ← hdepth]; simp⟩
    · obtain ⟨depth', hdepth'⟩ := step_without hm (after ms) depth
      refine ⟨depth', ?_⟩
      rw [← hdepth', ← hdepth, ← after_concat]
      simp [hm]

/-- What has to be counted does not depend on a push that has ended. -/
theorem counted_without {b : Bool} (h : s.pushes[i]? = some ⟨e, .ended b⟩) (depth : UInt64) :
    (s.without i depth).counted = s.counted := by
  have hcounted : (s.pushes.set i ⟨e, .begun⟩).countP Pushing.isCounted =
      s.pushes.countP Pushing.isCounted :=
    countP_set_add (f := Pushing.isCounted) h ⟨e, .begun⟩
  simp only [counted, without, modify_restart_eq_set h, hcounted]

/-- **A push that is refused leaves no trace**: the run without its steps has the same queue. -/
theorem after_refused {ms : List Move} (h : (after ms).pushes[i]? = some ⟨e, .ended false⟩) :
    (after (ms.filter (· ≠ .work i))).queue = (after ms).queue ∧
      (after (ms.filter (· ≠ .work i))).sent = (after ms).sent ∧
      (after (ms.filter (· ≠ .work i))).taken = (after ms).taken := by
  have hsent : ∀ d, (after ms).pushes[i]? ≠ some ⟨d, .ended true⟩ := by simp [h]
  obtain ⟨depth, hwithout⟩ := after_without ms i hsent
  have hdepth : depth = (after ms).queue.depth := by
    have := (accounted_after (ms.filter (· ≠ .work i))).depth
    rw [hwithout, counted_without h, ← (accounted_after ms).depth] at this
    exact this
  rw [hwithout, hdepth]
  exact ⟨rfl, rfl, rfl⟩

/-! ## First in, first out -/

/-- A step that lowers the counter finds something counted. -/
theorem counted_pos_of_lower {m : Move}
    (h : (step m s).queue.depth = s.queue.depth - 1) : 0 < s.counted := by
  have hstep := step_cases m s
  generalize Queueing.step m s = t at hstep h
  have hne : ∀ d : UInt64, d ≠ d - 1 ∧ d + 1 ≠ d - 1 := fun d => ⟨by grind, by grind⟩
  cases hstep with
  | idle | push | send | refuse | take | drop => exact absurd h (hne _).1
  | raise => exact absurd h (hne _).2
  | lower hp =>
    have : 0 < s.pushes.countP Pushing.isCounted :=
      List.countP_pos_iff.mpr ⟨_, List.mem_of_getElem? hp, rfl⟩
    unfold counted
    omega
  | discount hr =>
    simp [counted, hr]

/-- **First in, first out, with an exact counter.** Whatever producers and the consumer do, and in
whatever order: what has been taken is the first part of what has been sent, and as long as there is
a consumer the rest of it waits. The counter shows what there is to count, which is never less than
what waits, nor more than the pushes that have been begun. So as long as that fits into its word it
is never less than what waits; and it is lowered only where it counts something. It counts just what
waits if there is a consumer and no push or receive is under way. And a push that is refused has
found no consumer, and without its steps the run has the same queue. -/
theorem fifo_and_depth (ms : List Move) :
    let s := after ms
    s.taken <+: s.sent ∧ (s.queue.hasConsumer = true → s.sent = s.taken ++ s.queue.waiting) ∧
    s.queue.depth = UInt64.ofNat s.counted ∧ s.queue.waiting.length ≤ s.counted ∧
    s.counted ≤ s.pushes.length ∧
    (s.counted < UInt64.size → s.queue.waiting.length ≤ s.queue.depth.toNat) ∧
    (∀ m, (step m s).queue.depth = s.queue.depth - 1 → 0 < s.counted) ∧
    ((∀ p ∈ s.pushes, p.isCounted = false) → s.receiving = false → s.queue.hasConsumer = true →
      s.queue.depth = UInt64.ofNat s.queue.waiting.length) ∧
    ∀ i e, s.pushes[i]? = some ⟨e, .ended false⟩ → s.queue.hasConsumer = false ∧
      (after (ms.filter (· ≠ .work i))).queue = s.queue ∧
      (after (ms.filter (· ≠ .work i))).sent = s.sent ∧
      (after (ms.filter (· ≠ .work i))).taken = s.taken := by
  intro s
  have h : s.Accounted := accounted_after ms
  have hwaiting : s.queue.waiting.length ≤ s.counted := by
    unfold counted
    omega
  refine ⟨?_, ?_, h.depth, hwaiting, h.counted_le, ?_, ?_, ?_, ?_⟩
  · exact ⟨_, h.fifo.symm⟩
  · intro hc
    rw [h.fifo, h.left hc, List.nil_append]
  · intro hlt
    rw [h.depth]
    calc
      s.queue.waiting.length ≤ s.counted := hwaiting
      _ = (UInt64.ofNat s.counted).toNat := (UInt64.toNat_ofNat_of_lt' hlt).symm
  · exact fun m => counted_pos_of_lower
  · intro hp hr hc
    have hnone : s.pushes.countP Pushing.isCounted = 0 :=
      List.countP_eq_zero.mpr fun p hmem => by simp [hp p hmem]
    rw [h.depth]
    simp [counted, h.left hc, hnone, hr]
  · exact fun i e hi => ⟨h.closed_of_refused hi (.inr rfl), after_refused hi⟩

end Queueing

end WorkflowScheduler
