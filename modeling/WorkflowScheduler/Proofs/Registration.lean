import Mathlib.Data.List.Induction
import WorkflowScheduler.Proofs.Registrar

/-!
# Masters that register at the same time

Any number of masters may register on one store at the same time. Between two requests of one of them
any other may make its own, and an operator may clear the master record.

## Main definitions

* `Claimant`: a master that registers
* `Registration`, `Registration.step`: masters that register on one store, step by step

## Main results

* `Registration.Kept.step`: a step keeps all masters to their terms
* `Registration.Kept.confirmed_step`: a claim is confirmed by a request of its own master
* `Registration.one_master`: at most one master
-/

namespace WorkflowScheduler

/-! ## Any number of masters -/

/-- A master that registers: its address, what it has asked, and what is left of its call. -/
structure Claimant where
  host : String
  port : UInt16
  asked : History
  rest : Program (Except MasterError MasterRecord)

namespace Claimant

/-- A master that begins to register. -/
def start (host : String) (port : UInt16) : Claimant :=
  ⟨host, port, [], (Registrar.register host port).run⟩

/-- What a master has been answered. -/
def answer? (c : Claimant) : Option (Except MasterError MasterRecord) :=
  match c.rest with
  | .done a => some a
  | _ => none

/-- A master keeps to its terms from here on. -/
def IsKept (undisturbed : Prop) (c : Claimant) (s : Site) : Prop :=
  c.rest.Keeps (Registrar.terms c.host c.port undisturbed)
    (Registrar.Ended c.host c.port undisturbed) c.asked s

theorem IsKept.rely {undisturbed : Prop} {c : Claimant} {s t : Site} (h : c.IsKept undisturbed s)
    (hst : undisturbed → s.KeepsClaim t) : c.IsKept undisturbed t :=
  Interaction.Keeps.rely h hst

theorem IsKept.ended {undisturbed : Prop} {c : Claimant} {s : Site}
    {a : Except MasterError MasterRecord} (h : c.IsKept undisturbed s) (ha : c.answer? = some a) :
    Registrar.Ended c.host c.port undisturbed c.asked (some a) s := by
  unfold IsKept at h
  unfold answer? at ha
  cases hrest : c.rest with
  | done b =>
    rw [hrest] at h ha
    cases ha
    exact h s fun _ => .refl s
  | crash => simp [hrest] at ha
  | ask r next => simp [hrest] at ha

/-- After three requests a master has been answered. -/
theorem IsKept.answered {undisturbed : Prop} {c : Claimant} {s : Site} (h : c.IsKept undisturbed s)
    (hlength : 3 ≤ c.asked.length) : ∃ a, c.answer? = some a := by
  unfold IsKept at h
  unfold answer?
  cases hrest : c.rest with
  | done a => exact ⟨a, rfl⟩
  | crash =>
    rw [hrest] at h
    obtain ⟨answer, hanswer, -⟩ := h s fun _ => .refl s
    cases hanswer
  | ask r next =>
    rw [hrest] at h
    have := (h s fun _ => .refl s).1.1
    omega

theorem IsKept.advance {undisturbed : Prop} {c : Claimant} {s site : Site} {o : Outside}
    {x : Exchange Request.Answer} {rest : Program (Except MasterError MasterRecord)}
    (h : c.IsKept undisturbed s) (hx : c.rest.advance (Site.answer o) s = .inl (x, rest, site)) :
    Registrar.Claims c.host c.port c.asked x.1 ∧ s.answer o x.1 = (x.2, site) ∧
      ({ c with asked := c.asked ++ [x], rest := rest } : Claimant).IsKept undisturbed site := by
  obtain ⟨hclaims, hkeeps⟩ := Interaction.Keeps.advance
    (T := Registrar.terms c.host c.port undisturbed) (o := o) h (fun _ => .refl s) hx
  exact ⟨hclaims, Interaction.answer_of_advance hx, hkeeps⟩

end Claimant

/-- **Masters that register on one store.** -/
structure Registration where
  site : Site
  claimants : List Claimant

namespace Registration

/-- What may happen next. -/
inductive Move where
  /-- A master begins to register. -/
  | call (host : String) (port : UInt16)
  /-- One of the masters makes its next request. -/
  | work (i : Nat) (o : Outside)
  /-- An operator clears the master record. -/
  | clear

/-- A step of the master that was the `i`-th to begin. -/
def Move.isWorkOf (i : Nat) : Move → Bool
  | .work j _ => i == j
  | _ => false

/-- No master has begun to register. -/
def start (s : Site) : Registration :=
  ⟨s, []⟩

/-- **One step.** A master that has been answered makes no more requests. -/
def step : Move → Registration → Registration
  | .call host port, s => { s with claimants := s.claimants ++ [.start host port] }
  | .work i o, s =>
    match s.claimants[i]? with
    | none => s
    | some c =>
      match c.rest.advance (Site.answer o) s.site with
      | .inl (x, rest, site) =>
        ⟨site, s.claimants.set i { c with asked := c.asked ++ [x], rest := rest }⟩
      | .inr _ => s
  | .clear, s => { s with site := { s.site with store := s.site.store.clearMasterRecord } }

/-- **The state after a run.** -/
def after (ms : List Move) (s : Registration) : Registration :=
  ms.foldl (fun s m => step m s) s

variable {s : Registration} {m : Move} {i : Nat} {o : Outside} {c : Claimant}

theorem after_cons (m : Move) (ms : List Move) (s : Registration) :
    after (m :: ms) s = after ms (step m s) := rfl

theorem after_append (ms ns : List Move) (s : Registration) :
    after (ms ++ ns) s = after ns (after ms s) :=
  List.foldl_append

/-- All masters keep to their terms. -/
def Kept (undisturbed : Prop) (s : Registration) : Prop :=
  ∀ c ∈ s.claimants, c.IsKept undisturbed s.site

variable {undisturbed : Prop}

/-- **What a master does when it is its turn**: it makes a request, or it has been answered before. -/
theorem work_cases (hc : s.claimants[i]? = some c) (hk : c.IsKept undisturbed s.site)
    (o : Outside) :
    (∃ x rest site, c.answer? = none ∧
      c.rest.advance (Site.answer o) s.site = .inl (x, rest, site) ∧
      step (.work i o) s =
        ⟨site, s.claimants.set i { c with asked := c.asked ++ [x], rest := rest }⟩) ∨
    (∃ a, c.answer? = some a) ∧ step (.work i o) s = s := by
  unfold Claimant.IsKept at hk
  unfold Claimant.answer?
  cases hrest : c.rest with
  | done a =>
    refine .inr ⟨⟨a, rfl⟩, ?_⟩
    simp [step, hc, hrest, Interaction.advance]
  | crash =>
    -- a master that is kept to its terms is always answered
    rw [hrest] at hk
    obtain ⟨answer, hanswer, -⟩ := hk s.site fun _ => .refl s.site
    cases hanswer
  | ask r next =>
    refine .inl ⟨_, _, _, rfl, rfl, ?_⟩
    simp only [step, hc, hrest, Interaction.advance]

/-- **No master touches a record that names another address.** -/
theorem Kept.master_step (hk : s.Kept undisturbed) (hm : m ≠ .clear) {r : MasterRecord}
    (hr : s.site.store.master = some r) :
    (step m s).site.store.master = some r ∨
      ∃ i o c, m = .work i o ∧ s.claimants[i]? = some c ∧ r.isAt c.host c.port = true ∧
        (step m s).site.store.master = some { r with modifyTime := o.now } := by
  cases m with
  | call host port => exact .inl hr
  | clear => exact absurd rfl hm
  | work i o =>
    cases hc : s.claimants[i]? with
    | none =>
      left
      simpa [step, hc] using hr
    | some c =>
      have hkept := hk c (List.mem_of_getElem? hc)
      rcases work_cases hc hkept o with ⟨x, rest, site, -, hx, hstep⟩ | ⟨-, hstep⟩
      · obtain ⟨hclaims, hanswer, -⟩ := hkept.advance hx
        have hmaster := hclaims.master (o := o) hr
        rw [hanswer] at hmaster
        rw [hstep]
        rcases hmaster with hsame | ⟨hat, hrenewed⟩
        · exact .inl hsame
        · exact .inr ⟨i, o, c, rfl, hc, hat, hrenewed⟩
      · left
        rwa [hstep]

theorem Kept.keepsClaim_step (hk : s.Kept undisturbed) (hm : m ≠ .clear) :
    s.site.KeepsClaim (step m s).site := by
  intro r hr
  rcases hk.master_step hm hr with hsame | ⟨i, o, c, -, -, -, hrenewed⟩
  · exact ⟨r, hsame, .refl r⟩
  · exact ⟨_, hrenewed, rfl, rfl, rfl⟩

/-- **A step keeps all masters to their terms**, as long as the record is not cleared if it must not
be. -/
theorem Kept.step (hk : s.Kept undisturbed) (hm : undisturbed → m ≠ .clear) :
    (step m s).Kept undisturbed := by
  have hothers : ∀ c ∈ s.claimants, c.IsKept undisturbed (Registration.step m s).site :=
    fun c hc => (hk c hc).rely fun hund => hk.keepsClaim_step (hm hund)
  cases m with
  | call host port =>
    intro c hc
    rcases List.mem_append.mp hc with hc | hc
    · exact hothers c hc
    · obtain rfl := List.mem_singleton.mp hc
      exact Registrar.register_keeps host port s.site
  | clear => exact hothers
  | work i o =>
    cases hc : s.claimants[i]? with
    | none => simpa only [Registration.step, hc] using hk
    | some c =>
      have hkept := hk c (List.mem_of_getElem? hc)
      rcases work_cases hc hkept o with ⟨x, rest, site, -, hx, hstep⟩ | ⟨-, hstep⟩
      · rw [hstep] at hothers ⊢
        intro d hd
        rcases List.mem_or_eq_of_mem_set hd with hd | rfl
        · exact hothers d hd
        · exact (hkept.advance hx).2.2
      · rwa [hstep]

theorem kept_start (s : Site) : (start s).Kept undisturbed := by
  simp [Kept, start]

/-- **A run keeps all masters to their terms.** -/
theorem Kept.after (hk : s.Kept undisturbed) (ms : List Move) (hms : undisturbed → .clear ∉ ms) :
    (after ms s).Kept undisturbed := by
  induction ms generalizing s with
  | nil => exact hk
  | cons m ms ih =>
    rw [after_cons]
    refine ih (hk.step fun hund heq => hms hund ?_) fun hund hmem => hms hund ?_
    · rw [heq]
      exact List.mem_cons_self
    · exact List.mem_cons_of_mem _ hmem

/-- **Once written, a claim stays**, if nobody clears it. -/
theorem Kept.keepsClaim (hk : s.Kept undisturbed) {ms : List Move} (hms : .clear ∉ ms) :
    s.site.KeepsClaim (Registration.after ms s).site := by
  induction ms generalizing s with
  | nil => exact .refl s.site
  | cons m ms ih =>
    rw [List.mem_cons, not_or] at hms
    have hm : m ≠ .clear := fun heq => hms.1 heq.symm
    exact (hk.keepsClaim_step hm).trans (ih (hk.step fun _ => hm) hms.2)

/-! ## Answers -/

/-- A step leaves the masters as they are, but for the one whose turn it is. -/
theorem step_of_not_work (hm : m.isWorkOf i = false) (hc : s.claimants[i]? = some c) :
    (step m s).claimants[i]? = some c := by
  cases m with
  | call host port =>
    simp only [step]
    rw [List.getElem?_append_left (List.getElem?_eq_some_iff.mp hc).1]
    exact hc
  | clear => exact hc
  | work j o =>
    have hij : j ≠ i := by
      rintro rfl
      simp [Move.isWorkOf] at hm
    simp only [step]
    split
    · exact hc
    · split
      · rw [List.getElem?_set_ne hij]
        exact hc
      · exact hc

theorem eq_work_of_isWorkOf (hm : m.isWorkOf i = true) : ∃ o, m = .work i o := by
  cases m with
  | work j o =>
    obtain rfl : i = j := by simpa [Move.isWorkOf] using hm
    exact ⟨o, rfl⟩
  | call host port => simp [Move.isWorkOf] at hm
  | clear => simp [Move.isWorkOf] at hm

/-- **An answer is final.** -/
theorem Kept.answered_after (hk : s.Kept False) (hc : s.claimants[i]? = some c)
    {a : Except MasterError MasterRecord} (ha : c.answer? = some a) (ms : List Move) :
    (Registration.after ms s).claimants[i]? = some c := by
  induction ms generalizing s with
  | nil => exact hc
  | cons m ms ih =>
    rw [after_cons]
    refine ih (hk.step nofun) ?_
    cases hm : m.isWorkOf i with
    | false => exact step_of_not_work hm hc
    | true =>
      obtain ⟨o, rfl⟩ := eq_work_of_isWorkOf hm
      have hkept := hk c (List.mem_of_getElem? hc)
      rcases work_cases hc hkept o with ⟨x, rest, site, hnone, -⟩ | ⟨-, hstep⟩
      · simp [hnone] at ha
      · rwa [hstep]

/-- **Every master is answered** when it has had three turns. -/
theorem Kept.answered_of_turns (hk : s.Kept False) (hc : s.claimants[i]? = some c) {ms : List Move}
    (hms : 3 ≤ c.asked.length + ms.countP (Move.isWorkOf i)) :
    ∃ d a, (Registration.after ms s).claimants[i]? = some d ∧ d.host = c.host ∧ d.port = c.port ∧
      d.answer? = some a := by
  induction ms generalizing s c with
  | nil =>
    obtain ⟨a, ha⟩ := (hk c (List.mem_of_getElem? hc)).answered hms
    exact ⟨c, a, hc, rfl, rfl, ha⟩
  | cons m ms ih =>
    have hk' := hk.step (m := m) nofun
    rw [after_cons]
    cases hm : m.isWorkOf i with
    | false =>
      rw [List.countP_cons_of_neg (by simp [hm])] at hms
      exact ih hk' (step_of_not_work hm hc) hms
    | true =>
      rw [List.countP_cons_of_pos hm] at hms
      obtain ⟨o, rfl⟩ := eq_work_of_isWorkOf hm
      rcases work_cases hc (hk c (List.mem_of_getElem? hc)) o with
        ⟨x, rest, site, -, -, hstep⟩ | ⟨⟨a, ha⟩, -⟩
      · -- the turn is one more request
        have hget : (Registration.step (.work i o) s).claimants[i]? =
            some { c with asked := c.asked ++ [x], rest := rest } := by
          rw [hstep]
          exact List.getElem?_set_self (List.getElem?_eq_some_iff.mp hc).1
        have hlength : 3 ≤ (c.asked ++ [x]).length + ms.countP (Move.isWorkOf i) := by
          rw [List.length_append, List.length_singleton]
          omega
        obtain ⟨d, a, hd, hhost, hport, ha⟩ := ih hk' hget hlength
        exact ⟨d, a, hd, hhost, hport, ha⟩
      · exact ⟨c, a, hk.answered_after hc ha (.work i o :: ms), rfl, rfl, ha⟩

/-- **A claim is confirmed by a request of its own master**, after which it is stored. -/
theorem Kept.confirmed_step (hk : s.Kept False) {d : Claimant} {r : MasterRecord}
    (hd : (Registration.step m s).claimants[i]? = some d) (ha : d.answer? = some (.ok r)) :
    s.claimants[i]? = some d ∨
      ∃ o c x, m = .work i o ∧ s.claimants[i]? = some c ∧ c.answer? = none ∧
        d.asked = c.asked ++ [x] ∧ r.isAt d.host d.port = true ∧
        Registrar.Confirms d.host d.port r x ∧
        (Registration.step m s).site.store.master = some r := by
  cases m with
  | clear => exact .inl hd
  | call host port =>
    simp only [Registration.step, List.getElem?_append] at hd
    split at hd
    · exact .inl hd
    · -- a master that begins has not been answered
      have hnew : d = .start host port := by
        have := List.mem_of_getElem? hd
        simpa using this
      rw [hnew] at ha
      cases ha
  | work j o =>
    cases hc : s.claimants[j]? with
    | none =>
      left
      simpa only [Registration.step, hc] using hd
    | some c =>
      have hkept := hk c (List.mem_of_getElem? hc)
      rcases work_cases hc hkept o with ⟨x, rest, site, hnone, hx, hstep⟩ | ⟨-, hstep⟩
      · rw [hstep] at hd ⊢
        by_cases hij : j = i
        · subst hij
          rw [List.getElem?_set_self (List.getElem?_eq_some_iff.mp hc).1] at hd
          cases hd
          obtain ⟨-, hanswer, hkept'⟩ := hkept.advance hx
          obtain ⟨_, ⟨⟩, hok, -⟩ := hkept'.ended ha
          obtain ⟨hat, y, hy, hconfirms⟩ := hok r rfl
          rw [List.getLast?_concat, Option.some.injEq] at hy
          subst hy
          exact .inr ⟨o, c, x, rfl, hc, hnone, rfl, hat, hconfirms, hconfirms.master hanswer⟩
        · rw [List.getElem?_set_ne hij] at hd
          exact .inl hd
      · rw [hstep] at hd
        exact .inl hd

theorem confirmed_by_own_request {site : Site} {ms : List Move} {d : Claimant} {r : MasterRecord}
    (hd : (after ms (start site)).claimants[i]? = some d) (ha : d.answer? = some (.ok r)) :
    ∃ pre o post c x, ms = pre ++ .work i o :: post ∧
      (after pre (start site)).claimants[i]? = some c ∧ c.answer? = none ∧
      d.asked = c.asked ++ [x] ∧ r.isAt d.host d.port = true ∧
      Registrar.Confirms d.host d.port r x ∧
      (after (pre ++ [.work i o]) (start site)).site.store.master = some r := by
  -- from the end of the run back to the step at which the answer came
  induction ms using List.reverseRecOn with
  | nil => simp [after, start] at hd
  | append_singleton ms m ih =>
    rw [after_append] at hd
    have hk : (after ms (start site)).Kept False := (kept_start site).after ms nofun
    rcases hk.confirmed_step hd ha with hd | ⟨o, c, x, rfl, hc, hnone, hx, hat, hconfirms, hmaster⟩
    · obtain ⟨pre, o, post, c, x, rfl, hrest⟩ := ih hd
      exact ⟨pre, o, post ++ [m], c, x, by simp, hrest⟩
    · refine ⟨ms, o, [], c, x, rfl, hc, hnone, hx, hat, hconfirms, ?_⟩
      rw [after_append]
      exact hmaster

/-- **At most one master.** Whatever masters register on a store, in whatever order they make their
requests: a record is never overwritten by a master at another address; a master is confirmed only
by its own insertion or renewal, after which the record is its own; and every master is answered
when it has had three turns. While nobody clears the record, its claim stays once written, and every
answer is the verdict of this claim: so all that are confirmed have its address, and all others are
refused with its address. -/
theorem one_master (site : Site) (ms : List Move) :
    (∀ m ≠ .clear, ∀ r, (after ms (start site)).site.store.master = some r →
      (after (ms ++ [m]) (start site)).site.store.master = some r ∨
        ∃ i o c, m = .work i o ∧ (after ms (start site)).claimants[i]? = some c ∧
          r.isAt c.host c.port = true ∧
          (after (ms ++ [m]) (start site)).site.store.master =
            some { r with modifyTime := o.now }) ∧
    (∀ i d r, (after ms (start site)).claimants[i]? = some d → d.answer? = some (.ok r) →
      ∃ pre o post c x, ms = pre ++ .work i o :: post ∧
        (after pre (start site)).claimants[i]? = some c ∧ c.answer? = none ∧
        d.asked = c.asked ++ [x] ∧ r.isAt d.host d.port = true ∧
        Registrar.Confirms d.host d.port r x ∧
        (after (pre ++ [.work i o]) (start site)).site.store.master = some r) ∧
    (∀ i c later, (after ms (start site)).claimants[i]? = some c →
      3 ≤ later.countP (Move.isWorkOf i) →
      ∃ d a, (after (ms ++ later) (start site)).claimants[i]? = some d ∧ d.host = c.host ∧
        d.port = c.port ∧ d.answer? = some a) ∧
    (∀ later, .clear ∉ later →
      (after ms (start site)).site.KeepsClaim (after (ms ++ later) (start site)).site) ∧
    (.clear ∉ ms → ∀ c ∈ (after ms (start site)).claimants, ∀ a, c.answer? = some a →
      ∃ m, (after ms (start site)).site.store.master = some m ∧
        Registrar.IsVerdict c.host c.port m a) ∧
    (.clear ∉ ms → ∀ c ∈ (after ms (start site)).claimants,
      ∀ d ∈ (after ms (start site)).claimants, ∀ q r, c.answer? = some (.ok q) →
        d.answer? = some (.ok r) → c.host = d.host ∧ c.port = d.port) := by
  have hk : (after ms (start site)).Kept False := (kept_start site).after ms nofun
  have hverdict : .clear ∉ ms → ∀ c ∈ (after ms (start site)).claimants, ∀ a,
      c.answer? = some a → ∃ m, (after ms (start site)).site.store.master = some m ∧
        Registrar.IsVerdict c.host c.port m a := by
    intro hms c hc a ha
    have hkept : (after ms (start site)).Kept True := (kept_start site).after ms fun _ => hms
    obtain ⟨_, ⟨⟩, -, hverdict⟩ := (hkept c hc).ended ha
    exact hverdict trivial
  refine ⟨fun m hm r hr => ?_, fun i d r hd ha => ?_, fun i c later hc hlater => ?_,
    fun later hlater => ?_, hverdict, fun hms c hc d hd q r hq hr => ?_⟩
  · rw [after_append]
    exact hk.master_step hm hr
  · exact confirmed_by_own_request hd ha
  · rw [after_append]
    exact hk.answered_of_turns hc (by omega)
  · rw [after_append]
    exact hk.keepsClaim hlater
  · -- both claims have been judged by the one record that is stored
    obtain ⟨m, hm, hcm⟩ := hverdict hms c hc _ hq
    obtain ⟨n, hn, hdm⟩ := hverdict hms d hd _ hr
    rw [hm, Option.some.injEq] at hn
    subst hn
    have hcat := hcm.isAt_of_ok
    have hdat := hdm.isAt_of_ok
    simp only [MasterRecord.isAt, Bool.and_eq_true, beq_iff_eq] at hcat hdat
    exact ⟨hcat.1.symm.trans hdat.1, hcat.2.symm.trans hdat.2⟩

/-- Two masters find no record, and the second one is the first to insert its own. -/
def race : List Move :=
  let o : Outside := ⟨⟨0, 0⟩, .ok ()⟩
  [.call "a" 1, .call "b" 2, .work 0 o, .work 1 o, .work 1 o, .work 0 o]

/-- In this race the second one is confirmed and the first one refused, as the record says. -/
theorem one_master_race :
    ∃ c d, (after race (start ⟨.empty, .empty, .empty, .empty⟩)).claimants = [c, d] ∧
      c.answer? = some (.error (.masterConflict ⟨"b", 2, ⟨0, 0⟩, ⟨0, 0⟩⟩)) ∧
      d.answer? = some (.ok ⟨"b", 2, ⟨0, 0⟩, ⟨0, 0⟩⟩) ∧
      ∃ m, (after race (start ⟨.empty, .empty, .empty, .empty⟩)).site.store.master = some m ∧
        Registrar.IsVerdict "a" 1 m (.error (.masterConflict ⟨"b", 2, ⟨0, 0⟩, ⟨0, 0⟩⟩)) := by
  obtain ⟨-, -, -, -, hverdict, -⟩ := one_master ⟨.empty, .empty, .empty, .empty⟩ race
  refine ⟨_, _, rfl, rfl, rfl, ?_⟩
  exact hverdict (by simp [race]) _ List.mem_cons_self _ rfl

end Registration

end WorkflowScheduler
