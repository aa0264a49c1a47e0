import WorkflowScheduler.CommandLine.Client
import WorkflowScheduler.Proofs.BackfillRuns
import WorkflowScheduler.Proofs.Numerals

/-!
# The times that a client asks for

A client reads a time, sends it in milliseconds, and the master makes an instant of it again. What is
finer than a millisecond is cut off on the way, and a time within a leap second becomes one within
the second after it. Zero milliseconds ask for the time at which the request is handled, so that a
time of the first millisecond of 1970 stands for that. Every other time reaches the row of a run, and
the window of a backfill, as it was asked for.

## Main definitions

* `Instant.wholeMillis`: an instant without what is finer than a millisecond
* `CommandLine.StandsFor`: the instant that a time of a client stands for

## Main results

* `Stamp.bounds_of_strict`: the instants that a client can name
* `Instant.ofMillis?_toMillis`: milliseconds are read back as whole milliseconds
* `CommandLine.requested_times_kept`: runs and backfills are made for the times asked for
-/

namespace WorkflowScheduler

/-! ## Bounds of what is read -/

namespace Text

theorem digitValue_le {c : Char} (hc : isDigit c = true) : digitValue c ≤ 9 := by
  simp only [isDigit, Bool.and_eq_true, decide_eq_true_eq] at hc
  have hle : c.toNat ≤ '9'.toNat := hc.2
  exact Nat.sub_le_sub_right hle '0'.toNat

/-- Digits stand for a number with as many digits. -/
theorem ofDigits_lt {cs : List Char} (hcs : ∀ c ∈ cs, isDigit c = true) :
    ofDigits cs < Nat.pow 10 cs.length := by
  -- what has been read before raises the bound, so it is stated from any start
  have hfrom : ∀ n, cs.foldl (fun n c => 10 * n + digitValue c) n < (n + 1) * 10 ^ cs.length := by
    induction cs with
    | nil => intro n; simp
    | cons c cs ih =>
      intro n
      have hc := digitValue_le (hcs c List.mem_cons_self)
      calc (c :: cs).foldl (fun n c => 10 * n + digitValue c) n
          < (10 * n + digitValue c + 1) * 10 ^ cs.length :=
            ih (fun d hd => hcs d (List.mem_cons_of_mem _ hd)) _
        _ ≤ ((n + 1) * 10) * 10 ^ cs.length := Nat.mul_le_mul_right _ (by omega)
        _ = (n + 1) * 10 ^ (c :: cs).length := by
          rw [List.length_cons, Nat.pow_succ, Nat.mul_assoc, Nat.mul_comm 10]
  simpa [ofDigits] using hfrom 0

end Text

theorem Instant.eq_of_inRange? {t u : Instant} (h : u.inRange? = some t) : u = t := by
  unfold Instant.inRange? at h
  split at h
  · exact Option.some.inj h
  · cases h

namespace Stamp

open Text

variable {cs rest : List Char} {text : String} {t : Instant}

theorem exists_of_bind {ε α β : Type} {x : Except ε α} {f : α → Except ε β} {b : β}
    (h : x >>= f = .ok b) : ∃ a, x = .ok a ∧ f a = .ok b := by
  cases x with
  | ok a => exact ⟨a, rfl, h⟩
  | error e => cases h

/-- A fraction is shorter than a second. -/
theorem fraction_lt {n : Nat} (h : fraction cs = some (n, rest)) : n < 1000000000 := by
  unfold fraction at h
  split at h
  · next ds =>
    simp only at h
    split at h
    · cases h
    · cases h
      have hdigits : ∀ c ∈ (ds.takeWhile isDigit).take 9, isDigit c = true := fun c hc =>
        List.mem_takeWhile_imp (List.mem_of_mem_take hc)
      have hlength : ((ds.takeWhile isDigit).take 9).length ≤ 9 := List.length_take_le 9 _
      calc ofDigits ((ds.takeWhile isDigit).take 9) *
            Nat.pow 10 (9 - ((ds.takeWhile isDigit).take 9).length)
          < 10 ^ ((ds.takeWhile isDigit).take 9).length *
              10 ^ (9 - ((ds.takeWhile isDigit).take 9).length) :=
            Nat.mul_lt_mul_of_pos_right (ofDigits_lt hdigits) (Nat.pow_pos (by decide))
        _ = 1000000000 := by rw [← Nat.pow_add, Nat.add_sub_cancel' hlength]
  · cases h
    decide

theorem strictFraction_lt {n : Nat} (h : strictFraction cs = .ok (n, rest)) : n < 1000000000 := by
  unfold strictFraction at h
  split at h
  · cases h
  · split at h
    · cases h
    · next r hr =>
      cases h
      exact fraction_lt hr

theorem strictDigits_bounds {n lo hi v : Nat} (h : strictDigits n lo hi cs = .ok (v, rest)) :
    lo ≤ v ∧ v ≤ hi := by
  unfold strictDigits at h
  split at h
  · cases h
  · split at h
    · cases h
    · split at h
      · next hv =>
        cases h
        exact hv
      · cases h

/-- The parts of a strict stamp. -/
theorem fields_of_strict (h : strict text = .ok t) :
    ∃ f : Fields, f.instant? = some t ∧ (0 ≤ f.year ∧ f.year ≤ 9999) ∧ f.nanos < 1000000000 := by
  unfold strict at h
  -- one part after the other, as they are written
  obtain ⟨⟨year, cs⟩, hyear, h⟩ := exists_of_bind h
  obtain ⟨⟨_, cs⟩, -, h⟩ := exists_of_bind h
  obtain ⟨⟨month, cs⟩, -, h⟩ := exists_of_bind h
  obtain ⟨⟨_, cs⟩, -, h⟩ := exists_of_bind h
  obtain ⟨⟨day, cs⟩, -, h⟩ := exists_of_bind h
  obtain ⟨⟨_, cs⟩, -, h⟩ := exists_of_bind h
  obtain ⟨⟨hour, cs⟩, -, h⟩ := exists_of_bind h
  obtain ⟨⟨_, cs⟩, -, h⟩ := exists_of_bind h
  obtain ⟨⟨minute, cs⟩, -, h⟩ := exists_of_bind h
  obtain ⟨⟨_, cs⟩, -, h⟩ := exists_of_bind h
  obtain ⟨⟨second, cs⟩, -, h⟩ := exists_of_bind h
  obtain ⟨⟨nanos, cs⟩, hnanos, h⟩ := exists_of_bind h
  obtain ⟨⟨offset, cs⟩, -, h⟩ := exists_of_bind h
  have hyear := strictDigits_bounds hyear
  have hnanos := strictFraction_lt hnanos
  simp only at h
  split at h
  · split at h
    · next hinstant =>
      cases h
      exact ⟨_, hinstant, ⟨Int.natCast_nonneg year, Int.ofNat_le.mpr hyear.2⟩, hnanos⟩
    · cases h
  · cases h

/-- **The instants that a client can name**: those of the years 0 to 9999, give or take a day, and
within a leap second as well. -/
theorem bounds_of_strict (h : strict text = .ok t) :
    (-62167305600 ≤ t.seconds ∧ t.seconds < 253402387200) ∧ t.nanos < 2000000000 := by
  obtain ⟨f, hf, hyear, hnanos⟩ := fields_of_strict h
  unfold Fields.instant? at hf
  simp only at hf
  split at hf
  · next hvalid =>
    obtain ⟨-, -, hdate, hhour, hminute, -, hoffset⟩ := hvalid
    have hclock : Clock.IsValid ⟨⟨f.year, f.month, f.day⟩, f.hour, f.minute, min f.second 59⟩ :=
      ⟨hdate, by simp only; omega, by simp only; omega, by simp only; omega⟩
    have hle := hclock.newYear_le
    have hlt := hclock.lt_newYear
    rw [Clock.newYear_seconds] at hle hlt
    -- the clock lies in its year, and the year between the first and the last
    have hfirst : Date.yearStart 0 ≤ Date.yearStart f.year := Date.yearStart_mono hyear.1
    have hlast : Date.yearStart (f.year + 1) ≤ Date.yearStart 10000 :=
      Date.yearStart_mono (by omega)
    have h0 : Date.yearStart 0 = -719528 := by decide
    have h10000 : Date.yearStart 10000 = 2932897 := by decide
    obtain rfl := Instant.eq_of_inRange? hf
    unfold Clock.seconds at hle hlt
    simp only at *
    refine ⟨by omega, ?_⟩
    split <;> omega
  · cases hf

end Stamp

/-! ## Whole milliseconds -/

namespace Instant

variable {t : Instant}

/-- The first instant of 1970. -/
def epoch : Instant := ⟨0, 0⟩

/-- **An instant without what is finer than a millisecond.** One within a leap second counts as one
within the next second. -/
def wholeMillis (t : Instant) : Instant :=
  if t.InLeapSecond then ⟨t.seconds + 1, (t.nanos - 1000000000) / 1000000 * 1000000⟩
  else ⟨t.seconds, t.nanos / 1000000 * 1000000⟩

theorem ofMillis_toMillis (h : t.nanos < 2000000000) : ofMillis t.toMillis = t.wholeMillis := by
  unfold wholeMillis ofMillis toMillis
  by_cases hleap : t.InLeapSecond
  · rw [if_pos hleap, mk.injEq]
    unfold InLeapSecond at hleap
    omega
  · rw [if_neg hleap, mk.injEq]
    unfold InLeapSecond at hleap
    omega

/-- **Milliseconds are read back as whole milliseconds**, whatever a client has named. -/
theorem ofMillis?_toMillis {text : String} (h : Stamp.strict text = .ok t) :
    ofMillis? t.toMillis = some t.wholeMillis := by
  obtain ⟨hseconds, hnanos⟩ := Stamp.bounds_of_strict h
  rw [← ofMillis_toMillis hnanos]
  apply ofMillis?_eq_some
  rw [ofMillis_toMillis hnanos]
  unfold InRange wholeMillis firstSecond lastSecond
  split <;> simp only <;> omega

theorem toMillis_eq_zero_iff (h : t.nanos < 2000000000) :
    t.toMillis = 0 ↔ t.wholeMillis = epoch := by
  rw [← ofMillis_toMillis h]
  constructor
  · intro hzero
    rw [hzero]
    rfl
  · intro hepoch
    rw [← toMillis_ofMillis t.toMillis, hepoch]
    rfl

end Instant

/-! ## What is made of a request -/

/-- What has been exchanged is the beginning of all that will be. -/
theorem Interaction.Keeps.extends {R : Type} {A : R → Type} {α σ ω : Type} {T : Terms A σ ω}
    {post : List (Exchange A) → Option α → σ → Prop} {p : Interaction R A α}
    {h : List (Exchange A)} {s : σ} (hp : p.Keeps T post h s) :
    p.Keeps T (fun k r t => h <+: k ∧ post k r t) h s := by
  induction p generalizing h s with
  | done a => exact fun t ht => ⟨List.prefix_rfl, hp t ht⟩
  | crash => exact fun t ht => ⟨List.prefix_rfl, hp t ht⟩
  | ask r next ih =>
    refine fun t ht => ⟨(hp t ht).1, fun o => (ih _ ((hp t ht).2 o)).imp ?_⟩
    exact fun k r u hu => ⟨(List.prefix_append h _).trans hu.1, hu.2⟩

namespace Service

open Operation Master

variable {millis : Int} {projectId flowId : Int} {s : Site} {h : History}

/-- Reading a time changes nothing. -/
theorem instantOf_alone (field : String) (millis : Int) (h : History) (s : Site) :
    (instantOf field millis).run.Keeps unaccompanied (fun k r t => t = s ∧
      ∃ l, k = h ++ l ∧ Reads millis l r) h s := by
  by_cases hm : millis = 0
  · subst hm
    rintro t rfl
    refine ⟨trivial, fun o => ?_⟩
    rintro u rfl
    exact ⟨rfl, _, rfl, .clock rfl o.now⟩
  · rw [instantOf_of_ne hm]
    cases ht : Instant.ofMillis? millis with
    | none =>
      rintro t rfl
      exact ⟨rfl, [], (List.append_nil h).symm, .outside hm ht _⟩
    | some u =>
      rintro t rfl
      exact ⟨rfl, [], (List.append_nil h).symm, .date hm ht⟩

end Service

namespace CommandLine

open Operation Master Service

/-- **The instant that a time of a client stands for**, with what is exchanged to find it: the time at
which the request is handled, for a time of the first millisecond of 1970, and otherwise the time
itself. -/
inductive StandsFor (t : Instant) : History → Instant → Prop
  | clock (h : t.wholeMillis = .epoch) (now : Instant) : StandsFor t [⟨.now, now⟩] now
  | date (h : t.wholeMillis ≠ .epoch) : StandsFor t [] t.wholeMillis

variable {text : String} {t u : Instant} {s : Site} {projectId flowId : Int} {w : Workflow}

theorem strict_of_timeOf (h : timeOf text = .ok t) : Stamp.strict text = .ok t := by
  unfold timeOf at h
  split at h
  · next ht => rw [ht, Except.ok.inj h]
  · cases h

theorem millisOf_eq (h : timeOf text = .ok t) : millisOf text = .ok t.toMillis := by
  rw [millisOf, h]
  rfl

/-- A time that a client has sent is read as the instant that it stands for. -/
theorem exists_standsFor (h : timeOf text = .ok t) {l : History}
    {r : Option (Except MasterError Instant)} (hr : Reads t.toMillis l r) :
    ∃ u, r = some (.ok u) ∧ StandsFor t l u := by
  have ht := strict_of_timeOf h
  have hzero := Instant.toMillis_eq_zero_iff (Stamp.bounds_of_strict ht).2
  have hread := Instant.ofMillis?_toMillis ht
  cases hr with
  | clock hm now => exact ⟨now, rfl, .clock (hzero.mp hm) now⟩
  | date hm hu =>
    obtain rfl := Option.some.inj (hread.symm.trans hu)
    exact ⟨_, rfl, .date fun hepoch => hm (hzero.mpr hepoch)⟩
  | outside _ hnone => rw [hread] at hnone; cases hnone

/-- Reading a time that a client has sent succeeds, and changes nothing. -/
theorem instantOf_standsFor (h : timeOf text = .ok t) (field : String) (k : History) (s : Site) :
    (instantOf field t.toMillis).run.Keeps unaccompanied (fun k' r s' => ∃ u, r = some (.ok u) ∧
      s' = s ∧ ∃ l, k' = k ++ l ∧ StandsFor t l u) k s := by
  refine (instantOf_alone field t.toMillis k s).imp ?_
  rintro k' r s' ⟨hs, l, hk, hr⟩
  obtain ⟨u, hu, hstands⟩ := exists_standsFor h hr
  exact ⟨u, hu, hs, l, hk, hstands⟩

/-- **A single run of a workflow for some time**, as it is stored: it waits, and nobody has it yet. -/
structure IsRunFor (row : Execution) (w : Workflow) (u : Instant) : Prop where
  scheduleTime : row.scheduleTime = u
  runKind : row.runKind = .direct
  waits : row.status = .init ∧ row.worker = none ∧ row.startTime = none ∧ row.endTime = none
  workflow : row.projectId = w.projectId ∧ row.flowId = w.id ∧ row.flowKind = w.flowKind

theorem isRunFor_newRow (id : Int) (now : Instant) (w : Workflow) (u : Instant) (set : Settings) :
    IsRunFor (Store.newRow id now (.direct w u set)) w u := by
  unfold NewExecution.direct NewExecution.overrideTimeout
  split
  · exact ⟨rfl, rfl, ⟨rfl, rfl, rfl, rfl⟩, ⟨rfl, rfl, rfl⟩⟩
  · exact ⟨rfl, rfl, ⟨rfl, rfl, rfl, rfl⟩, ⟨rfl, rfl, rfl⟩⟩

/-- **A run of a workflow that is there** is stored with the time that it is for. -/
theorem execFlow_alone (hfound : s.store.workflow? flowId = some w)
    (hproject : w.projectId = projectId) (u : Instant) (set : Settings) (k : History) :
    (execFlow projectId flowId u set).run.Keeps unaccompanied (fun k' r s' => ∃ id,
      r = some (.ok id) ∧ k <+: k' ∧ ∃ now, id = s.store.lastId + 1 ∧
        s' = submitted s [Store.newRow id now (.direct w u set)]) k s := by
  have hread : (workflow projectId flowId).run.Keeps unaccompanied (fun _ r s' => ∃ v,
      r = some (.ok v) ∧ v = w ∧ s' = s) k s := by
    refine (workflow_alone projectId flowId k s).imp ?_
    rintro k r s' ⟨hs, ⟨v, hr, hv, -⟩ | ⟨-, hnone⟩⟩
    · exact ⟨v, hr, Option.some.inj (hv.symm.trans hfound), hs⟩
    · exact absurd ⟨w, hfound, hproject⟩ hnone
  have hrun : (execFlow projectId flowId u set).run.Keeps unaccompanied (fun _ r s' => ∃ id,
      r = some (.ok id) ∧ ∃ now, id = s.store.lastId + 1 ∧
        s' = submitted s [Store.newRow id now (.direct w u set)]) k s := by
    refine keeps_andThen hread fun v k s' hs' => ?_
    obtain ⟨rfl, rfl⟩ := hs' s' rfl
    exact submit_alone _ k s'
  refine hrun.extends.imp ?_
  rintro k' r s' ⟨hk, id, hr, hs⟩
  exact ⟨id, hr, hk, hs⟩

/-- **A run on request** is stored with the instant that its time stands for. -/
theorem exec_alone (limit : Nat) (ht : timeOf text = .ok t)
    (hfound : s.store.workflow? flowId = some w) (hproject : w.projectId = projectId)
    (info : Option RunInfo) :
    (operation limit (.execFlow projectId flowId t.toMillis info)).run.Keeps unaccompanied
      (fun k r s' => ∃ l u now, l <+: k ∧ StandsFor t l u ∧
        r = some (.ok [s.store.lastId + 1]) ∧ s' = submitted s
          [Store.newRow (s.store.lastId + 1) now (.direct w u (settings info))]) [] s := by
  refine keeps_andThen (instantOf_standsFor ht _ [] s) fun u l s' hs' => ?_
  obtain ⟨rfl, _, rfl, hu⟩ := hs' s' rfl
  refine keeps_andThen (execFlow_alone hfound hproject u (settings info) _) fun id k s'' hs'' => ?_
  obtain ⟨hk, now, rfl, rfl⟩ := hs'' s'' rfl
  rintro v rfl
  exact ⟨_, u, now, hk, hu, rfl, rfl⟩

/-- **A backfill on request** is made for the window between the instants that its times stand for. -/
theorem append_alone (limit : Nat) {text' : String} {t' : Instant} (ht : timeOf text = .ok t)
    (ht' : timeOf text' = .ok t') (projectId flowId : Int) (cron : String) (s : Site) :
    (operation limit (.appendWorkFlow projectId flowId
      (some ⟨cron, t.toMillis, t'.toMillis⟩))).run.Keeps unaccompanied
      (fun k r s' => ∃ l l' start stop, l ++ l' <+: k ∧ StandsFor t l start ∧
        StandsFor t' l' stop ∧ BackfillEnds limit projectId flowId cron start stop s r s')
      [] s := by
  refine keeps_andThen (instantOf_standsFor ht _ [] s) fun start l s' hs' => ?_
  obtain ⟨rfl, _, rfl, hstart⟩ := hs' s' rfl
  refine keeps_andThen (instantOf_standsFor ht' _ _ s') fun stop k s'' hs'' => ?_
  obtain ⟨rfl, l', rfl, hstop⟩ := hs'' s'' rfl
  refine (backfill_alone limit projectId flowId cron start stop _ s'').extends.imp ?_
  rintro k r v ⟨hk, hends⟩
  exact ⟨_, l', start, stop, hk, hstart, hstop, hends⟩

/-- A request that nobody accompanies ends as its operation does, and is replied to accordingly. -/
theorem handle_alone {limit : Nat} {r : MasterRequest}
    {post : History → Option (Except MasterError r.Result) → Site → Prop}
    (hp : (operation limit r).run.Keeps unaccompanied post [] s) (outside : Nat → Outside) :
    let c := (handle limit r).course Site.answer outside s
    ∃ outcome, post (c.1.map (·.exchange)) outcome c.2.2 ∧ c.2.1 = outcome.map (reply r) := by
  intro c
  have hran := Interaction.ran_course Site.answer (handle limit r) outside s
  rw [handle_eq] at hran
  obtain ⟨outcome, hran, hreply⟩ := hran.of_map
  rw [← handle_eq] at hran hreply
  exact ⟨outcome, hp.ran (fun _ _ h => h) hran, hreply⟩

/-- The reply to a backfill tells of success exactly if it has succeeded. -/
theorem reply_append_eq_iff {r : Option (Except MasterError (List Int))} (i : Option WindowInfo) :
    r.map (reply (.appendWorkFlow projectId flowId i)) = some (⟨.ok, []⟩ : IdsReply) ↔
      ∃ ids, r = some (.ok ids) := by
  match r with
  | none => exact iff_of_false (fun h => by cases h) (by simp)
  | some (.ok ids) => exact iff_of_true rfl ⟨ids, rfl⟩
  | some (.error e) =>
    refine iff_of_false (fun h => ?_) (by simp)
    have henvelope : (⟨e.code, e.message⟩ : Envelope) = .ok :=
      congrArg IdsReply.ret (Option.some.inj h)
    exact e.code_ne_zero (congrArg Envelope.status henvelope)

/-- **The request for a run** has the milliseconds of its time. -/
theorem request_execFlow (projectId flowId : Int) {wish : RunWish}
    (hdate : wish.scheduleDate = some text) (ht : timeOf text = .ok t) :
    ∃ info, ClientCommand.request (.execFlow projectId flowId wish) =
      .ok (.execFlow projectId flowId t.toMillis (some info)) := by
  refine ⟨⟨wish.nodeName.getD "", wish.nodeScope.toWire, wish.notification.toWire,
    wish.notifyMails, wish.timeout⟩, ?_⟩
  simp only [ClientCommand.request, hdate, millisOf_eq ht]
  rfl

/-- **The request for a backfill** has the milliseconds of its times. -/
theorem request_appendFlow {text' : String} {t' : Instant} (ht : timeOf text = .ok t)
    (ht' : timeOf text' = .ok t') (cron : String) :
    ClientCommand.request (.appendFlow projectId flowId cron text text') =
      .ok (.appendWorkFlow projectId flowId (some ⟨cron, t.toMillis, t'.toMillis⟩)) := by
  simp only [ClientCommand.request, millisOf_eq ht, millisOf_eq ht']
  rfl

/-- **Runs and backfills are made for the times that a client asks for.** A run of a workflow that is
there is stored for the instant that its time stands for, and nothing else changes in the store. A
backfill succeeds exactly if its workflow, its expression and the window between the two instants
admit it; then it makes the runs for the fire times of that window, and otherwise it changes
nothing. -/
theorem requested_times_kept (limit : Nat) (projectId flowId : Int) (s : Site)
    (outside : Nat → Outside) :
    (∀ (wish : RunWish) (text : String) (t : Instant) (w : Workflow),
      wish.scheduleDate = some text → timeOf text = .ok t →
      s.store.workflow? flowId = some w → w.projectId = projectId →
        ∃ info, ClientCommand.request (.execFlow projectId flowId wish) =
            .ok (.execFlow projectId flowId t.toMillis info) ∧
          let c := (handle limit (.execFlow projectId flowId t.toMillis info)).course Site.answer
            outside s
          ∃ l u row, l <+: c.1.map (·.exchange) ∧ StandsFor t l u ∧ IsRunFor row w u ∧
            row.id = s.store.lastId + 1 ∧ c.2.1 = some ⟨.ok, [row.id]⟩ ∧
              c.2.2 = submitted s [row]) ∧
    (∀ (cron text text' : String) (t t' : Instant),
      timeOf text = .ok t → timeOf text' = .ok t' →
        ClientCommand.request (.appendFlow projectId flowId cron text text') =
            .ok (.appendWorkFlow projectId flowId (some ⟨cron, t.toMillis, t'.toMillis⟩)) ∧
          let c := (handle limit (.appendWorkFlow projectId flowId
            (some ⟨cron, t.toMillis, t'.toMillis⟩))).course Site.answer outside s
          ∃ l l' start stop, l ++ l' <+: c.1.map (·.exchange) ∧ StandsFor t l start ∧
            StandsFor t' l' stop ∧
              (c.2.1 = some ⟨.ok, []⟩ ↔
                ∃ w ts, Admits limit projectId flowId cron start stop s w ts) ∧
              (∀ w ts, Admits limit projectId flowId cron start stop s w ts →
                ∃ rows, Backfilled w ts s rows c.2.2) ∧
              (c.2.1 ≠ some ⟨.ok, []⟩ → c.2.2 = s)) := by
  refine ⟨?_, ?_⟩
  · intro wish text t w hdate ht hfound hproject
    obtain ⟨info, hrequest⟩ := request_execFlow projectId flowId hdate ht
    refine ⟨some info, hrequest, ?_⟩
    obtain ⟨outcome, ⟨l, u, now, hl, hu, rfl, hs⟩, hreply⟩ :=
      handle_alone (r := .execFlow _ _ _ _) (exec_alone limit ht hfound hproject (some info)) outside
    exact ⟨l, u, _, hl, hu, isRunFor_newRow _ now w u _, rfl, hreply, hs⟩
  · intro cron text text' t t' ht ht'
    refine ⟨request_appendFlow ht ht' cron, ?_⟩
    intro c
    obtain ⟨outcome, ⟨l, l', start, stop, hl, hstart, hstop, hends⟩, hreply⟩ :=
      handle_alone (r := .appendWorkFlow _ _ _) (append_alone limit ht ht' projectId flowId cron s)
        outside
    have hok : c.2.1 = some ⟨.ok, []⟩ ↔ ∃ ids, outcome = some (.ok ids) :=
      Iff.trans ⟨hreply.symm.trans, hreply.trans⟩ (reply_append_eq_iff _)
    refine ⟨l, l', start, stop, hl, hstart, hstop, ?_⟩
    rcases hends with ⟨w, ts, rows, hadmits, houtcome, hrows, hs⟩ | ⟨hnone, hfailed, hs, -⟩
    · -- the window is admitted, and in one way only
      have hsucceeds : c.2.1 = some ⟨.ok, []⟩ := hok.mpr ⟨_, houtcome⟩
      refine ⟨iff_of_true hsucceeds ⟨w, ts, hadmits⟩, ?_, fun hn => absurd hsucceeds hn⟩
      intro v us hv
      obtain ⟨rfl, rfl⟩ := hadmits.unique hv
      exact ⟨rows, hs ▸ hrows.backfilled⟩
    · -- nothing admits it
      have hfails : c.2.1 ≠ some ⟨.ok, []⟩ := fun hn => by
        obtain ⟨ids, hids⟩ := hok.mp hn
        exact hfailed ids hids
      exact ⟨iff_of_false hfails hnone, fun w ts h => absurd ⟨w, ts, h⟩ hnone, fun _ => hs⟩

/-- A run of which only the time is given. -/
def wishFor (text : String) : RunWish :=
  ⟨some text, none, .nodeOnly, .never, 0, []⟩

/-- A clock that shows ten o'clock on 2024-03-01. -/
def atTen : Outside := ⟨⟨1709287200, 0⟩, .ok ()⟩

/-- A run is stored for the millisecond that its time names, and a backfill makes its two runs. -/
theorem requested_times_kept_oneWorkflow :
    (∃ info, ClientCommand.request (.execFlow 10 1 (wishFor "2024-03-01T12:30:00.1239+02:00")) =
        .ok (.execFlow 10 1 1709289000123 info) ∧
      ∃ row, ((handle 10 (.execFlow 10 1 1709289000123 info)).course Site.answer (fun _ => atTen)
          Site.oneWorkflow).2.2.store.rows = [row] ∧
        row.scheduleTime = ⟨1709289000, 123000000⟩) ∧
    ∃ rows, rows.map (·.scheduleTime) = [⟨1704067200, 0⟩, ⟨1767225600, 0⟩] ∧
      ((handle 10 (.appendWorkFlow 10 1 (some
        ⟨"0 0 0 1 1 ? 2024,2026", 1704067200000, 1798761600000⟩))).course Site.answer
          (fun _ => atTen) Site.oneWorkflow).2.2.store.rows = rows := by
  obtain ⟨hexec, happend⟩ := requested_times_kept 10 10 1 Site.oneWorkflow fun _ => atTen
  refine ⟨?_, ?_⟩
  · obtain ⟨info, hrequest, l, u, row, -, hu, hrow, -, -, hs⟩ :=
      hexec (wishFor "2024-03-01T12:30:00.1239+02:00") _ ⟨1709289000, 123900000⟩ _ rfl
        (by decide +kernel) rfl rfl
    refine ⟨info, hrequest, row, congrArg (fun s : Site => s.store.rows) hs, ?_⟩
    rw [hrow.scheduleTime]
    cases hu with
    | clock h => exact absurd h (by decide)
    | date h => rfl
  · obtain ⟨-, l, l', start, stop, -, hstart, hstop, -, hruns, -⟩ :=
      happend "0 0 0 1 1 ? 2024,2026" "2024-01-01T00:00:00Z" "2027-01-01T01:00:00+01:00"
        ⟨1704067200, 0⟩ ⟨1798761600, 0⟩ (by decide +kernel) (by decide +kernel)
    cases hstart with
    | clock h => exact absurd h (by decide)
    | date h =>
      cases hstop with
      | clock h => exact absurd h (by decide)
      | date h =>
        have hfires := (CronExpression.fireTimes_eq_ok_iff (by decide)).mp
          (show CronExpression.newYears.fireTimes ⟨1704067200, 0⟩ ⟨1798761600, 0⟩ 10 =
            .ok [⟨1704067200, 0⟩, ⟨1767225600, 0⟩] from rfl)
        obtain ⟨rows, hrows⟩ := hruns _ _ ⟨rfl, rfl, ⟨_, CronExpression.parse_newYears, by decide,
          hfires.1⟩, hfires.2⟩
        exact ⟨rows, hrows.times, congrArg Store.rows hrows.store⟩

/-- **Two kinds of times are not kept.** A run for the first millisecond of 1970 is stored for the time
at which the request is handled, and one within a leap second for the second after it. -/
theorem epoch_and_leapSecond_not_kept :
    (timeOf "1970-01-01T00:00:00Z" = .ok .epoch ∧
      ∃ info, ClientCommand.request (.execFlow 10 1 (wishFor "1970-01-01T00:00:00Z")) =
          .ok (.execFlow 10 1 0 info) ∧
        ((handle 10 (.execFlow 10 1 0 info)).course Site.answer (fun _ => atTen)
          Site.oneWorkflow).2.2.store.rows.map (·.scheduleTime) = [⟨1709287200, 0⟩]) ∧
    timeOf "2016-12-31T23:59:60.5Z" = .ok ⟨1483228799, 1500000000⟩ ∧
      ∃ info, ClientCommand.request (.execFlow 10 1 (wishFor "2016-12-31T23:59:60.5Z")) =
          .ok (.execFlow 10 1 1483228800500 info) ∧
        ((handle 10 (.execFlow 10 1 1483228800500 info)).course Site.answer (fun _ => atTen)
          Site.oneWorkflow).2.2.store.rows.map (·.scheduleTime) = [⟨1483228800, 500000000⟩] :=
  ⟨⟨rfl, _, rfl, rfl⟩, rfl, _, rfl, rfl⟩

end CommandLine

end WorkflowScheduler
