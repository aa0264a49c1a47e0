import WorkflowScheduler.Master.Registrar
import WorkflowScheduler.Proofs.Serving

/-!
# How a master registers

A master that registers asks for the master record, and inserts or renews it. Between these requests
other masters may make theirs, and an operator may clear the record. Without a clear the claim that
is stored stays, and every master is judged by it, however stale the record is that it has read.

## Main definitions

* `MasterRecord.SameClaim`: records that differ in their modify time at most
* `Registrar.Claims`: what a master asks while it registers
* `Registrar.Ended`: how it ends

## Main results

* `Registrar.Claims.master`: a record is renewed at its own address only
* `Registrar.register_keeps`: how a master ends that registers
-/

namespace WorkflowScheduler

/-! ## Claims -/

/-- **Records of the same claim**: they differ in their modify time at most. -/
def MasterRecord.SameClaim (r m : MasterRecord) : Prop :=
  r.host = m.host ∧ r.port = m.port ∧ r.createTime = m.createTime

namespace MasterRecord.SameClaim

variable {r m n : MasterRecord}

theorem refl (r : MasterRecord) : r.SameClaim r :=
  ⟨rfl, rfl, rfl⟩

theorem trans (h : r.SameClaim m) (k : m.SameClaim n) : r.SameClaim n :=
  ⟨h.1.trans k.1, h.2.1.trans k.2.1, h.2.2.trans k.2.2⟩

theorem symm (h : r.SameClaim m) : m.SameClaim r :=
  ⟨h.1.symm, h.2.1.symm, h.2.2.symm⟩

theorem isAt (h : r.SameClaim m) (host : String) (port : UInt16) :
    r.isAt host port = m.isAt host port := by
  unfold MasterRecord.isAt
  rw [h.1, h.2.1]

end MasterRecord.SameClaim

/-- A site that keeps the claim that is stored, if there is one. -/
def Site.KeepsClaim (s t : Site) : Prop :=
  ∀ m, s.store.master = some m → ∃ r, t.store.master = some r ∧ r.SameClaim m

namespace Site.KeepsClaim

variable {s t u : Site}

theorem refl (s : Site) : s.KeepsClaim s :=
  fun m hm => ⟨m, hm, .refl m⟩

theorem trans (h : s.KeepsClaim t) (k : t.KeepsClaim u) : s.KeepsClaim u := by
  intro m hm
  obtain ⟨r, hr, hrm⟩ := h m hm
  obtain ⟨n, hn, hnr⟩ := k r hr
  exact ⟨n, hn, hnr.trans hrm⟩

end Site.KeepsClaim

namespace Registrar

/-! ## What a master asks -/

variable {host : String} {port : UInt16} {h : History} {s t : Site} {o : Outside}

/-- What a master asks while it registers, in three requests at most. -/
def Claims (host : String) (port : UInt16) (h : History) (r : Request) : Prop :=
  h.length < 3 ∧ (r = .store .masterRecord ∨ r = .store (.insertMasterRecord host port) ∨
    r = .store (.touchMasterRecord host port))

/-- **A record stays as it is, or is renewed by a master at its own address.** -/
theorem Claims.master {r : Request} (hr : Claims host port h r) {m : MasterRecord}
    (hm : s.store.master = some m) :
    (s.answer o r).2.store.master = some m ∨
      m.isAt host port = true ∧
        (s.answer o r).2.store.master = some { m with modifyTime := o.now } := by
  obtain ⟨-, rfl | rfl | rfl⟩ := hr
  · exact .inl hm
  · simp [Site.answer, Store.answer, Store.insertMasterRecord, hm]
  · by_cases hat : m.isAt host port = true
    · refine .inr ⟨hat, ?_⟩
      simp [Site.answer, Store.answer, Store.touchMasterRecord, hm, hat]
    · left
      simp [Site.answer, Store.answer, Store.touchMasterRecord, hm, hat]

/-- The terms of a master that registers; if it is undisturbed, nobody clears the record. -/
def terms (host : String) (port : UInt16) (undisturbed : Prop) :
    Terms Request.Answer Site Outside where
  answer := Site.answer
  rely s t := undisturbed → s.KeepsClaim t
  may h r _ := Claims host port h r
  rely_trans hst htu hu := (hst hu).trans (htu hu)
  rely_self _ _ := .refl _

/-- The exchange by which a master has put its own address into the record, or has found it there. -/
def Confirms (host : String) (port : UInt16) (r : MasterRecord) (x : Exchange Request.Answer) :
    Prop :=
  x = ⟨.store (.insertMasterRecord host port), .ok (.inserted r)⟩ ∨
    x = ⟨.store (.touchMasterRecord host port), .ok r⟩

/-- What a claim to an address comes to, given the record: it is confirmed or refused. -/
def IsVerdict (host : String) (port : UInt16) (m : MasterRecord)
    (a : Except MasterError MasterRecord) : Prop :=
  ∃ r : MasterRecord, r.SameClaim m ∧
    a = if m.isAt host port then .ok r else .error (.masterConflict r)

theorem IsVerdict.isAt_of_ok {m r : MasterRecord} (h : IsVerdict host port m (.ok r)) :
    m.isAt host port = true := by
  obtain ⟨n, -, hn⟩ := h
  split at hn
  · assumption
  · cases hn

/-- **How a master ends that registers.** Its last request has confirmed a claim that succeeds; and
if it is undisturbed, the claim is judged by the record that is stored. -/
def Ended (host : String) (port : UInt16) (undisturbed : Prop) (h : History)
    (a : Option (Except MasterError MasterRecord)) (s : Site) : Prop :=
  ∃ answer, a = some answer ∧
    (∀ r, answer = .ok r → r.isAt host port = true ∧
      ∃ x, h.getLast? = some x ∧ Confirms host port r x) ∧
    (undisturbed → ∃ m, s.store.master = some m ∧ IsVerdict host port m answer)

/-- What an insertion comes to. -/
theorem insert_cases (o : Outside) (host : String) (port : UInt16) (s : Site) :
    (∃ r : MasterRecord, r.isAt host port = true ∧
      (s.answer o (.store (.insertMasterRecord host port))).1 = .ok (.inserted r) ∧
      (s.answer o (.store (.insertMasterRecord host port))).2.store.master = some r) ∨
    ∃ m : MasterRecord,
      (s.answer o (.store (.insertMasterRecord host port))).1 = .ok (.existing m) ∧
      (s.answer o (.store (.insertMasterRecord host port))).2.store.master = some m := by
  simp only [Site.answer, Store.answer, Store.insertMasterRecord]
  cases hm : s.store.master with
  | none => exact .inl ⟨⟨host, port, o.now, o.now⟩, by simp [MasterRecord.isAt], rfl, rfl⟩
  | some m => exact .inr ⟨m, rfl, hm⟩

/-- What a renewal comes to. -/
theorem touch_cases (o : Outside) (host : String) (port : UInt16) (s : Site) :
    (∃ r : MasterRecord, r.isAt host port = true ∧
      (s.answer o (.store (.touchMasterRecord host port))).1 = .ok r ∧
      (s.answer o (.store (.touchMasterRecord host port))).2.store.master = some r) ∨
    (∃ e, (s.answer o (.store (.touchMasterRecord host port))).1 = .error e) ∧
      ∀ m, s.store.master = some m → m.isAt host port = false := by
  simp only [Site.answer, Store.answer, Store.touchMasterRecord]
  cases hm : s.store.master with
  | none => exact .inr ⟨⟨_, rfl⟩, by simp⟩
  | some m =>
    by_cases hat : m.isAt host port = true
    · exact .inl ⟨{ m with modifyTime := o.now }, hat, by simp only [if_pos hat]; rfl,
        by simp only [if_pos hat]⟩
    · exact .inr ⟨⟨_, by simp only [if_neg hat]; rfl⟩, by simpa using hat⟩

/-- What confirms a claim is stored. -/
theorem Confirms.master {r : MasterRecord} {x : Exchange Request.Answer}
    (hx : Confirms host port r x) (h : s.answer o x.1 = (x.2, t)) : t.store.master = some r := by
  rcases hx with rfl | rfl
  · rcases insert_cases o host port s with ⟨m, -, hanswer, hmaster⟩ | ⟨m, hanswer, -⟩
    · rw [h] at hanswer hmaster
      cases hanswer
      exact hmaster
    · rw [h] at hanswer
      cases hanswer
  · rcases touch_cases o host port s with ⟨m, -, hanswer, hmaster⟩ | ⟨⟨e, hanswer⟩, -⟩
    · rw [h] at hanswer hmaster
      cases hanswer
      exact hmaster
    · rw [h] at hanswer
      cases hanswer

theorem judge_eq (m : MasterRecord) (host : String) (port : UInt16) :
    (judge m host port).run =
      if m.isAt host port then
        .ask (.store (.touchMasterRecord host port)) fun a => .done (Except.mapError .store a)
      else .done (.error (.masterConflict m)) := by
  unfold judge
  cases m.isAt host port with
  | true => exact Operation.store_run _
  | false => rfl

theorem register_eq (host : String) (port : UInt16) :
    (register host port).run = .ask (.store .masterRecord) fun
      | .ok (some m) => (judge m host port).run
      | .ok none => .ask (.store (.insertMasterRecord host port)) fun
        | .ok (.inserted r) => .done (.ok r)
        | .ok (.existing m) => (judge m host port).run
        | .error e => .done (.error (.store e))
      | .error e => .done (.error (.store e)) :=
  congrArg (Interaction.ask _) <| funext fun
    | .ok (some _) => rfl
    | .ok none => congrArg (Interaction.ask _) <| funext fun
      | .ok (.inserted _) => rfl
      | .ok (.existing _) => rfl
      | .error _ => rfl
    | .error _ => rfl

variable {undisturbed : Prop}

/-- **A claim is judged by a record** that is still stored, if nobody has cleared it. -/
theorem judge_keeps {m : MasterRecord} (hh : h.length < 3)
    (hm : undisturbed → ∃ r, s.store.master = some r ∧ r.SameClaim m) :
    (judge m host port).run.Keeps (terms host port undisturbed) (Ended host port undisturbed) h
      s := by
  rw [judge_eq]
  by_cases hat : m.isAt host port = true
  · rw [if_pos hat]
    refine fun t ht => ⟨⟨hh, .inr (.inr rfl)⟩, fun o u hu => ?_⟩
    rcases touch_cases o host port t with ⟨r, hr, hanswer, hmaster⟩ | ⟨⟨e, hanswer⟩, hnone⟩
    · refine ⟨.ok r, by rw [terms, hanswer]; rfl, ?_, fun hund => ?_⟩
      · rintro r ⟨⟩
        exact ⟨hr, _, List.getLast?_concat, .inr (by rw [terms, hanswer])⟩
      · obtain ⟨n, hn, hnr⟩ := hu hund r hmaster
        exact ⟨n, hn, r, hnr.symm, by rw [hnr.isAt, if_pos hr]⟩
    · refine ⟨.error (.store e), by rw [terms, hanswer]; rfl, fun r hr => absurd hr (by simp),
        fun hund => ?_⟩
      -- the record by which it is judged names its address and is still there
      obtain ⟨r, hr, hrm⟩ := hm hund
      obtain ⟨n, hn, hnr⟩ := ht hund r hr
      rw [(hnr.trans hrm).symm.isAt, hnone n hn] at hat
      simp at hat
  · rw [if_neg hat]
    refine fun t ht => ⟨_, rfl, fun r hr => absurd hr (by simp), fun hu => ?_⟩
    obtain ⟨r, hr, hrm⟩ := hm hu
    obtain ⟨n, hn, hnr⟩ := ht hu r hr
    refine ⟨n, hn, m, (hnr.trans hrm).symm, ?_⟩
    rw [(hnr.trans hrm).isAt, if_neg hat]

/-- **How a master registers.** -/
theorem register_keeps (host : String) (port : UInt16) (s : Site) :
    (register host port).run.Keeps (terms host port undisturbed) (Ended host port undisturbed) []
      s := by
  rw [register_eq]
  refine fun t ht => ⟨⟨by decide, .inl rfl⟩, fun o => ?_⟩
  change Interaction.Keeps _ _ (match (Except.ok t.store.master : Except StoreError _) with
    | .ok (some m) => (judge m host port).run
    | .ok none => _
    | .error e => _) _ _
  cases hm : t.store.master with
  | some m => exact judge_keeps (by simp) fun _ => ⟨m, hm, .refl m⟩
  | none =>
    refine fun u hu => ⟨⟨by simp, .inr (.inl rfl)⟩, fun o' => ?_⟩
    rcases insert_cases o' host port u with ⟨r, hr, hanswer, hmaster⟩ | ⟨m, hanswer, hmaster⟩
    · simp only [terms, hanswer]
      refine fun v hv => ⟨.ok r, rfl, ?_, fun hund => ?_⟩
      · rintro r ⟨⟩
        exact ⟨hr, _, List.getLast?_concat, .inl rfl⟩
      · obtain ⟨n, hn, hnr⟩ := hv hund r hmaster
        exact ⟨n, hn, r, hnr.symm, by rw [hnr.isAt, if_pos hr]⟩
    · simp only [terms, hanswer]
      exact judge_keeps (by simp) fun _ => ⟨m, hmaster, .refl m⟩

end Registrar

end WorkflowScheduler
