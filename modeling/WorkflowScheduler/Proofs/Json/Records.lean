import Mathlib.Data.List.Forall2
import Mathlib.Data.List.Nodup
import WorkflowScheduler.Json.Decoder
import WorkflowScheduler.Proofs.Json.Spelling

/-!
# Records in JSON

A record is written as an object. Its members may come in any order, and those that hold the default
of their field may be left out. What the description of a record says of its fields, taken one by
one, makes every such form be read as the record.

## Main definitions

* `Decoder.Reads`: a decoder reads whatever stands for a value as this value
* `Slot`, `IsForm`: what a record says of its fields, and the objects that say no more and no less
* `Fields.Reads`: a description reads every form of a record

## Main results

* `Fields.Reads.map`, `Fields.Reads.seq`: a description is put together field by field
* `Fields.Reads.record`: every form of a record is read as the record
-/

namespace WorkflowScheduler.Json

variable {α β : Type}

/-! ## Pairs of lists -/

section Pairs

variable {γ δ : Type} {R : γ → δ → Prop} {l : List γ} {l' : List δ}

theorem map_eq_of_forall₂ {f : γ → String} {g : δ → String} (h : List.Forall₂ R l l')
    (hR : ∀ c d, R c d → f c = g d) : l.map f = l'.map g := by
  rw [← List.forall₂_eq_eq_eq, List.forall₂_map_left_iff, List.forall₂_map_right_iff]
  exact h.imp hR

theorem exists_of_mem_left (h : List.Forall₂ R l l') {c : γ} (hc : c ∈ l) : ∃ d ∈ l', R c d := by
  induction h with
  | nil => exact absurd hc List.not_mem_nil
  | cons hR _ ih =>
    rcases List.mem_cons.mp hc with rfl | hc
    · exact ⟨_, List.mem_cons_self, hR⟩
    · obtain ⟨d, hd, hcd⟩ := ih hc
      exact ⟨d, List.mem_cons_of_mem _ hd, hcd⟩

theorem lookup_of_mem {ps : List (String × γ)} (h : (ps.map Prod.fst).Nodup) {p : String × γ}
    (hp : p ∈ ps) : ps.lookup p.1 = some p.2 := by
  induction ps with
  | nil => exact absurd hp List.not_mem_nil
  | cons x ps ih =>
    obtain ⟨hx, hps⟩ := List.nodup_cons.mp h
    rcases List.mem_cons.mp hp with rfl | hp
    · exact List.lookup_cons_self
    · have hne : (p.1 == x.1) = false := by
        refine beq_false_of_ne fun heq => hx ?_
        exact heq ▸ List.mem_map_of_mem hp
      rw [List.lookup_cons, hne]
      exact ih hps hp

end Pairs

/-! ## Decoders -/

/-- **Whatever stands for a value is read as this value**, and its numbers have 64 bits at most. -/
def Decoder.Reads (dec : Decoder α) (stands : Value → Prop) (a : α) : Prop :=
  ∀ v, stands v → v.Fits ∧ dec v.draft = .ok a

/-- An array of values that stand for the elements of a list. -/
def IsList (stands : α → Value → Prop) (as : List α) (v : Value) : Prop :=
  ∃ vs, v = .array vs ∧ List.Forall₂ stands as vs

/-- A value that stands for what may be missing, `null` if it is. -/
def IsOption (stands : α → Value → Prop) : Option α → Value → Prop
  | none, v => v = .null
  | some a, v => stands a v

theorem isList_map {stands : α → Value → Prop} {f : α → Value} {as : List α}
    (h : ∀ a ∈ as, stands a (f a)) : IsList stands as (.array (as.map f)) :=
  ⟨_, rfl, List.forall₂_map_right_iff.mpr (List.forall₂_same.mpr h)⟩

theorem isOption_option {stands : α → Value → Prop} {f : α → Value} (h : ∀ a, stands a (f a))
    (o : Option α) : IsOption stands o (.option f o) := by
  cases o with
  | none => rfl
  | some a => exact h a

namespace Decoder

theorem reads_int {lo hi n : Int} (hlo : lo ≤ n) (hhi : n ≤ hi)
    (hn : n.natAbs ≤ Text.maxUnsigned64) : (int lo hi).Reads (· = .int n) n := by
  rintro v rfl
  exact ⟨.int hn, if_pos ⟨hlo, hhi⟩⟩

theorem reads_text (s : String) : text.Reads (· = .text s) s := by
  rintro v rfl
  exact ⟨.text s, rfl⟩

theorem reads_named {names : List (String × α)} {name : String} {a : α}
    (h : names.lookup name = some a) : (named names).Reads (· = .text name) a := by
  rintro v rfl
  refine ⟨.text name, ?_⟩
  change lookUp names name = _
  rw [lookUp, h]

/-- An array is read if its elements are. -/
theorem reads_list {dec : Decoder α} {stands : α → Value → Prop} {as : List α}
    (h : ∀ a ∈ as, dec.Reads (stands a) a) : (list dec).Reads (IsList stands as) as := by
  rintro v ⟨vs, rfl, hvs⟩
  have hitems : (∀ v ∈ vs, v.Fits) ∧ items dec none (Value.draftItems vs) = .ok as := by
    induction hvs with
    | nil => exact ⟨by simp, rfl⟩
    | @cons a v as vs hv hvs ih =>
      obtain ⟨ha, has⟩ := List.forall_mem_cons.mp h
      obtain ⟨hfits, hread⟩ := ha v hv
      obtain ⟨hrest, hitems⟩ := ih has
      refine ⟨List.forall_mem_cons.mpr ⟨hfits, hrest⟩, ?_⟩
      simp only [Value.draftItems, items, hread, hitems]
      rfl
  exact ⟨.array hitems.1, hitems.2⟩

/-- What may be missing is read if `null` stands for nothing else. -/
theorem reads_nullable {dec : Decoder α} {stands : α → Value → Prop} {o : Option α}
    (hnull : ∀ a, dec .null ≠ .ok a) (h : ∀ a, o = some a → dec.Reads (stands a) a) :
    dec.nullable.Reads (IsOption stands o) o := by
  intro v hv
  cases o with
  | none =>
    cases hv
    exact ⟨.null, rfl⟩
  | some a =>
    obtain ⟨hfits, hread⟩ := h a rfl v hv
    refine ⟨hfits, ?_⟩
    unfold nullable
    split
    · next heq =>
      rw [heq] at hread
      exact absurd hread (hnull a)
    · rw [hread]
      rfl

end Decoder

/-! ## Forms of records -/

/-- **What a record says of one of its fields**: its name, which values stand for what it holds, and
whether it may be left out. -/
structure Slot where
  name : String
  Stands : Value → Prop
  MayOmit : Prop

/-- What is found for a field, or is not, says what its record says. -/
def Slot.IsMet (s : Slot) : Option Draft → Prop
  | some d => ∃ v, s.Stands v ∧ d = v.draft
  | none => s.MayOmit

/-- **A form of a record**: an object in which each member stands for a field, in any order and each
once, and in which only those are left out that may be. -/
def IsForm (slots : List Slot) (v : Value) : Prop :=
  ∃ ms, v = .object ms ∧ (ms.map Prod.fst).Nodup ∧
    (∀ m ∈ ms, ∃ s ∈ slots, s.name = m.1 ∧ s.Stands m.2) ∧
      ∀ s ∈ slots, s.name ∉ ms.map Prod.fst → s.MayOmit

/-- An object with all fields in order is a form. -/
theorem isForm_object {slots : List Slot} {ms : List (String × Value)}
    (hnodup : (slots.map Slot.name).Nodup)
    (h : List.Forall₂ (fun s m => s.name = m.1 ∧ s.Stands m.2) slots ms) :
    IsForm slots (.object ms) := by
  have hnames : slots.map Slot.name = ms.map Prod.fst := map_eq_of_forall₂ h fun _ _ hm => hm.1
  refine ⟨ms, rfl, hnames ▸ hnodup, fun m hm => ?_, fun s hs hnot => ?_⟩
  · exact exists_of_mem_left h.flip hm
  · rw [← hnames] at hnot
    exact absurd (List.mem_map_of_mem hs) hnot

/-- **The members of a form may change places**, and those may be left out that hold the default of
their field. -/
theorem IsForm.of_subperm {slots : List Slot} {ms ms' : List (String × Value)}
    (h : IsForm slots (.object ms)) (hsub : ms'.Subperm ms)
    (homit : ∀ s ∈ slots, s.name ∉ ms'.map Prod.fst → s.MayOmit) :
    IsForm slots (.object ms') := by
  obtain ⟨_, ⟨⟩, hnodup, hstands, -⟩ := h
  obtain ⟨ms₀, hperm, hsublist⟩ := hsub
  refine ⟨ms', rfl, ?_, fun m hm => ?_, homit⟩
  · exact (hperm.map Prod.fst).nodup_iff.mp (hnodup.sublist (hsublist.map Prod.fst))
  · exact hstands m (hsublist.subset (hperm.mem_iff.mpr hm))

/-- A rule that reads a field as its record says. -/
structure FieldRule.Follows (r : FieldRule) (s : Slot) : Prop where
  name : r.name = s.name
  mayOmit : s.MayOmit → r.objectMayOmit = true
  check : ∀ v, s.Stands v → v.Fits ∧ r.check v.draft = .ok ()

/-- **A description reads every form of a record as this record.** -/
structure Fields.Reads (fields : Fields α) (slots : List Slot) (a : α) : Prop where
  rules : List.Forall₂ FieldRule.Follows fields.rules slots
  build : ∀ found : Found, (∀ s ∈ slots, s.IsMet (found.lookup s.name)) →
    fields.build found = .ok a

namespace Fields

variable {dec : Decoder α} {stands : Value → Prop} {a : α}

/-- A description of one field. -/
theorem reads_single {fields : Fields α} {r : FieldRule} {s : Slot} (hrules : fields.rules = [r])
    (hr : r.Follows s)
    (hfound : ∀ found v, found.lookup s.name = some v.draft → s.Stands v →
      fields.build found = .ok a)
    (hmissing : ∀ found, found.lookup s.name = none → s.MayOmit → fields.build found = .ok a) :
    fields.Reads [s] a where
  rules := hrules ▸ .cons hr .nil
  build found hmet := by
    have hs := hmet s List.mem_cons_self
    cases hlookup : found.lookup s.name with
    | none =>
      rw [hlookup] at hs
      exact hmissing found hlookup hs
    | some d =>
      rw [hlookup] at hs
      obtain ⟨v, hv, rfl⟩ := hs
      exact hfound found v hlookup hv

theorem forget_ok {x : Except Problem α} (h : x = .ok a) : x.map (fun _ => ()) = .ok () := by
  rw [h]
  rfl

theorem reads_required (name : String) (h : dec.Reads stands a) :
    (required name dec).Reads [⟨name, stands, False⟩] a := by
  refine reads_single rfl ⟨rfl, False.elim, fun v hv => ?_⟩ (fun found v hlookup hv => ?_) nofun
  · obtain ⟨hfits, hread⟩ := h v hv
    exact ⟨hfits, forget_ok hread⟩
  · simp only [required, hlookup]
    exact (h v hv).2

theorem reads_withDefault (name : String) (h : dec.Reads stands a) (default : α) :
    (withDefault name dec default).Reads [⟨name, stands, a = default⟩] a := by
  refine reads_single rfl ⟨rfl, fun _ => rfl, fun v hv => ?_⟩ (fun found v hlookup hv => ?_)
    fun found hlookup hdefault => ?_
  · obtain ⟨hfits, hread⟩ := h v hv
    exact ⟨hfits, forget_ok hread⟩
  · simp only [withDefault, hlookup]
    exact (h v hv).2
  · simp only [withDefault, hlookup]
    rw [hdefault]

theorem reads_optional {o : Option α} (name : String) (h : dec.nullable.Reads stands o)
    (arrayMayOmit : Bool) :
    (optional name dec arrayMayOmit).Reads [⟨name, stands, o = none⟩] o := by
  refine reads_single rfl ⟨rfl, fun _ => rfl, fun v hv => ?_⟩ (fun found v hlookup hv => ?_)
    fun found hlookup hnone => ?_
  · obtain ⟨hfits, hread⟩ := h v hv
    exact ⟨hfits, forget_ok hread⟩
  · simp only [optional, hlookup]
    exact (h v hv).2
  · simp only [optional, hlookup]
    rw [hnone]

/-- **A record of one field more.** -/
theorem Reads.map {fields : Fields α} {slots : List Slot} (h : fields.Reads slots a) (g : α → β) :
    (g <$> fields).Reads slots (g a) where
  rules := h.rules
  build found hmet := by
    change (fields.build found).map g = _
    rw [h.build found hmet]
    rfl

theorem Reads.seq {f : Fields (α → β)} {fields : Fields α} {slots slots' : List Slot} {g : α → β}
    (hf : f.Reads slots g) (h : fields.Reads slots' a) :
    (f <*> fields).Reads (slots ++ slots') (g a) where
  rules := List.rel_append hf.rules h.rules
  build found hmet := by
    have hg := hf.build found fun s hs => hmet s (List.mem_append_left _ hs)
    have ha := h.build found fun s hs => hmet s (List.mem_append_right _ hs)
    change (do
      let g ← f.build found
      let a ← fields.build found
      .ok (g a)) = _
    rw [hg, ha]
    rfl

end Fields

/-! ## Reading forms -/

/-- What members say of fields. -/
def drafts (ms : List (String × Value)) : Found :=
  ms.map fun m => (m.1, m.2.draft)

theorem drafts_names (ms : List (String × Value)) :
    (drafts ms).map Prod.fst = ms.map Prod.fst := by
  simp [drafts, Function.comp_def]

/-- **Members are found for their fields**, if each is that of a field which reads it, and if no
field is missing that has to be there. -/
theorem ofMembers_drafts {rules : List FieldRule} {found : Found} {ms : List (String × Value)}
    (hnodup : ((drafts ms).reverse ++ found |>.map Prod.fst).Nodup)
    (hms : ∀ m ∈ ms, ∃ r, (rules.find? fun r => r.name == m.1) = some r ∧
      r.check m.2.draft = .ok ())
    (hrules : ∀ r ∈ rules, r.objectMayOmit = true ∨
      (((drafts ms).reverse ++ found).lookup r.name).isSome = true) :
    Fields.ofMembers rules none found (Value.draftMembers ms) =
      .ok ((drafts ms).reverse ++ found) := by
  -- on the members that are left, with what has been found before them
  induction ms generalizing found with
  | nil =>
    change (if rules.all fun r => r.objectMayOmit || (found.lookup r.name).isSome then
      (.ok found : Except Problem Found) else .error .unfit) = _
    rw [if_pos]
    · rfl
    · refine List.all_eq_true.mpr fun r hr => ?_
      rw [Bool.or_eq_true]
      exact hrules r hr
  | cons m ms ih =>
    obtain ⟨k, v⟩ := m
    have happend : (drafts ((k, v) :: ms)).reverse ++ found =
        (drafts ms).reverse ++ (k, v.draft) :: found := by
      simp [drafts]
    rw [happend] at hnodup hrules ⊢
    obtain ⟨⟨r, hr, hcheck⟩, hms⟩ := List.forall_mem_cons.mp hms
    -- no member before it has the same name
    have hnew : found.lookup k = none := by
      refine List.lookup_eq_none_iff.mpr fun x hx => ?_
      rw [List.map_append, List.map_cons] at hnodup
      have hk := (List.nodup_cons.mp (List.nodup_append.mp hnodup).2.1).1
      refine bne_iff_ne.mpr fun heq => hk ?_
      rw [show (k, v.draft).1 = x.1 from heq]
      exact List.mem_map_of_mem hx
    rw [← ih hnodup hms hrules]
    simp only [Value.draftMembers, Fields.ofMembers, hr, hnew, hcheck]
    rfl

namespace Fields.Reads

variable {fields : Fields α} {slots : List Slot} {a : α} {ms : List (String × Value)}

theorem rule_names (h : fields.Reads slots a) :
    fields.rules.map FieldRule.name = slots.map Slot.name :=
  map_eq_of_forall₂ h.rules fun _ _ hr => hr.name

/-- The rule of a field is found by its name. -/
theorem find?_rule (h : fields.Reads slots a) (hnodup : (slots.map Slot.name).Nodup) {s : Slot}
    (hs : s ∈ slots) : ∃ r, (fields.rules.find? fun r => r.name == s.name) = some r ∧
      r.Follows s := by
  obtain ⟨r, hr, hfollows⟩ := exists_of_mem_left h.rules.flip hs
  have hsome : (fields.rules.find? fun r => r.name == s.name).isSome = true :=
    List.find?_isSome.mpr ⟨r, hr, beq_iff_eq.mpr hfollows.name⟩
  obtain ⟨q, hq⟩ := Option.isSome_iff_exists.mp hsome
  have hname : q.name = s.name := by simpa using List.find?_some hq
  rw [← h.rule_names] at hnodup
  obtain rfl := List.inj_on_of_nodup_map hnodup (List.mem_of_find?_eq_some hq) hr
    (hname.trans hfollows.name.symm)
  exact ⟨q, hq, hfollows⟩

/-- **What is found among the members of a form** meets what the record says. -/
theorem isMet_drafts (hnodup : (slots.map Slot.name).Nodup) (hms : (ms.map Prod.fst).Nodup)
    (hstands : ∀ m ∈ ms, ∃ s ∈ slots, s.name = m.1 ∧ s.Stands m.2)
    (homit : ∀ s ∈ slots, s.name ∉ ms.map Prod.fst → s.MayOmit) {s : Slot} (hs : s ∈ slots) :
    s.IsMet ((drafts ms).reverse.lookup s.name) := by
  by_cases hmem : s.name ∈ ms.map Prod.fst
  · obtain ⟨m, hm, hname⟩ := List.mem_map.mp hmem
    obtain ⟨q, hq, hqname, hqm⟩ := hstands m hm
    obtain rfl := List.inj_on_of_nodup_map hnodup hq hs (hqname.trans hname)
    have hdraft : (m.1, m.2.draft) ∈ (drafts ms).reverse :=
      List.mem_reverse.mpr (List.mem_map_of_mem hm)
    have hlookup := lookup_of_mem (by rwa [List.map_reverse, List.nodup_reverse, drafts_names]) hdraft
    rw [← hname, hlookup]
    exact ⟨m.2, hqm, rfl⟩
  · have hlookup : (drafts ms).reverse.lookup s.name = none := by
      refine List.lookup_eq_none_iff.mpr fun x hx => bne_iff_ne.mpr fun heq => hmem ?_
      rw [heq, ← drafts_names]
      exact List.mem_map_of_mem (List.mem_reverse.mp hx)
    rw [hlookup]
    exact homit s hs hmem

/-- **Every form of a record is read as this record.** -/
theorem record (h : fields.Reads slots a) (hnodup : (fields.rules.map FieldRule.name).Nodup) :
    Decoder.Reads (record fields) (IsForm slots) a := by
  rw [h.rule_names] at hnodup
  rintro v ⟨ms, rfl, hms, hstands, homit⟩
  have hmet : ∀ s ∈ slots, s.IsMet ((drafts ms).reverse.lookup s.name) :=
    fun s hs => isMet_drafts hnodup hms hstands homit hs
  have hrule : ∀ m ∈ ms, ∃ r, (fields.rules.find? fun r => r.name == m.1) = some r ∧
      m.2.Fits ∧ r.check m.2.draft = .ok () := by
    intro m hm
    obtain ⟨s, hs, hname, hsm⟩ := hstands m hm
    obtain ⟨r, hr, hfollows⟩ := h.find?_rule hnodup hs
    rw [hname] at hr
    exact ⟨r, hr, hfollows.check m.2 hsm⟩
  have hnames : ((drafts ms).reverse.map Prod.fst).Nodup := by
    rw [List.map_reverse, List.nodup_reverse, drafts_names]
    exact hms
  have hfound : Fields.ofMembers fields.rules none [] (Value.draftMembers ms) =
      .ok (drafts ms).reverse := by
    have hofMembers := ofMembers_drafts (List.append_nil (drafts ms).reverse ▸ hnames)
      (fun m hm => (hrule m hm).imp fun r hr => ⟨hr.1, hr.2.2⟩) fun r hr => ?_
    · rw [hofMembers, List.append_nil]
    · obtain ⟨s, hs, hfollows⟩ := exists_of_mem_left h.rules hr
      have hs := hmet s hs
      rw [List.append_nil, hfollows.name]
      cases hlookup : (drafts ms).reverse.lookup s.name with
      | none =>
        rw [hlookup] at hs
        exact .inl (hfollows.mayOmit hs)
      | some d => exact .inr rfl
  refine ⟨.object fun m hm => (hrule m hm).choose_spec.2.1, ?_⟩
  change (do fields.build (← Fields.ofMembers fields.rules none [] (Value.draftMembers ms))) = _
  rw [hfound]
  exact h.build _ hmet

end Fields.Reads

/-! ## Reading texts -/

namespace Decoder.Reads

variable {dec : Decoder α} {stands : Value → Prop} {a : α} {v : Value}

/-- **Every text that spells a value is read** as what the value stands for. -/
theorem decodeText (h : dec.Reads stands a) (hv : stands v) {text : String}
    (htext : v.IsSpelled text) : Json.decodeText dec text = .ok a := by
  unfold Json.decodeText
  rw [Draft.ofText_of_isSpelled htext]
  simp only [(h v hv).2]

/-- In particular, both texts that are written for it. -/
theorem decodeText_written (h : dec.Reads stands a) (hv : stands v) :
    Json.decodeText dec v.compact = .ok a ∧ Json.decodeText dec v.pretty = .ok a := by
  obtain ⟨hcompact, hpretty⟩ := (h v hv).1.isSpelled
  exact ⟨h.decodeText hv hcompact, h.decodeText hv hpretty⟩

end Decoder.Reads

end WorkflowScheduler.Json
