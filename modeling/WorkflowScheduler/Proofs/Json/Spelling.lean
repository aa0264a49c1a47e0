import Mathlib.Data.List.DropRight
import WorkflowScheduler.Proofs.Json.Scalars

/-!
# How JSON values are spelled

A value may be spelled with blanks between its parts. Whatever blanks there are, the reader comes to
the draft of the value and to the text behind it, and it never runs out of depth: it descends at most
twice for each character that it reads. Both ways in which values are written are spellings.

## Main definitions

* `Value.draft`: what is read of a value
* `Spells`, `SpellsItems`, `SpellsMembers`: the spellings of a value
* `Value.IsSpelled`: the texts that spell a value
* `Value.Fits`: a value whose numbers have 64 bits at most

## Main results

* `readsWithin`: spellings are read back within a depth
* `Draft.ofText_of_isSpelled`: a whole text that spells a value has the draft of the value
* `Value.Fits.isSpelled`: values are written in one of their spellings
-/

namespace WorkflowScheduler.Json

/-! ## Drafts of values -/

namespace Value

mutual

/-- **The draft of a value**, of which everything has been read. -/
def draft : Value → Draft
  | .null => .null
  | .bool b => .bool b
  | .int n => .int n
  | .text s => .text s
  | .array items => .array (draftItems items) none
  | .object members => .object (draftMembers members) none

/-- The drafts of elements. -/
def draftItems : List Value → List Draft
  | [] => []
  | v :: vs => draft v :: draftItems vs

/-- The drafts of members. -/
def draftMembers : List (String × Value) → List (Draft × Draft)
  | [] => []
  | (k, v) :: ms => (.text k, draft v) :: draftMembers ms

end

end Value

/-! ## Spellings -/

/-- A text of blanks. -/
def IsSpaces (cs : List Char) : Prop :=
  ∀ c ∈ cs, isSpace c = true

mutual

/-- **A spelling of a value**, without blanks around it. -/
inductive Spells : Value → List Char → Prop
  | null : Spells .null ['n', 'u', 'l', 'l']
  | boolTrue : Spells (.bool true) ['t', 'r', 'u', 'e']
  | boolFalse : Spells (.bool false) ['f', 'a', 'l', 's', 'e']
  | int {n : Int} (h : n.natAbs ≤ Text.maxUnsigned64) : Spells (.int n) (toString n).toList
  | text (s : String) : Spells (.text s) (quoted s).toList
  | noItems {ws : List Char} (hws : IsSpaces ws) : Spells (.array []) ('[' :: (ws ++ [']']))
  | items {vs : List Value} {cs : List Char} (h : SpellsItems vs cs) :
      Spells (.array vs) ('[' :: cs)
  | noMembers {ws : List Char} (hws : IsSpaces ws) :
      Spells (.object []) ('\x7b' :: (ws ++ ['\x7d']))
  | members {ms : List (String × Value)} {cs : List Char} (h : SpellsMembers ms cs) :
      Spells (.object ms) ('\x7b' :: cs)

/-- Elements of an array from one of them on, with the closing bracket. -/
inductive SpellsItems : List Value → List Char → Prop
  | last {v : Value} {ws cs us : List Char} (hws : IsSpaces ws) (h : Spells v cs)
      (hus : IsSpaces us) : SpellsItems [v] (ws ++ (cs ++ (us ++ [']'])))
  | more {v : Value} {vs : List Value} {ws cs us ds : List Char} (hws : IsSpaces ws)
      (h : Spells v cs) (hus : IsSpaces us) (hs : SpellsItems vs ds) :
      SpellsItems (v :: vs) (ws ++ (cs ++ (us ++ ',' :: ds)))

/-- Members of an object from one of them on, with the closing brace. -/
inductive SpellsMembers : List (String × Value) → List Char → Prop
  | last {k : String} {v : Value} {ws cs us : List Char} (hws : IsSpaces ws)
      (h : SpellsMember v cs) (hus : IsSpaces us) :
      SpellsMembers [(k, v)] (ws ++ ((quoted k).toList ++ (cs ++ (us ++ ['\x7d']))))
  | more {k : String} {v : Value} {ms : List (String × Value)} {ws cs us ds : List Char}
      (hws : IsSpaces ws) (h : SpellsMember v cs) (hus : IsSpaces us)
      (hs : SpellsMembers ms ds) :
      SpellsMembers ((k, v) :: ms) (ws ++ ((quoted k).toList ++ (cs ++ (us ++ ',' :: ds))))

/-- The value of a member, with the colon in front. -/
inductive SpellsMember : Value → List Char → Prop
  | mk {v : Value} {ws us cs : List Char} (hws : IsSpaces ws) (hus : IsSpaces us)
      (h : Spells v cs) : SpellsMember v (ws ++ ':' :: (us ++ cs))

end

/-! ## Reading the parts -/

variable {v : Value} {ws cs rest : List Char} {c : Char}

theorem skipSpace_of_visible (hc : isSpace c = false) : skipSpace (c :: cs) = c :: cs :=
  List.dropWhile_cons_of_neg (by simp [hc])

theorem skipSpace_append (hws : IsSpaces ws) (cs : List Char) :
    skipSpace (ws ++ cs) = skipSpace cs :=
  List.dropWhile_append_of_pos hws

/-- Blanks in front of a value are passed over. -/
theorem readValue_spaces (hws : IsSpaces ws) (fuel : Nat) (cs : List Char) :
    readValue fuel (ws ++ cs) = readValue fuel cs := by
  cases fuel with
  | zero => rfl
  | succ fuel =>
    unfold readValue
    rw [skipSpace_append hws]

theorem isSpace_of_isDigit (hc : Text.isDigit c = true) : isSpace c = false := by
  by_contra hspace
  simp only [isSpace, Bool.not_eq_false, Bool.or_eq_true, decide_eq_true_eq] at hspace
  rcases hspace with ((rfl | rfl) | rfl) | rfl <;> simp [Text.isDigit] at hc

/-- A digit begins a number. -/
theorem readValue_digit (hc : Text.isDigit c = true) (fuel : Nat) (cs : List Char) :
    readValue (fuel + 1) (c :: cs) = readNumber false (c :: cs) := by
  unfold readValue
  rw [skipSpace_of_visible (isSpace_of_isDigit hc)]
  -- no other value begins with a digit
  split
  · next heq => cases heq
  all_goals
    next heq =>
      cases heq
      first
        | exact absurd hc (by decide)
        | exact if_pos hc

theorem toList_ofNat (m : Nat) : (toString (Int.ofNat m)).toList = Text.digits m :=
  Nat.toList_repr

theorem toList_negSucc (m : Nat) :
    (toString (Int.negSucc m)).toList = '-' :: Text.digits (m + 1) := by
  change ("-" ++ Nat.repr (m + 1)).toList = _
  rw [String.toList_append, Nat.toList_repr]
  rfl

/-- A number without a sign begins with a digit. -/
theorem exists_digits_eq_cons (m : Nat) :
    ∃ c ds, Text.digits m = c :: ds ∧ Text.isDigit c = true := by
  obtain ⟨c, ds, hds⟩ : ∃ c ds, Text.digits m = c :: ds :=
    List.exists_cons_of_ne_nil Nat.toDigits_ne_nil
  exact ⟨c, ds, hds, Text.isDigit_of_mem_digits (hds ▸ List.mem_cons_self)⟩

/-- **A whole number is read back.** -/
theorem readValue_int {n : Int} (h : n.natAbs ≤ Text.maxUnsigned64) (fuel : Nat)
    (hrest : Stops rest) :
    readValue (fuel + 1) ((toString n).toList ++ rest) = (.int n, some rest) := by
  cases n with
  | ofNat m =>
    obtain ⟨c, ds, hds, hc⟩ := exists_digits_eq_cons m
    rw [toList_ofNat, hds, List.cons_append, readValue_digit hc, ← List.cons_append, ← hds]
    exact readNumber_digits (n := m) h false nofun hrest
  | negSucc m =>
    rw [toList_negSucc]
    exact readNumber_digits (n := m + 1) h true (fun _ => Nat.succ_ne_zero m) hrest

theorem toList_quoted (s : String) :
    (quoted s).toList = '"' :: (s.toList.flatMap escape ++ ['"']) := by
  simp [quoted, String.toList_append]

theorem readValue_quoted (s : String) (fuel : Nat) (rest : List Char) :
    readValue (fuel + 1) ((quoted s).toList ++ rest) = (.text s, some rest) := by
  rw [toList_quoted, List.cons_append, List.append_assoc]
  exact readText_quoted s rest

/-! ## Reading what is nested -/

theorem skipSpace_skipSpace (cs : List Char) : skipSpace (skipSpace cs) = skipSpace cs := by
  exact List.dropWhile_idempotent isSpace cs

theorem readValue_skipSpace (fuel : Nat) (cs : List Char) :
    readValue fuel (skipSpace cs) = readValue fuel cs := by
  cases fuel with
  | zero => rfl
  | succ fuel =>
    unfold readValue
    rw [skipSpace_skipSpace]

theorem readItems_skipSpace (fuel : Nat) (cs : List Char) :
    readItems fuel (skipSpace cs) = readItems fuel cs := by
  cases fuel with
  | zero => rfl
  | succ fuel =>
    unfold readItems
    rw [readValue_skipSpace]

theorem readMembers_skipSpace (fuel : Nat) (cs : List Char) :
    readMembers fuel (skipSpace cs) = readMembers fuel cs := by
  cases fuel with
  | zero => rfl
  | succ fuel =>
    unfold readMembers
    rw [readValue_skipSpace]

/-- An array that is not empty. -/
theorem readValue_array {ds : List Char} (h : skipSpace cs = c :: ds) (hc : c ≠ ']') (fuel : Nat) :
    readValue (fuel + 1) ('[' :: cs) =
      (.array (readItems fuel cs).1 (readItems fuel cs).2.1, (readItems fuel cs).2.2) := by
  have hitems := readItems_skipSpace fuel cs
  unfold readValue
  rw [skipSpace_of_visible (by decide)]
  simp only
  split
  · next heq =>
    rw [h] at heq
    cases heq
  · next heq =>
    rw [h] at heq
    cases heq
    exact absurd rfl hc
  · rw [hitems]

/-- An object that is not empty. -/
theorem readValue_object {ds : List Char} (h : skipSpace cs = c :: ds) (hc : c ≠ '\x7d')
    (fuel : Nat) : readValue (fuel + 1) ('\x7b' :: cs) =
      (.object (readMembers fuel cs).1 (readMembers fuel cs).2.1, (readMembers fuel cs).2.2) := by
  have hmembers := readMembers_skipSpace fuel cs
  unfold readValue
  rw [skipSpace_of_visible (by decide)]
  simp only
  split
  · next heq =>
    rw [h] at heq
    cases heq
  · next heq =>
    rw [h] at heq
    cases heq
    exact absurd rfl hc
  · rw [hmembers]

/-- A spelling begins with a character that is neither a blank nor a closing bracket. -/
theorem Spells.head (h : Spells v cs) : ∃ c ds, cs = c :: ds ∧ isSpace c = false ∧ c ≠ ']' := by
  cases h with
  | null => exact ⟨_, _, rfl, rfl, by decide⟩
  | boolTrue => exact ⟨_, _, rfl, rfl, by decide⟩
  | boolFalse => exact ⟨_, _, rfl, rfl, by decide⟩
  | text s => exact ⟨_, _, toList_quoted s, rfl, by decide⟩
  | noItems hws => exact ⟨_, _, rfl, rfl, by decide⟩
  | items h => exact ⟨_, _, rfl, rfl, by decide⟩
  | noMembers hws => exact ⟨_, _, rfl, rfl, by decide⟩
  | members h => exact ⟨_, _, rfl, rfl, by decide⟩
  | @int n h =>
    cases n with
    | ofNat m =>
      obtain ⟨c, ds, hds, hc⟩ := exists_digits_eq_cons m
      rw [toList_ofNat, hds]
      refine ⟨c, ds, rfl, isSpace_of_isDigit hc, ?_⟩
      rintro rfl
      exact absurd hc (by decide)
    | negSucc m => exact ⟨_, _, toList_negSucc m, rfl, by decide⟩

theorem Spells.length_pos (h : Spells v cs) : 0 < cs.length := by
  obtain ⟨c, ds, rfl, -⟩ := h.head
  exact Nat.succ_pos _

/-- Blanks do not go on with a number. -/
theorem stops_of_isSpaces {us : List Char} (hus : IsSpaces us) : Stops us := by
  intro c hc
  have hspace := hus c (List.mem_of_mem_head? hc)
  simp only [isSpace, Bool.or_eq_true, decide_eq_true_eq] at hspace
  rcases hspace with ((rfl | rfl) | rfl) | rfl <;> decide

/-- Neither does a mark, with blanks in front or without. -/
theorem stops_append {us : List Char} (hus : IsSpaces us) (hc : c ∈ [',', ':', ']', '\x7d'])
    (ds : List Char) : Stops (us ++ c :: ds) := by
  cases us with
  | nil =>
    rintro d ⟨⟩
    simp only [List.mem_cons, List.not_mem_nil, or_false] at hc
    rcases hc with rfl | rfl | rfl | rfl <;> decide
  | cons u us => exact fun d hd => stops_of_isSpaces hus d hd

/-- **Spellings are read back within a depth**: of a value, of elements, of members, and of the value
of a member. -/
structure ReadsWithin (fuel : Nat) : Prop where
  value {v : Value} {cs rest : List Char} : Spells v cs → 2 * cs.length ≤ fuel → Stops rest →
    readValue fuel (cs ++ rest) = (v.draft, some rest)
  items {vs : List Value} {cs : List Char} (rest : List Char) : SpellsItems vs cs →
    2 * cs.length ≤ fuel → readItems fuel (cs ++ rest) = (Value.draftItems vs, none, some rest)
  members {ms : List (String × Value)} {cs : List Char} (rest : List Char) :
    SpellsMembers ms cs → 2 * cs.length ≤ fuel →
      readMembers fuel (cs ++ rest) = (Value.draftMembers ms, none, some rest)
  member {v : Value} {cs rest : List Char} : SpellsMember v cs → 2 * cs.length ≤ fuel →
    Stops rest → readMember fuel (cs ++ rest) = (v.draft, some rest)

variable {fuel : Nat}

/-- Without any depth nothing is read, but there is no spelling without any character either. -/
theorem readsWithin_zero : ReadsWithin 0 where
  value h hfuel _ := by
    have := h.length_pos
    omega
  items rest h hfuel := by
    cases h <;> simp at hfuel
  members rest h hfuel := by
    cases h <;> simp at hfuel
  member h hfuel _ := by
    cases h
    simp at hfuel

/-- Elements begin with a character that does not close the array. -/
theorem SpellsItems.head {vs : List Value} (h : SpellsItems vs cs) (rest : List Char) :
    ∃ c ds, skipSpace (cs ++ rest) = c :: ds ∧ c ≠ ']' := by
  have hhead : ∃ v ws us ds, IsSpaces ws ∧ Spells v us ∧ cs = ws ++ (us ++ ds) := by
    cases h with
    | last hws h hus => exact ⟨_, _, _, _, hws, h, rfl⟩
    | more hws h hus hs => exact ⟨_, _, _, _, hws, h, rfl⟩
  obtain ⟨v, ws, us, ds, hws, hv, rfl⟩ := hhead
  obtain ⟨c, us, rfl, hspace, hc⟩ := hv.head
  rw [List.append_assoc, skipSpace_append hws, List.append_assoc, List.cons_append,
    skipSpace_of_visible hspace]
  exact ⟨c, _, rfl, hc⟩

/-- Members begin with a quote. -/
theorem SpellsMembers.head {ms : List (String × Value)} (h : SpellsMembers ms cs)
    (rest : List Char) : ∃ ds, skipSpace (cs ++ rest) = '"' :: ds := by
  have hhead : ∃ k ws ds, IsSpaces ws ∧ cs = ws ++ ((quoted k).toList ++ ds) := by
    cases h with
    | last hws h hus => exact ⟨_, _, _, hws, rfl⟩
    | more hws h hus hs => exact ⟨_, _, _, hws, rfl⟩
  obtain ⟨k, ws, ds, hws, rfl⟩ := hhead
  rw [List.append_assoc, skipSpace_append hws, List.append_assoc, toList_quoted, List.cons_append,
    skipSpace_of_visible (by decide)]
  exact ⟨_, rfl⟩

namespace ReadsWithin

theorem value_succ (ih : ReadsWithin fuel) (h : Spells v cs) (hfuel : 2 * cs.length ≤ fuel + 1)
    (hrest : Stops rest) : readValue (fuel + 1) (cs ++ rest) = (v.draft, some rest) := by
  cases h with
  | null => rfl
  | boolTrue => rfl
  | boolFalse => rfl
  | int h => exact readValue_int h fuel hrest
  | text s => exact readValue_quoted s fuel rest
  | noItems hws =>
    rw [List.cons_append, List.append_assoc]
    unfold readValue
    rw [skipSpace_of_visible (by decide)]
    simp only [skipSpace_append hws]
    rfl
  | noMembers hws =>
    rw [List.cons_append, List.append_assoc]
    unfold readValue
    rw [skipSpace_of_visible (by decide)]
    simp only [skipSpace_append hws]
    rfl
  | @items vs cs h =>
    obtain ⟨c, ds, hhead, hc⟩ := h.head rest
    rw [List.length_cons] at hfuel
    rw [List.cons_append, readValue_array hhead hc, ih.items rest h (by omega)]
    rfl
  | @members ms cs h =>
    obtain ⟨ds, hhead⟩ := h.head rest
    rw [List.length_cons] at hfuel
    rw [List.cons_append, readValue_object hhead (by decide), ih.members rest h (by omega)]
    rfl

theorem items_succ (ih : ReadsWithin fuel) {vs : List Value} (rest : List Char)
    (h : SpellsItems vs cs) (hfuel : 2 * cs.length ≤ fuel + 1) :
    readItems (fuel + 1) (cs ++ rest) = (Value.draftItems vs, none, some rest) := by
  cases h with
  | @last v ws cs us hws h hus =>
    simp only [List.length_append, List.length_cons, List.length_nil] at hfuel
    -- the bracket ends the last element at the latest
    have hvalue : readValue fuel (ws ++ (cs ++ (us ++ ']' :: rest))) =
        (v.draft, some (us ++ ']' :: rest)) := by
      rw [readValue_spaces hws]
      exact ih.value h (by omega) (stops_append hus (by simp) rest)
    simp only [List.append_assoc, List.cons_append, List.nil_append]
    simp only [readItems, hvalue, skipSpace_append hus]
    rfl
  | @more v vs ws cs us ds hws h hus hs =>
    simp only [List.length_append, List.length_cons] at hfuel
    -- and the comma ends every other one
    have hvalue : readValue fuel (ws ++ (cs ++ (us ++ ',' :: (ds ++ rest)))) =
        (v.draft, some (us ++ ',' :: (ds ++ rest))) := by
      rw [readValue_spaces hws]
      exact ih.value h (by omega) (stops_append hus (by simp) _)
    simp only [List.append_assoc, List.cons_append]
    simp only [readItems, hvalue, skipSpace_append hus]
    rw [skipSpace_of_visible (by decide)]
    simp only [ih.items rest hs (by omega)]
    rfl

theorem member_succ (ih : ReadsWithin fuel) (h : SpellsMember v cs)
    (hfuel : 2 * cs.length ≤ fuel + 1) (hrest : Stops rest) :
    readMember (fuel + 1) (cs ++ rest) = (v.draft, some rest) := by
  cases h with
  | @mk v ws us cs hws hus h =>
    simp only [List.length_append, List.length_cons] at hfuel
    simp only [List.append_assoc, List.cons_append]
    simp only [readMember, skipSpace_append hws]
    rw [skipSpace_of_visible (by decide)]
    simp only
    rw [readValue_spaces hus]
    exact ih.value h (by omega) hrest

theorem members_succ (ih : ReadsWithin fuel) {ms : List (String × Value)} (rest : List Char)
    (h : SpellsMembers ms cs) (hfuel : 2 * cs.length ≤ fuel + 1) :
    readMembers (fuel + 1) (cs ++ rest) = (Value.draftMembers ms, none, some rest) := by
  -- the name, and the colon and the value, are read in the same way before either end
  have hmember : ∀ {k : String} {v : Value} {ws cs : List Char} {ds : List Char}, IsSpaces ws →
      SpellsMember v cs → 2 * (quoted k).toList.length ≤ fuel → 2 * cs.length ≤ fuel → Stops ds →
      readValue fuel (ws ++ ((quoted k).toList ++ (cs ++ ds))) = (.text k, some (cs ++ ds)) ∧
        readMember fuel (cs ++ ds) = (v.draft, some ds) := by
    intro k v ws cs ds hws h hk hcs hds
    refine ⟨?_, ih.member h hcs hds⟩
    rw [readValue_spaces hws]
    refine ih.value (.text k) hk ?_
    cases h with
    | mk hws hus h =>
      rw [List.append_assoc]
      exact stops_append hws (by simp) _
  cases h with
  | @last k v ws cs us hws h hus =>
    simp only [List.length_append, List.length_cons, List.length_nil] at hfuel
    obtain ⟨hname, hvalue⟩ := hmember hws h (k := k) (by omega) (by omega)
      (stops_append hus (c := '\x7d') (by simp) rest)
    simp only [List.append_assoc, List.cons_append, List.nil_append]
    simp only [readMembers, hname, Draft.isString, if_true, hvalue, skipSpace_append hus]
    rfl
  | @more k v ms ws cs us ds hws h hus hs =>
    simp only [List.length_append, List.length_cons] at hfuel
    obtain ⟨hname, hvalue⟩ := hmember hws h (k := k) (by omega) (by omega)
      (stops_append hus (c := ',') (by simp) (ds ++ rest))
    simp only [List.append_assoc, List.cons_append]
    simp only [readMembers, hname, Draft.isString, if_true, hvalue, skipSpace_append hus]
    rw [skipSpace_of_visible (by decide)]
    simp only [ih.members rest hs (by omega)]
    rfl

end ReadsWithin

/-- **Every spelling is read back** within twice as many steps as it has characters. -/
theorem readsWithin (fuel : Nat) : ReadsWithin fuel := by
  induction fuel with
  | zero => exact readsWithin_zero
  | succ fuel ih =>
    constructor
    · exact ih.value_succ
    · exact fun rest => ih.items_succ rest
    · exact fun rest => ih.members_succ rest
    · exact ih.member_succ

/-- **A text that spells a value**, with blanks around it. -/
def Value.IsSpelled (v : Value) (s : String) : Prop :=
  ∃ ws cs us, IsSpaces ws ∧ Spells v cs ∧ IsSpaces us ∧ s.toList = ws ++ (cs ++ us)

theorem skipSpace_eq_nil {us : List Char} (hus : IsSpaces us) : skipSpace us = [] :=
  List.dropWhile_eq_nil_iff.mpr hus

/-- **The draft of a text that spells a value** is that of the value. -/
theorem Draft.ofText_of_isSpelled {s : String} (h : v.IsSpelled s) :
    Draft.ofText s = (v.draft, none) := by
  obtain ⟨ws, cs, us, hws, hv, hus, hs⟩ := h
  have hread := (readsWithin (2 * s.toList.length + 2)).value hv (by
    rw [hs]
    simp only [List.length_append]
    omega) (stops_of_isSpaces hus)
  rw [← readValue_spaces hws, ← hs] at hread
  unfold Draft.ofText
  simp only [hread, skipSpace_eq_nil hus]
  rfl

/-! ## How values are written -/

/-- **A value whose numbers have 64 bits at most.** -/
inductive Value.Fits : Value → Prop
  | null : Fits .null
  | bool (b : Bool) : Fits (.bool b)
  | int {n : Int} (h : n.natAbs ≤ Text.maxUnsigned64) : Fits (.int n)
  | text (s : String) : Fits (.text s)
  | array {vs : List Value} (h : ∀ v ∈ vs, Fits v) : Fits (.array vs)
  | object {ms : List (String × Value)} (h : ∀ m ∈ ms, Fits m.2) : Fits (.object ms)

theorem isSpaces_nil : IsSpaces [] :=
  fun _ h => absurd h List.not_mem_nil

theorem isSpaces_newLine (depth : Nat) : IsSpaces (Value.newLine depth).toList := by
  intro c hc
  simp only [Value.newLine, String.toList_append, String.toList_ofList, List.mem_append,
    List.mem_replicate] at hc
  rcases hc with hc | ⟨-, rfl⟩
  · obtain rfl : c = '\n' := by simpa using hc
    rfl
  · rfl

/-- Elements with a comma and the same blanks between them. -/
theorem spellsItems_separated {f : Value → String} {us : List Char} (hws : IsSpaces ws)
    (hus : IsSpaces us) {vs : List Value} (hne : vs ≠ [])
    (h : ∀ v ∈ vs, Spells v (f v).toList) :
    SpellsItems vs (ws ++ ((separated (String.ofList (',' :: ws)) (vs.map f)).toList ++
      (us ++ [']']))) := by
  induction vs with
  | nil => exact absurd rfl hne
  | cons v vs ih =>
    obtain ⟨hv, hvs⟩ := List.forall_mem_cons.mp h
    cases vs with
    | nil => exact .last hws hv hus
    | cons w vs =>
      have hmore := SpellsItems.more hws hv isSpaces_nil (ih (by simp) hvs)
      simpa [separated, String.toList_append] using hmore

/-- Members with a comma and the same blanks between them, and a colon and others within. -/
theorem spellsMembers_separated {f : Value → String} {us gap : List Char} (hws : IsSpaces ws)
    (hus : IsSpaces us) (hgap : IsSpaces gap) {ms : List (String × Value)} (hne : ms ≠ [])
    (h : ∀ m ∈ ms, Spells m.2 (f m.2).toList) :
    SpellsMembers ms (ws ++ ((separated (String.ofList (',' :: ws))
      (ms.map fun m => quoted m.1 ++ String.ofList (':' :: gap) ++ f m.2)).toList ++
        (us ++ ['\x7d']))) := by
  induction ms with
  | nil => exact absurd rfl hne
  | cons m ms ih =>
    obtain ⟨k, v⟩ := m
    obtain ⟨hv, hms⟩ := List.forall_mem_cons.mp h
    have hmember : SpellsMember v (':' :: (gap ++ (f v).toList)) :=
      .mk isSpaces_nil hgap hv
    cases ms with
    | nil =>
      have hlast := SpellsMembers.last (k := k) hws hmember hus
      simpa [separated, String.toList_append] using hlast
    | cons m ms =>
      have hmore := SpellsMembers.more (k := k) hws hmember isSpaces_nil (ih (by simp) hms)
      simpa [separated, String.toList_append] using hmore

namespace Value

theorem compactItems_eq_map (vs : List Value) : compactItems vs = vs.map compact := by
  induction vs with
  | nil => rfl
  | cons v vs ih => rw [compactItems, ih, List.map_cons]

theorem compactMembers_eq_map (ms : List (String × Value)) :
    compactMembers ms = ms.map fun m => quoted m.1 ++ ":" ++ compact m.2 := by
  induction ms with
  | nil => rfl
  | cons m ms ih => rw [compactMembers, ih, List.map_cons]

theorem prettyItems_eq_map (depth : Nat) (vs : List Value) :
    prettyItems depth vs = vs.map (prettyAt depth) := by
  induction vs with
  | nil => rfl
  | cons v vs ih => rw [prettyItems, ih, List.map_cons]

theorem prettyMembers_eq_map (depth : Nat) (ms : List (String × Value)) :
    prettyMembers depth ms = ms.map fun m => quoted m.1 ++ ": " ++ prettyAt depth m.2 := by
  induction ms with
  | nil => rfl
  | cons m ms ih => rw [prettyMembers, ih, List.map_cons]

/-- **A value without blanks** is spelled. -/
theorem Fits.spells_compact {v : Value} (h : v.Fits) : Spells v v.compact.toList := by
  induction h with
  | null => exact .null
  | bool b =>
    cases b with
    | true => exact .boolTrue
    | false => exact .boolFalse
  | int h => exact .int h
  | text s => exact .text s
  | @array vs h ih =>
    cases vs with
    | nil => exact .noItems isSpaces_nil
    | cons v vs =>
      have hitems := spellsItems_separated isSpaces_nil isSpaces_nil (by simp) ih
      rw [compact, compactItems_eq_map]
      simpa [String.toList_append] using Spells.items hitems
  | @object ms h ih =>
    cases ms with
    | nil => exact .noMembers isSpaces_nil
    | cons m ms =>
      have hmembers := spellsMembers_separated isSpaces_nil isSpaces_nil isSpaces_nil (by simp) ih
      rw [compact, compactMembers_eq_map]
      simpa [String.toList_append] using Spells.members hmembers

/-- **A value over several lines** is spelled. -/
theorem Fits.spells_prettyAt {v : Value} (h : v.Fits) (depth : Nat) :
    Spells v (v.prettyAt depth).toList := by
  -- at all depths, since what is nested stands one level deeper
  induction h generalizing depth with
  | null =>
    rw [prettyAt]
    exact .null
  | bool b =>
    cases b with
    | true =>
      rw [prettyAt]
      exact .boolTrue
    | false =>
      rw [prettyAt]
      exact .boolFalse
  | int h =>
    rw [prettyAt]
    exact .int h
  | text s =>
    rw [prettyAt]
    exact .text s
  | @array vs h ih =>
    cases vs with
    | nil =>
      rw [prettyAt, prettyItems, block, if_pos List.isEmpty_nil]
      exact .noItems isSpaces_nil
    | cons v vs =>
      have hitems := spellsItems_separated (isSpaces_newLine (depth + 1)) (isSpaces_newLine depth)
        (by simp) fun v hv => ih v hv (depth + 1)
      rw [prettyAt, prettyItems_eq_map, block, if_neg (by simp)]
      simpa [String.toList_append] using Spells.items hitems
  | @object ms h ih =>
    cases ms with
    | nil =>
      rw [prettyAt, prettyMembers, block, if_pos List.isEmpty_nil]
      exact .noMembers isSpaces_nil
    | cons m ms =>
      have hgap : IsSpaces [' '] := by simp [IsSpaces, isSpace]
      have hmembers := spellsMembers_separated (isSpaces_newLine (depth + 1))
        (isSpaces_newLine depth) hgap (by simp) fun m hm => ih m hm (depth + 1)
      rw [prettyAt, prettyMembers_eq_map, block, if_neg (by simp)]
      simpa [String.toList_append] using Spells.members hmembers

/-- **Both ways in which a value is written** spell it. -/
theorem Fits.isSpelled {v : Value} (h : v.Fits) :
    v.IsSpelled v.compact ∧ v.IsSpelled v.pretty :=
  ⟨⟨[], _, [], isSpaces_nil, h.spells_compact, isSpaces_nil, by simp⟩,
    ⟨[], _, [], isSpaces_nil, h.spells_prettyAt 0, isSpaces_nil, by simp [pretty]⟩⟩

end Value

end WorkflowScheduler.Json
