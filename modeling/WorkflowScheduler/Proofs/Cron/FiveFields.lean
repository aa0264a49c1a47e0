import Mathlib.Data.List.DropRight
import WorkflowScheduler.Proofs.Cron.Window

/-!
# Expressions with five fields

Five fields are read with a zero in front, which is meant to be the field for seconds. The grammar
allows blanks around a number, though, so that a comma, a hyphen or a slash at the start of the text
goes on with that zero, and what follows names seconds. An expression that starts in any other way
fires at second zero only.

## Main definitions

* `CronExpression.Returns`: what the searches return
* `CronExpression.ContinuesNumber`: the texts that go on with a number in front of them
* `CronExpression.ZeroApart`: the zero in front is a field of its own

## Main results

* `CronExpression.returns_iff_matches`: the searches return the instants that are named
* `CronExpression.fires_at_zero_iff`: which expressions with five fields fire at second zero only
-/

namespace WorkflowScheduler

/-! ## Words -/

namespace Text

theorem wordCountFrom_append_blank {bs : List Char} (hbs : ∀ c ∈ bs, isBlank c = true)
    (inWord : Bool) (cs : List Char) :
    wordCountFrom inWord (cs ++ bs) = wordCountFrom inWord cs := by
  induction cs generalizing inWord with
  | nil =>
    rw [List.nil_append]
    induction bs generalizing inWord with
    | nil => rfl
    | cons b bs ih =>
      have hb := hbs b List.mem_cons_self
      simp only [wordCountFrom, hb, if_true]
      exact ih (fun c hc => hbs c (List.mem_cons_of_mem _ hc)) false
  | cons c cs ih => simp only [List.cons_append, wordCountFrom, ih]

theorem wordCount_trimLeft (cs : List Char) : wordCount (trimLeft cs) = wordCount cs := by
  induction cs with
  | nil => rfl
  | cons c cs ih =>
    unfold trimLeft at *
    cases hc : isBlank c with
    | true => rw [List.dropWhile_cons_of_pos hc, ih, wordCount, wordCount, wordCountFrom, if_pos hc]
    | false => rw [List.dropWhile_cons_of_neg (by simp [hc])]

theorem trim_eq (cs : List Char) : trim cs = (trimLeft cs).rdropWhile isBlank := rfl

/-- The blanks at its ends separate no words of a text. -/
theorem wordCount_trim (cs : List Char) : wordCount (trim cs) = wordCount cs := by
  have hblank : ∀ c ∈ (trimLeft cs).rtakeWhile isBlank, isBlank c = true :=
    fun _ => List.mem_rtakeWhile_imp
  calc wordCount (trim cs)
      = wordCount (trim cs ++ (trimLeft cs).rtakeWhile isBlank) :=
        (wordCountFrom_append_blank hblank false _).symm
    _ = wordCount (trimLeft cs) := by rw [trim_eq, List.rdropWhile_append_rtakeWhile]
    _ = wordCount cs := wordCount_trimLeft cs

theorem wordCountFrom_map {f : Char → Char} (hf : ∀ c, isBlank (f c) = isBlank c) (inWord : Bool)
    (cs : List Char) : wordCountFrom inWord (cs.map f) = wordCountFrom inWord cs := by
  induction cs generalizing inWord with
  | nil => rfl
  | cons c cs ih => simp only [List.map_cons, wordCountFrom, hf, ih]

/-- A text without the blanks at its ends starts with a visible character. -/
theorem isBlank_head_trim {cs : List Char} {c : Char} (hc : (trim cs).head? = some c) :
    isBlank c = false := by
  obtain ⟨rest, hrest⟩ := List.rdropWhile_prefix isBlank (trimLeft cs)
  have hhead : (trimLeft cs).head? = some c := by
    rw [← hrest, ← trim_eq, List.head?_append, hc]
    rfl
  have hvisible := List.head?_dropWhile_not isBlank cs
  rw [show (cs.dropWhile isBlank).head? = some c from hhead] at hvisible
  exact hvisible

end Text

namespace CronExpression

open Cron

variable {e : CronExpression} {u : Instant}

/-! ## What is returned -/

/-- **What the searches return**: the next fire time after some instant, the first one from some
instant on, or one of the fire times of some window. -/
inductive Returns (e : CronExpression) (u : Instant) : Prop
  | after (t : Instant) (h : e.nextAfter t = .ok (some u))
  | atOrAfter (t : Instant) (h : e.nextAtOrAfter t = .ok (some u))
  | inWindow (start stop : Instant) (limit : Nat) (ts : List Instant)
      (h : e.fireTimes start stop limit = .ok ts) (hu : u ∈ ts)

/-- An instant that is named comes after the second before it. -/
theorem nextAfter_previousSecond (hs : e.sets.Sound) (hu : e.Matches u) :
    e.nextAfter u.previousSecond = .ok (some u) := by
  have hsame : u.previousSecond.nextSecond.seconds = u.seconds := by
    rw [Instant.nextSecond_seconds, Instant.previousSecond_seconds, if_neg]
    · omega
    · simp [Instant.InLeapSecond, hu.1]
  have hyear : e.sets.HasYear u.previousSecond.nextSecond.clock := by
    rw [Instant.clock_congr hsame]
    exact hu.hasYear
  obtain ⟨o, ho, hnext⟩ := exists_nextAfter hs
    (Instant.hasSecondBefore_iff.mp (hu.isInner hs).hasSecondBefore).2
    ⟨(Sets.hasYear_iff.mp hyear).1, .inl hyear⟩
  cases o with
  | none => exact absurd u.previousSecond_lt (hnext u hu)
  | some r =>
    obtain ⟨hr, hlt, hleast⟩ := hnext
    have hle := hleast u hu u.previousSecond_lt
    -- both are whole seconds, and the one found is not before the one that is named
    rw [Instant.lt_iff_nextSecond_le hr.1, hsame] at hlt
    rw [Instant.le_iff_of_whole hr.1] at hle
    obtain rfl : r = u := by
      cases r
      cases u
      have hr' := hr.1
      have hu' := hu.1
      simp only [Instant.mk.injEq] at *
      omega
    exact ho

/-- **The searches return the instants that an expression names, and no others.** -/
theorem returns_iff_matches (hs : e.sets.Sound) : e.Returns u ↔ e.Matches u := by
  constructor
  · intro hu
    cases hu with
    | after t h => exact (nextAfter_spec hs h).1
    | atOrAfter t h =>
      obtain ⟨o, ho, hspec⟩ := nextAtOrAfter_spec hs (hasSecondBefore_of_nextAtOrAfter h)
      rw [h, Except.ok.injEq] at ho
      exact (hspec u ho.symm).1
    | inWindow start stop limit ts h hu => exact ((fireTimes_sound hs h).2.2 u hu).1
  · intro hu
    exact .after _ (nextAfter_previousSecond hs hu)

/-- The readings that differ in a second of the field occur. -/
theorem isValid_atSecond (hs : e.sets.Sound) (u : Instant) {n : Nat} (hn : n ∈ e.sets.seconds) :
    Clock.IsValid { u.clock with second := n } where
  date := u.isValid_clock.date
  hour := u.isValid_clock.hour
  minute := u.isValid_clock.minute
  second := Nat.lt_succ_of_le (hs.seconds.bounds n hn).2

/-- In a minute in which an expression fires it fires at every second of its field. -/
theorem Matches.atSecond (hs : e.sets.Sound) (hu : e.Matches u) {n : Nat}
    (hn : n ∈ e.sets.seconds) : e.Matches (Clock.instant { u.clock with second := n }) := by
  obtain ⟨-, -, hminute, hhour, hday, hmonth, hweekday, hyear⟩ := hu
  refine ⟨rfl, ?_⟩
  rw [Clock.instant_clock (isValid_atSecond hs u hn)]
  exact ⟨hn, hminute, hhour, hday, hmonth, hweekday, hyear⟩

/-- Ascending numbers of which each is zero. -/
theorem eq_singleton_zero {ns : List Nat} (h : ns.Pairwise (· < ·)) (hne : ns ≠ [])
    (hzero : ∀ n ∈ ns, n = 0) : ns = [0] := by
  cases ns with
  | nil => exact absurd rfl hne
  | cons n ns =>
    obtain rfl := hzero n List.mem_cons_self
    cases ns with
    | nil => rfl
    | cons m ns =>
      have hlt : 0 < m := List.rel_of_pairwise_cons h List.mem_cons_self
      have := hzero m (by simp)
      omega

/-- An expression fires at second zero only if its field for seconds says so, or if it never
fires. -/
theorem returns_at_zero_iff (hs : e.sets.Sound) :
    (∀ u, e.Returns u → u.clock.second = 0) ↔ e.sets.seconds = [0] ∨ ∀ u, ¬ e.Returns u := by
  simp only [returns_iff_matches hs]
  constructor
  · intro hzero
    by_cases hfires : ∃ u, e.Matches u
    · -- where it fires once, it fires at each second of its field
      left
      obtain ⟨u, hu⟩ := hfires
      refine eq_singleton_zero hs.seconds.ascending (List.ne_nil_of_mem hu.2.1) fun n hn => ?_
      have hsecond := hzero _ (hu.atSecond hs hn)
      rwa [Clock.instant_clock (isValid_atSecond hs u hn)] at hsecond
    · exact .inr fun u hu => hfires ⟨u, hu⟩
  · rintro (hseconds | hnone) u hu
    · have hmem := hu.2.1
      rw [hseconds] at hmem
      exact List.mem_singleton.mp hmem
    · exact absurd hu (hnone u)

/-! ## The zero in front -/

/-- **A text that goes on with a number in front of it**, whatever blanks are between. -/
def ContinuesNumber (cs : List Char) : Prop :=
  cs.head? ∈ [some ',', some '-', some '/']

instance (cs : List Char) : Decidable (ContinuesNumber cs) :=
  inferInstanceAs (Decidable (_ ∈ _))

end CronExpression

namespace Cron.Grammar

open Text CronExpression

variable {cs rest : List Char}

theorem oneOf_singleton_eq_none {c : Char} (h : cs.head? ≠ some c) : oneOf [c] cs = none := by
  cases cs with
  | nil => rfl
  | cons d cs => simpa [oneOf] using h

theorem ordinal_zero (hgap : skipGap cs = cs) : ordinal ('0' :: ' ' :: cs) = some (0, cs) := by
  have hskip : skipGap (' ' :: cs) = cs := hgap
  have hdigits : many (skipGap ('0' :: ' ' :: cs)) = some (0, ' ' :: cs) := rfl
  simp [ordinal, hdigits, hskip, maxUnsigned32]

/-- The zero is a range with what is behind a hyphen, or one value. -/
theorem span_zero (hgap : skipGap cs = cs) :
    span ('0' :: ' ' :: cs) =
      ((do
        let (_, cs) ← oneOf ['-'] cs
        let (b, cs) ← ordinal cs
        some (Span.range 0 b, cs)).or (some (Span.point 0, cs))) := by
  have hstar : star ('0' :: ' ' :: cs) = none := rfl
  simp [span, hstar, range, point, ordinal_zero hgap]

/-- **The zero is read alone** if what follows does not go on with it. -/
theorem field_zero (hgap : skipGap cs = cs) (h : ¬ ContinuesNumber cs) :
    field ('0' :: ' ' :: cs) = some ([.span (.point 0)], cs) := by
  simp only [ContinuesNumber, List.mem_cons, List.not_mem_nil, or_false, not_or] at h
  obtain ⟨hcomma, hhyphen, hslash⟩ := h
  have hspan : span ('0' :: ' ' :: cs) = some (.point 0, cs) := by
    rw [span_zero hgap, oneOf_singleton_eq_none hhyphen]
    rfl
  have hitem : item ('0' :: ' ' :: cs) = some (.span (.point 0), cs) := by
    simp [item, stepped, hspan, oneOf_singleton_eq_none hslash]
  have hmore : ∀ fuel, moreItems fuel cs = ([], cs) := by
    intro fuel
    cases fuel with
    | zero => rfl
    | succ fuel =>
      unfold moreItems
      split
      · next heq => exact absurd rfl hcomma
      · rfl
  have hfirst : skipGap ('0' :: ' ' :: cs) = '0' :: ' ' :: cs := rfl
  simp [field, hfirst, hitem, hmore, hgap]

theorem moreItems_of_nil {fuel : Nat} (h : (moreItems fuel cs).1 = []) :
    (moreItems fuel cs).2 = cs := by
  cases fuel with
  | zero => rfl
  | succ fuel =>
    unfold moreItems at *
    split
    · next rest =>
      split
      · next i rest hitem => simp [hitem] at h
      · rfl
    · rfl

theorem span_of_item {n : Nat} (h : item cs = some (.span (.point n), rest)) :
    span cs = some (.point n, rest) := by
  unfold item at h
  rcases Option.or_eq_some_iff.mp h with h | ⟨-, h⟩
  · -- an item with a step is written in another way
    unfold stepped at h
    obtain ⟨p, -, h⟩ := Option.bind_eq_some_iff.mp h
    obtain ⟨q, -, h⟩ := Option.bind_eq_some_iff.mp h
    obtain ⟨r, -, h⟩ := Option.bind_eq_some_iff.mp h
    cases h
  · rcases Option.or_eq_some_iff.mp h with h | ⟨-, h⟩
    · obtain ⟨⟨s, left⟩, hspan, h⟩ := Option.map_eq_some_iff.mp h
      cases h
      exact hspan
    · obtain ⟨p, -, h⟩ := Option.map_eq_some_iff.mp h
      cases h

/-- Where the zero is read alone, the text behind it is left. -/
theorem eq_of_field_zero (hgap : skipGap cs = cs)
    (h : field ('0' :: ' ' :: cs) = some ([.span (.point 0)], rest)) : rest = cs := by
  unfold field at h
  obtain ⟨⟨i, left⟩, hitem, h⟩ := Option.bind_eq_some_iff.mp h
  have hmore : (moreItems left.length left).1 = [] → (moreItems left.length left).2 = left :=
    moreItems_of_nil
  simp only [Option.some.injEq, Prod.mk.injEq, List.cons.injEq] at h
  obtain ⟨⟨rfl, hnil⟩, rfl⟩ := h
  have hspan := span_of_item hitem
  rw [show skipGap ('0' :: ' ' :: cs) = '0' :: ' ' :: cs from rfl, span_zero hgap] at hspan
  rcases Option.or_eq_some_iff.mp hspan with hrange | ⟨-, hpoint⟩
  · -- a range is no single value
    obtain ⟨p, -, hrange⟩ := Option.bind_eq_some_iff.mp hrange
    obtain ⟨q, -, hrange⟩ := Option.bind_eq_some_iff.mp hrange
    cases hrange
  · cases hpoint
    rw [hmore hnil, hgap]

/-- No field starts with what goes on with a number. -/
theorem field_eq_none (h : ContinuesNumber cs) : field cs = none := by
  cases cs with
  | nil => simp [ContinuesNumber] at h
  | cons c cs =>
    simp only [ContinuesNumber, List.head?_cons, List.mem_cons, Option.some.injEq,
      List.not_mem_nil, or_false] at h
    rcases h with rfl | rfl | rfl
    · rfl
    · rfl
    · rfl

/-! ## The fields of the whole -/

theorem field_of_values {d : Domain} {ns : List Nat} (h : values d cs = some (ns, rest)) :
    ∃ is, field cs = some (is, rest) ∧ fieldValues? d is = some ns := by
  unfold values at h
  obtain ⟨⟨is, left⟩, hfield, h⟩ := Option.bind_eq_some_iff.mp h
  obtain ⟨ns', hns, h⟩ := Option.bind_eq_some_iff.mp h
  cases h
  exact ⟨is, hfield, hns⟩

/-- The field for seconds comes first, and another field after it. -/
theorem seconds_of_fields? {s : Sets} (h : fields? cs = some s) :
    ∃ is rest, field cs = some (is, rest) ∧ fieldValues? .sixty is = some s.seconds ∧
      (field rest).isSome := by
  unfold fields? at h
  obtain ⟨⟨seconds, cs₁⟩, hseconds, h⟩ := Option.bind_eq_some_iff.mp h
  obtain ⟨⟨minutes, cs₂⟩, hminutes, h⟩ := Option.bind_eq_some_iff.mp h
  obtain ⟨hours, -, h⟩ := Option.bind_eq_some_iff.mp h
  obtain ⟨days, -, h⟩ := Option.bind_eq_some_iff.mp h
  obtain ⟨months, -, h⟩ := Option.bind_eq_some_iff.mp h
  obtain ⟨weekdays, -, h⟩ := Option.bind_eq_some_iff.mp h
  obtain ⟨is, hfield, hvalues⟩ := field_of_values hseconds
  obtain ⟨is', hfield', -⟩ := field_of_values hminutes
  simp only at h
  split at h
  · cases h
    exact ⟨is, cs₁, hfield, hvalues, by rw [hfield']; rfl⟩
  · cases h

theorem head_of_keyword? {s : Sets} (h : keyword? cs = some s) : cs.head? = some '@' := by
  unfold keyword? at h
  simp only at h
  repeat' split at h
  all_goals
    first
    | cases h; done
    | subst cs; rfl

/-- A text that starts with a zero is no keyword. -/
theorem sets?_zero : sets? ('0' :: cs) = fields? ('0' :: cs) := by
  have hskip : skipGap ('0' :: cs) = '0' :: cs := rfl
  have hkeyword : keyword? (('0' :: cs).rdropWhile isGap) = none := by
    cases hs : keyword? (('0' :: cs).rdropWhile isGap) with
    | none => rfl
    | some s =>
      obtain ⟨left, hleft⟩ := List.rdropWhile_prefix isGap ('0' :: cs)
      have hhead : ('0' :: cs).head? = some '@' := by
        rw [← hleft, List.head?_append, head_of_keyword? hs]
        rfl
      simp at hhead
  unfold sets?
  rw [hskip]
  exact congrArg (Option.or · _) hkeyword

end Cron.Grammar

namespace CronExpression

open Text Cron

variable {e : CronExpression} {source : String}

/-- The text without the blanks at its ends, with `*` for `?`. -/
def starred (source : String) : List Char :=
  (trim source.toList).map fun c => if c = '?' then '*' else c

theorem wordCount_starred (source : String) :
    wordCount (starred source) = wordCount source.toList := by
  unfold starred wordCount
  rw [wordCountFrom_map]
  · exact wordCount_trim _
  · intro c
    split
    · next hc => rw [hc]; decide
    · rfl

theorem isBlank_of_isGap {c : Char} (h : Grammar.isGap c = true) : isBlank c = true := by
  simp only [Grammar.isGap, Bool.or_eq_true, decide_eq_true_eq] at h
  rcases h with ((rfl | rfl) | rfl) | rfl
  all_goals decide

theorem skipGap_starred (source : String) : Grammar.skipGap (starred source) = starred source := by
  cases htrim : trim source.toList with
  | nil => simp [starred, htrim, Grammar.skipGap]
  | cons c cs =>
    have hvisible : isBlank c = false := isBlank_head_trim (by rw [htrim]; rfl)
    have hgap : Grammar.isGap (if c = '?' then '*' else c) = false := by
      split
      · rfl
      · exact Bool.eq_false_iff.mpr fun hgap => by simp [isBlank_of_isGap hgap] at hvisible
    simp only [starred, htrim, List.map_cons, Grammar.skipGap]
    rw [List.dropWhile_cons_of_neg (by simp [hgap])]

theorem continuesNumber_starred :
    ContinuesNumber (starred source) ↔ ContinuesNumber (trim source.toList) := by
  cases htrim : trim source.toList with
  | nil => simp [starred, htrim]
  | cons c cs =>
    by_cases hc : c = '?'
    · simp [starred, htrim, hc, ContinuesNumber]
    · simp [starred, htrim, hc, ContinuesNumber]

theorem normalize_of_five (hfive : wordCount source.toList = 5) :
    normalize source.toList = '0' :: ' ' :: starred source := by
  rw [← wordCount_starred] at hfive
  exact if_pos hfive

theorem sets?_of_parse (h : parse source = .ok e) :
    Grammar.sets? (normalize source.toList) = some e.sets := by
  unfold parse at h
  split at h
  · cases h
  · split at h
    · next sets hsets =>
      cases h
      exact hsets
    · cases h

/-- **The zero in front is a field of its own.** -/
def ZeroApart (source : String) : Prop :=
  ∃ rest, Grammar.field (normalize source.toList) = some ([.span (.point 0)], rest)

/-- **Which expressions with five fields fire at second zero only.** The zero in front of them is a
field of its own unless the text goes on with it. All that is returned then lies at second zero;
otherwise it does only if the characters taken for seconds name no other, or nothing is returned. -/
theorem fires_at_zero_iff (h : parse source = .ok e) (hfive : wordCount source.toList = 5) :
    (ZeroApart source ↔ ¬ ContinuesNumber (trim source.toList)) ∧
    ((∀ u, e.Returns u → u.clock.second = 0) ↔
      ¬ ContinuesNumber (trim source.toList) ∨ e.sets.seconds = [0] ∨ ∀ u, ¬ e.Returns u) := by
  have hgap := skipGap_starred source
  have hsets := sets?_of_parse h
  rw [normalize_of_five hfive, Grammar.sets?_zero] at hsets
  obtain ⟨is, rest, hfield, hvalues, hnext⟩ := Grammar.seconds_of_fields? hsets
  -- what the text is read as in front of the minutes decides both
  have hapart : ¬ ContinuesNumber (starred source) → is = [.span (.point 0)] := by
    intro hcontinues
    rw [Grammar.field_zero hgap hcontinues, Option.some.injEq, Prod.mk.injEq] at hfield
    exact hfield.1.symm
  rw [← continuesNumber_starred]
  refine ⟨?_, ?_⟩
  · unfold ZeroApart
    rw [normalize_of_five hfive, hfield]
    constructor
    · rintro ⟨rest', heq⟩ hcontinues
      -- the next field would start where none can
      obtain ⟨rfl, rfl⟩ : is = [.span (.point 0)] ∧ rest = rest' := by simpa using heq
      obtain rfl := Grammar.eq_of_field_zero hgap hfield
      simp [Grammar.field_eq_none hcontinues] at hnext
    · intro hcontinues
      exact ⟨rest, by rw [hapart hcontinues]⟩
  · rw [returns_at_zero_iff (sound_of_parse h)]
    constructor
    · exact .inr
    · rintro (hcontinues | hzero)
      · left
        rw [hapart hcontinues] at hvalues
        exact (Option.some.inj hvalues).symm
      · exact hzero

/-- Seconds 0 and 5 of every minute, written with five fields. -/
def secondFive : CronExpression where
  source := ",5 ** * * *"
  sets := ⟨[0, 5], Domain.sixty.values, Domain.hours.values, Domain.days.values,
    Domain.months.values, Domain.weekdays.values, Domain.years.values⟩

theorem parse_secondFive : parse ",5 ** * * *" = .ok secondFive := rfl

/-- The comma goes on with the zero in front, and the expression fires at second five. -/
theorem fires_at_zero_iff_secondFive :
    wordCount secondFive.source.toList = 5 ∧ ¬ ZeroApart secondFive.source ∧
      ¬ (∀ u, secondFive.Returns u → u.clock.second = 0) ∧
      secondFive.nextAfter ⟨1709287200, 0⟩ = .ok (some ⟨1709287205, 0⟩) := by
  have hfive : wordCount secondFive.source.toList = 5 := rfl
  have hcontinues : ContinuesNumber (trim secondFive.source.toList) := by decide
  have hfound : secondFive.nextAfter ⟨1709287200, 0⟩ = .ok (some ⟨1709287205, 0⟩) := rfl
  obtain ⟨hapart, hzero⟩ := fires_at_zero_iff parse_secondFive hfive
  refine ⟨hfive, fun h => hapart.mp h hcontinues, fun h => ?_, hfound⟩
  rcases hzero.mp h with hnot | hseconds | hnone
  · exact hnot hcontinues
  · exact absurd hseconds (by decide)
  · exact hnone _ (.after _ hfound)

end CronExpression

end WorkflowScheduler
