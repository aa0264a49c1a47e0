import WorkflowScheduler.Calendar.Format
import WorkflowScheduler.Calendar.Stamp
import WorkflowScheduler.Proofs.Calendar
import WorkflowScheduler.Proofs.Numerals

/-!
# Time stamps are read back

The stamp of an instant has four digits for its year, or a sign and as many as it needs, two for
each other part, and up to nine for the fraction of its second. Each part is read back by itself,
since a mark ends it, and the parts name the instant.

## Main definitions

* `Instant.IsRepresentable`: the instants that occur

## Main results

* `Stamp.relaxedYear_yearText`, `Stamp.fraction_fractionText`: the parts without a fixed width
* `Stamp.relaxed?_stamp`: an instant is read back from its stamp
-/

namespace WorkflowScheduler

/-! ## The parts of a stamp -/

namespace Stamp

open Text

theorem relaxedYear_of_isDigit {c : Char} {cs : List Char} (hc : isDigit c = true) :
    relaxedYear (c :: cs) = (upTo 4 (c :: cs)).map fun (n, cs) => ((n : Int), cs) := by
  unfold relaxedYear
  split
  · next heq =>
    cases heq
    simp [isDigit] at hc
  · next heq =>
    cases heq
    simp [isDigit] at hc
  · rfl

theorem relaxedYear_plus (cs : List Char) :
    relaxedYear ('+' :: cs) = (many cs).map fun (n, cs) => ((n : Int), cs) :=
  rfl

theorem relaxedYear_minus (cs : List Char) :
    relaxedYear ('-' :: cs) = (many cs).map fun (n, cs) => (-(n : Int), cs) :=
  rfl

theorem toList_plus : ("+" : String).toList = ['+'] := by
  simp

theorem toList_minus : ("-" : String).toList = ['-'] := by
  simp

/-- **A year is read back**, whatever its length and its sign. -/
theorem relaxedYear_yearText (year : Int) (rest : List Char) :
    relaxedYear ((Date.yearText year).toList ++ '-' :: rest) = some (year, '-' :: rest) := by
  unfold Date.yearText
  by_cases hyear : 0 ≤ year ∧ year ≤ 9999
  · rw [if_pos hyear]
    have hlt : year.toNat < 10000 := by omega
    have hread := upTo_padded (by decide) (show year.toNat < Nat.pow 10 4 from hlt) ('-' :: rest)
    cases hds : (padded 4 year.toNat).toList with
    | nil => exact absurd hds (padded_ne_nil _ _)
    | cons c ds =>
      have hc : isDigit c = true := isDigit_of_mem_padded (hds ▸ List.mem_cons_self)
      rw [hds, List.cons_append] at hread
      rw [List.cons_append, relaxedYear_of_isDigit hc, hread, Option.map_some]
      simp only [Option.some.injEq, Prod.mk.injEq, and_true]
      omega
  · -- the sign stands in front, and the digits behind it end at the mark
    have hread : many ((padded 4 year.natAbs).toList ++ '-' :: rest) =
        some (year.natAbs, '-' :: rest) := many_padded (by simp [isDigit])
    rw [if_neg hyear, String.toList_append, List.append_assoc]
    by_cases hneg : year < 0
    · rw [if_pos hneg, toList_minus, List.singleton_append, relaxedYear_minus, hread,
        Option.map_some]
      simp only [Option.some.injEq, Prod.mk.injEq, and_true]
      omega
    · rw [if_neg hneg, toList_plus, List.singleton_append, relaxedYear_plus, hread,
        Option.map_some]
      simp only [Option.some.injEq, Prod.mk.injEq, and_true]
      omega

/-- A fraction of some digits. -/
theorem fraction_padded {w n : Nat} (hw : 0 < w) (hle : w ≤ 9) (h : n < Nat.pow 10 w) :
    fraction (("." ++ padded w n).toList ++ ['Z']) = some (n * Nat.pow 10 (9 - w), ['Z']) := by
  have htake : ((padded w n).toList ++ ['Z']).takeWhile isDigit = (padded w n).toList :=
    takeWhile_digits (fun _ => isDigit_of_mem_padded) (by simp [isDigit])
  have hlength := length_padded hw h
  have hkept : (padded w n).toList.take 9 = (padded w n).toList :=
    List.take_of_length_le (by omega)
  rw [String.toList_append]
  change fraction ('.' :: ((padded w n).toList ++ ['Z'])) = _
  simp only [fraction, htake, hkept, hlength, ofDigits_padded, List.drop_left' hlength,
    List.isEmpty_eq_false_iff.mpr (padded_ne_nil w n), Bool.false_eq_true, if_false]

/-- **A fraction of a second is read back**, with the digits that it needs. -/
theorem fraction_fractionText {nanos : Nat} (h : nanos < 1000000000) :
    fraction ((Instant.fractionText nanos).toList ++ ['Z']) = some (nanos, ['Z']) := by
  have hunit : ∀ {unit : Nat}, nanos % unit = 0 → some (nanos / unit * unit, ['Z']) =
      some (nanos, ['Z']) := fun hunit => by
    rw [Nat.div_mul_cancel (Nat.dvd_of_mod_eq_zero hunit)]
  unfold Instant.fractionText
  split
  · next hzero =>
    subst hzero
    rfl
  split
  · next hmillis =>
    exact (fraction_padded (by decide) (by decide)
      (show nanos / 1000000 < 1000 by omega)).trans (hunit hmillis)
  split
  · next hmicros =>
    exact (fraction_padded (by decide) (by decide)
      (show nanos / 1000 < 1000000 by omega)).trans (hunit hmicros)
  · rw [fraction_padded (by decide) (by decide) h, Nat.sub_self, Nat.pow_eq, Nat.pow_zero,
      Nat.mul_one]

end Stamp

namespace Instant

/-- **The instants that occur**: within the representable years, and within a leap second only at the
end of a minute. -/
structure IsRepresentable (t : Instant) : Prop where
  inRange : t.InRange
  nanos : t.nanos < 1000000000 ∨ t.nanos < 2000000000 ∧ t.seconds % 60 = 59

variable {t : Instant}

/-- The seconds by which the stamp of an instant goes beyond what the clock shows. -/
def leap (t : Instant) : Nat :=
  if t.InLeapSecond then 1 else 0

/-- An instant lies in no leap second, or it follows second 59. -/
theorem IsRepresentable.leap_cases (h : t.IsRepresentable) :
    t.leap = 0 ∧ t.nanos < 1000000000 ∨
      t.leap = 1 ∧ 1000000000 ≤ t.nanos ∧ t.nanos < 2000000000 ∧ t.clock.second = 59 := by
  have hnanos := h.nanos
  unfold leap
  by_cases hleap : t.InLeapSecond
  · unfold InLeapSecond at hleap
    refine .inr ⟨if_pos hleap, hleap, by omega, ?_⟩
    simp only [clock]
    omega
  · unfold InLeapSecond at hleap
    exact .inl ⟨if_neg hleap, by omega⟩

/-- The years of the instants in range. -/
theorem InRange.year (h : t.InRange) :
    Stamp.firstYear ≤ t.clock.date.year ∧ t.clock.date.year ≤ Stamp.lastYear := by
  have hfirst : (Clock.newYear Stamp.firstYear).seconds = firstSecond := by
    rw [Clock.newYear_seconds]
    decide
  have hlast : (Clock.newYear (Stamp.lastYear + 1)).seconds = lastSecond + 1 := by
    rw [Clock.newYear_seconds]
    decide
  have hclock := t.isValid_clock
  have hyear := hclock.newYear_le
  have hnext := hclock.lt_newYear
  rw [clock_seconds, Clock.newYear_seconds] at hyear hnext
  rw [Clock.newYear_seconds] at hfirst hlast
  obtain ⟨hge, hle⟩ := h
  constructor
  · refine Int.not_lt.mp fun hlt => ?_
    have hmono := Date.yearStart_mono (a := t.clock.date.year + 1) (b := Stamp.firstYear) (by omega)
    omega
  · refine Int.not_lt.mp fun hlt => ?_
    have hmono := Date.yearStart_mono (a := Stamp.lastYear + 1) (b := t.clock.date.year) (by omega)
    omega

end Instant

namespace Stamp

open Text

/-- There is no blank in front of a year. -/
theorem trimLeft_yearText (year : Int) (rest : List Char) :
    trimLeft ((Date.yearText year).toList ++ rest) = (Date.yearText year).toList ++ rest := by
  unfold Date.yearText
  split
  · exact trimLeft_padded _ _ rest
  · simp only [String.toList_append]
    split <;> rfl

/-- A mark between two parts is passed over. -/
theorem bind_mark {c : Char} {allowed : List Char} (hc : c ∈ allowed) (cs : List Char)
    (k : Unit × List Char → Option Instant) : oneOf allowed (c :: cs) >>= k = k ((), cs) := by
  rw [oneOf, if_pos hc]
  rfl

/-- A part of two digits is read up to what ends it. -/
theorem bind_two {n : Nat} (h : n < 100) (rest : List Char)
    (k : Nat × List Char → Option Instant) :
    upTo 2 (trimLeft ((padded 2 n).toList ++ rest)) >>= k = k (n, rest) := by
  rw [trimLeft_padded, upTo_padded (by decide) h]
  rfl

/-- **The parts of a stamp name its instant.** -/
theorem instant?_clock {t : Instant} (h : t.IsRepresentable) :
    Fields.instant? ⟨t.clock.date.year, t.clock.date.month, t.clock.date.day, t.clock.hour,
      t.clock.minute, t.clock.second + t.leap, t.nanos - 1000000000 * t.leap, 0⟩ = some t := by
  have hclock := t.isValid_clock
  obtain ⟨hyear, hyear'⟩ := h.inRange.year
  have hhour := hclock.hour
  have hminute := hclock.minute
  have hsecond := hclock.second
  -- a leap second is read as the second before it, with the nanoseconds that go beyond
  have hparts : min (t.clock.second + t.leap) 59 = t.clock.second ∧ t.clock.second + t.leap ≤ 60 ∧
      t.nanos - 1000000000 * t.leap +
        (if t.clock.second + t.leap = 60 then 1000000000 else 0) = t.nanos := by
    rcases h.leap_cases with ⟨hleap, -⟩ | ⟨hleap, hnanos, -, hlast⟩
    · rw [hleap, if_neg (by omega)]
      omega
    · rw [hleap, hlast, if_pos rfl]
      omega
  obtain ⟨hmin, hle, hnanos⟩ := hparts
  have hseconds : (Clock.mk t.clock.date t.clock.hour t.clock.minute t.clock.second).instant.seconds =
      t.seconds := t.clock_seconds
  unfold Fields.instant?
  simp only [hmin, hnanos]
  rw [if_pos ⟨hyear, hyear', hclock.date, by omega, by omega, hle, by decide⟩, hseconds,
    Int.mul_zero, Int.sub_zero]
  exact if_pos h.inRange

/-- **An instant is read back from its stamp.** -/
theorem relaxed?_stamp {t : Instant} (h : t.IsRepresentable) : relaxed? t.stamp = some t := by
  have hclock := t.isValid_clock
  have hmonth : t.clock.date.month < 100 := by
    have := hclock.date.2.1
    omega
  have hday : t.clock.date.day < 100 := by
    have hle := hclock.date.2.2.2
    unfold Date.monthLength at hle
    split at hle
    · split at hle <;> omega
    · split at hle <;> omega
  have hhour : t.clock.hour < 100 := hclock.hour.trans (by decide)
  have hminute : t.clock.minute < 100 := hclock.minute.trans (by decide)
  have hleap : t.leap ≤ 1 ∧ t.nanos - 1000000000 * t.leap < 1000000000 := by
    rcases h.leap_cases with ⟨hleap, hnanos⟩ | ⟨hleap, -, hnanos, -⟩ <;> omega
  have hsecond : t.clock.second + t.leap < 100 := by
    have := hclock.second
    omega
  have htext : t.stamp.toList = (Date.yearText t.clock.date.year).toList ++
      '-' :: ((padded 2 t.clock.date.month).toList ++ '-' :: ((padded 2 t.clock.date.day).toList ++
      'T' :: ((padded 2 t.clock.hour).toList ++ ':' :: ((padded 2 t.clock.minute).toList ++
      ':' :: ((padded 2 (t.clock.second + t.leap)).toList ++
      ((Instant.fractionText (t.nanos - 1000000000 * t.leap)).toList ++ ['Z'])))))) := by
    simp [Instant.stamp, Date.text, Instant.timeText, Instant.leap, String.toList_append]
  have hyear : ∀ rest k, relaxedYear (trimLeft ((Date.yearText t.clock.date.year).toList ++
      '-' :: rest)) >>= k = (k (t.clock.date.year, '-' :: rest) : Option Instant) := by
    intro rest k
    rw [trimLeft_yearText, relaxedYear_yearText]
    rfl
  have hnanos : ∀ k, fraction ((Instant.fractionText (t.nanos - 1000000000 * t.leap)).toList ++
      ['Z']) >>= k = (k (t.nanos - 1000000000 * t.leap, ['Z']) : Option Instant) := by
    intro k
    rw [fraction_fractionText hleap.2]
    rfl
  unfold relaxed?
  rw [htext]
  -- each part is read up to the mark behind it
  refine (hyear _ _).trans ?_
  refine (bind_mark (by decide) _ _).trans ?_
  refine (bind_two hmonth _ _).trans ?_
  refine (bind_mark (by decide) _ _).trans ?_
  refine (bind_two hday _ _).trans ?_
  refine (bind_mark (by decide) _ _).trans ?_
  refine (bind_two hhour _ _).trans ?_
  refine (bind_mark (by decide) _ _).trans ?_
  refine (bind_two hminute _ _).trans ?_
  refine (bind_mark (by decide) _ _).trans ?_
  refine (bind_two hsecond _ _).trans ?_
  refine (hnanos _).trans ?_
  exact instant?_clock h

end Stamp

end WorkflowScheduler
