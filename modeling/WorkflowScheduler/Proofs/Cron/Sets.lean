import WorkflowScheduler.Cron.Expression

/-!
# The values of the fields

However an expression is written, each of its fields holds values of its unit, in ascending order
and each once.

## Main definitions

* `Cron.Domain.Holds`: ascending values of a unit
* `Cron.Sets.Sound`: every field holds values of its unit

## Main results

* `CronExpression.sound_of_parse`: the fields of an expression that can be read are sound
-/

namespace WorkflowScheduler

namespace Cron

/-- **Ascending values of a unit.** -/
structure Domain.Holds (d : Domain) (values : List Nat) : Prop where
  ascending : values.Pairwise (· < ·)
  bounds : ∀ n ∈ values, d.lo ≤ n ∧ n ≤ d.hi

theorem Domain.holds_values (d : Domain) : d.Holds d.values where
  ascending := List.pairwise_lt_range'
  bounds n hn := by
    rw [values, List.mem_range'_1] at hn
    omega

theorem Domain.Holds.filter {d : Domain} {values : List Nat} (h : d.Holds values)
    (p : Nat → Bool) : d.Holds (values.filter p) where
  ascending := h.ascending.filter p
  bounds n hn := h.bounds n (List.mem_filter.mp hn).1

theorem Domain.holds_singleton {d : Domain} {n : Nat} (h : d.lo ≤ n ∧ n ≤ d.hi) : d.Holds [n] where
  ascending := List.pairwise_singleton _ _
  bounds _ hm := List.mem_singleton.mp hm ▸ h

/-- Whatever its items are, a field holds values of its unit. -/
theorem holds_of_fieldValues? {d : Domain} {items : List Item} {values : List Nat}
    (h : fieldValues? d items = some values) : d.Holds values := by
  unfold fieldValues? at h
  obtain ⟨ps, -, hvalues⟩ := Option.bind_eq_some_iff.mp h
  cases hvalues
  exact d.holds_values.filter _

/-- **Every field holds values of its unit.** -/
structure Sets.Sound (s : Sets) : Prop where
  seconds : Domain.sixty.Holds s.seconds
  minutes : Domain.sixty.Holds s.minutes
  hours : Domain.hours.Holds s.hours
  days : Domain.days.Holds s.days
  months : Domain.months.Holds s.months
  weekdays : Domain.weekdays.Holds s.weekdays
  years : Domain.years.Holds s.years

namespace Grammar

theorem holds_of_values {d : Domain} {cs rest : List Char} {ns : List Nat}
    (h : values d cs = some (ns, rest)) : d.Holds ns := by
  unfold values at h
  obtain ⟨p, -, h⟩ := Option.bind_eq_some_iff.mp h
  obtain ⟨ns', hns, h⟩ := Option.bind_eq_some_iff.mp h
  cases h
  exact holds_of_fieldValues? hns

theorem sound_of_fields? {cs : List Char} {s : Sets} (h : fields? cs = some s) : s.Sound := by
  unfold fields? at h
  -- one field after the other; the last one holds all years if it is missing
  obtain ⟨⟨seconds, cs₁⟩, hseconds, h⟩ := Option.bind_eq_some_iff.mp h
  obtain ⟨⟨minutes, cs₂⟩, hminutes, h⟩ := Option.bind_eq_some_iff.mp h
  obtain ⟨⟨hours, cs₃⟩, hhours, h⟩ := Option.bind_eq_some_iff.mp h
  obtain ⟨⟨days, cs₄⟩, hdays, h⟩ := Option.bind_eq_some_iff.mp h
  obtain ⟨⟨months, cs₅⟩, hmonths, h⟩ := Option.bind_eq_some_iff.mp h
  obtain ⟨⟨weekdays, cs₆⟩, hweekdays, h⟩ := Option.bind_eq_some_iff.mp h
  have hyears : Domain.years.Holds ((values .years cs₆).getD (Domain.years.values, cs₆)).1 := by
    cases hy : values .years cs₆ with
    | none => exact Domain.years.holds_values
    | some p => exact holds_of_values hy
  simp only at h
  split at h
  · cases h
    exact ⟨holds_of_values hseconds, holds_of_values hminutes, holds_of_values hhours,
      holds_of_values hdays, holds_of_values hmonths, holds_of_values hweekdays, hyears⟩
  · cases h

theorem sound_of_keyword? {cs : List Char} {s : Sets} (h : keyword? cs = some s) : s.Sound := by
  have hzero : Domain.sixty.Holds [0] := Domain.holds_singleton (by decide)
  have hmidnight : Domain.hours.Holds [0] := Domain.holds_singleton (by decide)
  have hfirst : Domain.days.Holds [1] := Domain.holds_singleton (by decide)
  have hjanuary : Domain.months.Holds [1] := Domain.holds_singleton (by decide)
  have hsunday : Domain.weekdays.Holds [1] := Domain.holds_singleton (by decide)
  have hall := Domain.holds_values
  -- by the keyword, in the order in which they are tried
  unfold keyword? at h
  simp only at h
  split at h
  · cases h
    exact ⟨hzero, hzero, hmidnight, hfirst, hjanuary, hall _, hall _⟩
  split at h
  · cases h
    exact ⟨hzero, hzero, hmidnight, hfirst, hall _, hall _, hall _⟩
  split at h
  · cases h
    exact ⟨hzero, hzero, hmidnight, hall _, hall _, hsunday, hall _⟩
  split at h
  · cases h
    exact ⟨hzero, hzero, hmidnight, hall _, hall _, hall _, hall _⟩
  split at h
  · cases h
    exact ⟨hzero, hzero, hall _, hall _, hall _, hall _, hall _⟩
  · cases h

/-- The fields of a whole expression are sound. -/
theorem sound_of_sets? {cs : List Char} {s : Sets} (h : sets? cs = some s) : s.Sound := by
  unfold sets? at h
  rcases Option.or_eq_some_iff.mp h with h | ⟨-, h⟩
  · exact sound_of_keyword? h
  · exact sound_of_fields? h

end Grammar

end Cron

/-- **The fields of an expression that can be read are sound.** -/
theorem CronExpression.sound_of_parse {source : String} {e : CronExpression}
    (h : parse source = .ok e) : e.sets.Sound := by
  unfold parse at h
  split at h
  · cases h
  · split at h
    · next sets hsets =>
      cases h
      exact Cron.Grammar.sound_of_sets? hsets
    · cases h

end WorkflowScheduler
