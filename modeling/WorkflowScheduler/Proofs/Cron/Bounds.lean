import WorkflowScheduler.Cron.Search
import WorkflowScheduler.Proofs.Calendar
import WorkflowScheduler.Proofs.Cron.Sets

/-!
# Lower bounds of the search

Within each unit the search tries values in ascending order, and a lower bound holds for the first
one only. So the readings that the bounds leave are those after the bound of a unit, and those at the
bound that the bounds of the finer units leave.

## Main definitions

* `Cron.Lower.AllowsSecond` to `Cron.Lower.AllowsMonth`: the readings that the bounds leave, from one
  unit on
* `Cron.Tried`: the values to be tried, of which the first one has a bound

## Main results

* `Cron.Lower.tried_minutes_iff`, `tried_hours_iff`, `tried_days_iff`, `tried_months_iff`: trying the
  values of a unit from its bound on leaves what the bounds leave
* `Cron.Lower.allowsMonth_ofClock_iff`: the bounds of a clock leave what is not before it
-/

namespace WorkflowScheduler.Cron

/-! ## Bounds -/

namespace Lower

/-- No bounds are left. -/
def spent : Lower := ⟨none, none, none, none, none⟩

/-- The bound for seconds leaves a reading. -/
def AllowsSecond (b : Lower) (c : Clock) : Prop :=
  b.second.getD 0 ≤ c.second

/-- The bounds from minutes on leave a reading. -/
def AllowsMinute (b : Lower) (c : Clock) : Prop :=
  b.minute.getD 0 < c.minute ∨ b.minute.getD 0 = c.minute ∧ b.AllowsSecond c

/-- The bounds from hours on leave a reading. -/
def AllowsHour (b : Lower) (c : Clock) : Prop :=
  b.hour.getD 0 < c.hour ∨ b.hour.getD 0 = c.hour ∧ b.AllowsMinute c

/-- **The bounds from days on leave a reading.** A bound past the end of the month leaves its last
day, with the finer bounds if the day of the bound is in the field. -/
def AllowsDay (s : Sets) (b : Lower) (c : Clock) : Prop :=
  b.day.getD 1 < c.date.day ∨ b.day.getD 1 = c.date.day ∧ b.AllowsHour c ∨
    Date.monthLength c.date.year c.date.month < b.day.getD 1 ∧
      c.date.day = Date.monthLength c.date.year c.date.month ∧
      (b.day.getD 1 ∈ s.days → b.AllowsHour c)

/-- The bounds from months on leave a reading. -/
def AllowsMonth (s : Sets) (b : Lower) (c : Clock) : Prop :=
  b.month.getD 1 < c.date.month ∨ b.month.getD 1 = c.date.month ∧ b.AllowsDay s c

variable {b : Lower} {c : Clock}

theorem allowsSecond_of_none (h : b.second = none) : b.AllowsSecond c := by
  simp [AllowsSecond, h]

theorem allowsMinute_of_none (hm : b.minute = none) (hs : b.second = none) : b.AllowsMinute c := by
  have := allowsSecond_of_none (c := c) hs
  unfold AllowsMinute
  rw [hm]
  simp only [Option.getD_none, this, and_true]
  omega

theorem allowsHour_of_none (hh : b.hour = none) (hm : b.minute = none) (hs : b.second = none) :
    b.AllowsHour c := by
  have := allowsMinute_of_none (c := c) hm hs
  unfold AllowsHour
  rw [hh]
  simp only [Option.getD_none, this, and_true]
  omega

theorem allowsDay_of_none {s : Sets} (hd : b.day = none) (hh : b.hour = none) (hm : b.minute = none)
    (hs : b.second = none) (h : c.date.IsValid) : b.AllowsDay s c := by
  unfold AllowsDay
  rw [hd]
  rcases Nat.lt_or_eq_of_le h.2.2.1 with hlt | heq
  · exact .inl hlt
  · exact .inr (.inl ⟨heq, allowsHour_of_none hh hm hs⟩)

theorem allowsMonth_spent {s : Sets} (h : c.date.IsValid) : spent.AllowsMonth s c := by
  rcases Nat.lt_or_eq_of_le h.1 with hlt | heq
  · exact .inl hlt
  · exact .inr ⟨heq, allowsDay_of_none rfl rfl rfl rfl h⟩

end Lower

theorem pairwise_fromBound {values : List Nat} (h : values.Pairwise (· < ·)) (bound : Nat) :
    (fromBound bound values).Pairwise (· < ·) :=
  h.filter _

theorem head?_fromBound {values : List Nat} (h : values.Pairwise (· < ·)) {bound : Nat}
    (hb : bound ∈ values) : (fromBound bound values).head? = some bound := by
  induction values with
  | nil => simp at hb
  | cons v vs ih =>
    obtain ⟨hv, hvs⟩ := List.pairwise_cons.mp h
    unfold fromBound
    rcases List.mem_cons.mp hb with rfl | hb
    · simp
    · -- what is in front of the bound is left out
      have hlt : ¬ bound ≤ v := by
        have := hv bound hb
        omega
      rw [List.filter_cons_of_neg (by simpa using hlt)]
      exact ih hvs hb

/-- A value is among those to be tried, and within the bounds if it is the first one of them. -/
def Tried (values : List Nat) (v : Nat) (P : Prop) : Prop :=
  v ∈ values ∧ (values.head? = some v → P)

theorem tried_nil {v : Nat} {P : Prop} : ¬ Tried [] v P :=
  fun h => by simp [Tried] at h

/-- **One value after the other**: the first one within the bounds, the others without. -/
theorem tried_cons_iff {n v : Nat} {rest : List Nat} (h : (n :: rest).Pairwise (· < ·)) {P Q : Prop}
    (hQ : Q) : Tried (n :: rest) v P ↔ v = n ∧ P ∨ Tried rest v Q := by
  have hn := (List.pairwise_cons.mp h).1
  simp only [Tried, List.mem_cons, List.head?_cons, Option.some.injEq, hQ, implies_true, and_true]
  constructor
  · rintro ⟨rfl | hv, hP⟩
    · exact .inl ⟨rfl, hP rfl⟩
    · exact .inr hv
  · rintro (⟨rfl, hP⟩ | hv)
    · exact ⟨.inl rfl, fun _ => hP⟩
    · have := hn v hv
      exact ⟨.inr hv, fun heq => by omega⟩

/-- **A bound holds for the first value that is left**: that is the bound itself, or the finer bounds
have fallen away. -/
theorem tried_fromBound_iff {values : List Nat} (h : values.Pairwise (· < ·)) {bound v : Nat}
    {P Q : Prop} (hin : bound ∈ values → (Q ↔ P)) (hout : bound ∉ values → Q) :
    Tried (fromBound bound values) v Q ↔ v ∈ values ∧ (bound < v ∨ bound = v ∧ P) := by
  have hmem : v ∈ fromBound bound values ↔ v ∈ values ∧ bound ≤ v := by simp [fromBound]
  unfold Tried
  rw [hmem, and_assoc]
  refine and_congr_right fun hv => ?_
  by_cases hb : bound ∈ values
  · rw [head?_fromBound h hb, hin hb, Option.some.injEq]
    constructor
    · rintro ⟨hle, hP⟩
      rcases Nat.lt_or_eq_of_le hle with hlt | heq
      · exact .inl hlt
      · exact .inr ⟨heq, hP heq⟩
    · rintro (hlt | ⟨heq, hP⟩)
      · exact ⟨by omega, fun heq => by omega⟩
      · exact ⟨by omega, fun _ => hP⟩
  · have hne : bound ≠ v := by
      rintro rfl
      exact hb hv
    simp only [hout hb, implies_true, and_true]
    omega

/-! ## Using up a bound -/

namespace Lower

variable (s : Sets) (b : Lower) (c : Clock)

/-- The bounds for a minute, when its bound is used up. -/
def useMinute : Lower :=
  if b.minute.getD 0 ∈ s.minutes then { b with minute := none } else b.pastMinute

/-- The bounds for an hour, when its bound is used up. -/
def useHour : Lower :=
  if b.hour.getD 0 ∈ s.hours then { b with hour := none } else b.pastHour

/-- The bounds for a day, when its bound is used up. -/
def useDay : Lower :=
  if b.day.getD 1 ∈ s.days then { b with day := none } else b.pastDay

/-- The bounds for a month, when its bound is used up. -/
def useMonth : Lower :=
  if b.month.getD 1 ∈ s.months then { b with month := none } else b.pastMonth

variable {s b c}

theorem useMinute_minute : (b.useMinute s).minute = none := by
  unfold useMinute
  split <;> rfl

theorem useMinute_hour : (b.useMinute s).hour = b.hour := by
  unfold useMinute
  split <;> rfl

theorem useHour_hour : (b.useHour s).hour = none := by
  unfold useHour
  split <;> rfl

/-- The minutes that are tried from their bound on. -/
theorem tried_minutes_iff (hs : s.Sound) :
    Tried (fromBound (b.minute.getD 0) s.minutes) c.minute ((b.useMinute s).AllowsSecond c) ↔
      c.minute ∈ s.minutes ∧ b.AllowsMinute c := by
  refine tried_fromBound_iff hs.minutes.ascending (fun hin => ?_) fun hout => ?_
  · unfold useMinute
    rw [if_pos hin]
    exact Iff.rfl
  · unfold useMinute
    rw [if_neg hout]
    exact allowsSecond_of_none rfl

/-- The hours that are tried from their bound on. -/
theorem tried_hours_iff (hs : s.Sound) :
    Tried (fromBound (b.hour.getD 0) s.hours) c.hour ((b.useHour s).AllowsMinute c) ↔
      c.hour ∈ s.hours ∧ b.AllowsHour c := by
  refine tried_fromBound_iff hs.hours.ascending (fun hin => ?_) fun hout => ?_
  · unfold useHour
    rw [if_pos hin]
    exact Iff.rfl
  · unfold useHour
    rw [if_neg hout]
    exact allowsMinute_of_none rfl rfl

/-- The days that are tried from their bound on. -/
theorem tried_days_iff (hs : s.Sound) {year : Nat} (hy : c.date.year = year)
    (hle : c.date.day ≤ Date.monthLength c.date.year c.date.month) :
    Tried (daysFromBound s year c.date.month (b.day.getD 1)) c.date.day
        ((b.useDay s).AllowsHour c) ↔
      c.date.day ∈ s.days ∧ b.AllowsDay s c := by
  have hused : b.day.getD 1 ∈ s.days → ((b.useDay s).AllowsHour c ↔ b.AllowsHour c) := by
    intro hin
    unfold useDay
    rw [if_pos hin]
    exact Iff.rfl
  have hpast : b.day.getD 1 ∉ s.days → (b.useDay s).AllowsHour c := by
    intro hout
    unfold useDay
    rw [if_neg hout]
    exact allowsHour_of_none rfl rfl rfl
  unfold AllowsDay daysFromBound
  rw [hy] at hle ⊢
  generalize Date.monthLength year c.date.month = last at hle ⊢
  generalize b.day.getD 1 = bound at hused hpast ⊢
  simp only
  rcases Nat.lt_or_ge last bound with hlt | hge
  · -- only the last day is tried, so it is the first one
    rw [Nat.min_eq_right (by omega)]
    have hmem : ∀ n, n ∈ s.days.filter (fun n => last ≤ n ∧ n ≤ last) ↔ n ∈ s.days ∧ n = last := by
      intro n
      rw [List.mem_filter, decide_eq_true_iff]
      exact and_congr_right fun _ => by omega
    have hhead : c.date.day ∈ s.days → c.date.day = last →
        (s.days.filter (fun n => last ≤ n ∧ n ≤ last)).head? = some c.date.day := by
      intro hin heq
      obtain ⟨n, hn⟩ : ∃ n, (s.days.filter (fun n => last ≤ n ∧ n ≤ last)).head? = some n :=
        Option.isSome_iff_exists.mp
          (List.isSome_head?.mpr (List.ne_nil_of_mem ((hmem _).mpr ⟨hin, heq⟩)))
      rw [hn, heq, ((hmem n).mp (List.mem_of_head? hn)).2]
    unfold Tried
    rw [hmem, and_assoc]
    refine and_congr_right fun hin => ?_
    constructor
    · rintro ⟨heq, hQ⟩
      exact .inr (.inr ⟨hlt, heq, fun hbound => (hused hbound).mp (hQ (hhead hin heq))⟩)
    · rintro (h | ⟨h, -⟩ | ⟨-, heq, hP⟩)
      · omega
      · omega
      · refine ⟨heq, fun _ => ?_⟩
        by_cases hbound : bound ∈ s.days
        · exact (hused hbound).mpr (hP hbound)
        · exact hpast hbound
  · -- the bound is within the month, so it is the bound of the days that the month has
    have hdays : s.days.filter (fun n => min bound last ≤ n ∧ n ≤ last) =
        fromBound bound (s.days.filter (· ≤ last)) := by
      rw [Nat.min_eq_left hge, fromBound, List.filter_filter]
      simp
    have hmem : ∀ n, n ≤ last → (n ∈ s.days.filter (· ≤ last) ↔ n ∈ s.days) := by
      intro n hn
      simp [hn]
    rw [hdays, tried_fromBound_iff (hs.days.ascending.filter _)
      (fun hin => hused ((hmem bound hge).mp hin)) (fun hout => hpast (mt (hmem bound hge).mpr hout)),
      hmem _ hle]
    refine and_congr_right fun _ => or_congr_right (or_iff_left ?_).symm
    rintro ⟨h, -⟩
    omega

/-- The months that are tried from their bound on. -/
theorem tried_months_iff (hs : s.Sound) (hvalid : c.date.IsValid) :
    Tried (fromBound (b.month.getD 1) s.months) c.date.month ((b.useMonth s).AllowsDay s c) ↔
      c.date.month ∈ s.months ∧ b.AllowsMonth s c := by
  refine tried_fromBound_iff hs.months.ascending (fun hin => ?_) fun hout => ?_
  · unfold useMonth
    rw [if_pos hin]
    exact Iff.rfl
  · unfold useMonth
    rw [if_neg hout]
    exact allowsDay_of_none rfl rfl rfl rfl hvalid

end Lower

/-! ## The bounds of a clock -/

namespace Lower

variable {s : Sets} {start c : Clock}

theorem allowsHour_ofClock_iff (hstart : start.IsValid) (hc : c.IsValid)
    (hday : start.date.dayNumber = c.date.dayNumber) :
    (ofClock start).AllowsHour c ↔ start.seconds ≤ c.seconds := by
  have := hstart.minute
  have := hstart.second
  have := hc.minute
  have := hc.second
  rw [Clock.seconds_eq, Clock.seconds_eq, hday]
  simp only [AllowsHour, AllowsMinute, AllowsSecond, ofClock, Option.getD_some]
  omega

theorem allowsDay_ofClock_iff (hstart : start.IsValid) (hc : c.IsValid)
    (hy : start.date.year = c.date.year) (hm : start.date.month = c.date.month) :
    (ofClock start).AllowsDay s c ↔ start.seconds ≤ c.seconds := by
  -- the bound is a day of the month, so the case of a bound past its end does not arise
  have hlast : ¬ Date.monthLength c.date.year c.date.month < start.date.day := by
    have := hstart.date.2.2.2
    rw [hy, hm] at this
    omega
  simp only [AllowsDay, show (ofClock start).day.getD 1 = start.date.day from rfl, hlast, false_and,
    or_false]
  rcases Nat.lt_trichotomy start.date.day c.date.day with hlt | heq | hgt
  · exact iff_of_true (.inl hlt)
      (Int.le_of_lt (Clock.seconds_lt_of_day hstart hc hy hm hlt))
  · have hdate : start.date = c.date := by
      cases hs : start.date
      cases hc : c.date
      simp_all
    rw [allowsHour_ofClock_iff hstart hc (by rw [hdate])]
    simp [heq]
  · refine iff_of_false (by omega) ?_
    have := Clock.seconds_lt_of_day hc hstart hy.symm hm.symm hgt
    omega

/-- **The bounds that a clock gives** leave the readings of its year that are not before it. -/
theorem allowsMonth_ofClock_iff (hstart : start.IsValid) (hc : c.IsValid)
    (hy : start.date.year = c.date.year) :
    (ofClock start).AllowsMonth s c ↔ start.seconds ≤ c.seconds := by
  simp only [AllowsMonth, show (ofClock start).month.getD 1 = start.date.month from rfl]
  rcases Nat.lt_trichotomy start.date.month c.date.month with hlt | heq | hgt
  · exact iff_of_true (.inl hlt) (Int.le_of_lt (Clock.seconds_lt_of_month hstart hc hy hlt))
  · rw [allowsDay_ofClock_iff hstart hc hy heq]
    simp [heq]
  · refine iff_of_false (by omega) ?_
    have := Clock.seconds_lt_of_month hc hstart hy.symm hgt
    omega

end Lower

end WorkflowScheduler.Cron
