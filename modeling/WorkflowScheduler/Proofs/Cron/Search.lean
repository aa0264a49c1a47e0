import WorkflowScheduler.Proofs.Cron.Bounds

/-!
# What the search finds

The search goes through the values of each unit in turn. On each level it finds the first one of the
readings that its values and the bounds leave, because it does so within each value.

## Main definitions

* `Cron.Sets.Fits`: a reading that lies in all fields but the year
* `Cron.IsFirst`: the first one of some readings
* `Cron.Trial.Finds`: how a search within a unit ends
* `Cron.Trial.loop`: the loop over the values of a unit

## Main results

* `Cron.Trial.loop_finds`: a loop finds the first reading if the search within each value does
* `Cron.tryYears_eq_some`, `Cron.tryYears_eq_none`: what the loops find together
-/

namespace WorkflowScheduler.Cron

/-! ## Readings -/

/-- A reading lies in the fields for the time of day. -/
structure Sets.FitsTime (s : Sets) (c : Clock) : Prop where
  hour : c.hour ∈ s.hours
  minute : c.minute ∈ s.minutes
  second : c.second ∈ s.seconds

theorem Sets.FitsTime.isValid {s : Sets} {c : Clock} (ht : s.FitsTime c) (hs : s.Sound)
    (hd : c.date.IsValid) : c.IsValid where
  date := hd
  hour := Nat.lt_succ_of_le (hs.hours.bounds _ ht.hour).2
  minute := Nat.lt_succ_of_le (hs.minutes.bounds _ ht.minute).2
  second := Nat.lt_succ_of_le (hs.seconds.bounds _ ht.second).2

/-- A reading occurs and lies in the fields for the time of day and the weekday. -/
structure Sets.FitsDay (s : Sets) (c : Clock) : Prop where
  valid : c.IsValid
  weekday : c.date.weekday ∈ s.weekdays
  time : s.FitsTime c

/-- **A reading occurs and lies in all fields but the year.** -/
structure Sets.Fits (s : Sets) (c : Clock) : Prop extends s.FitsDay c where
  month : c.date.month ∈ s.months
  day : c.date.day ∈ s.days

/-- **The first one of some readings.** -/
def IsFirst (C : Clock → Prop) (c : Clock) : Prop :=
  C c ∧ ∀ u, C u → c.seconds ≤ u.seconds

/-- **How a search within a unit ends**: with the first one of some readings; with nothing if there
is none of them; or, within a day, with a time on a day of the wrong weekday. -/
def Trial.Finds (C : Clock → Prop) (left wrong : Lower → Prop) : Trial → Prop
  | .found c => IsFirst C c
  | .nothing b => (∀ u, ¬ C u) ∧ left b
  | .wrongWeekday b => wrong b

namespace Trial

variable {C C' : Clock → Prop} {left left' wrong : Lower → Prop} {r : Trial}

theorem Finds.congr (h : r.Finds C left wrong) (hC : ∀ u, C' u ↔ C u) : r.Finds C' left wrong := by
  obtain rfl : C' = C := funext fun u => propext (hC u)
  exact h

theorem Finds.imp (h : r.Finds C left wrong) (hleft : ∀ b, left b → left' b) :
    r.Finds C left' wrong := by
  cases r with
  | found c => exact h
  | nothing b => exact ⟨h.1, hleft b h.2⟩
  | wrongWeekday b => exact h

/-- What the bounds become when a search has found nothing. -/
def after (f : Lower → Lower) : Trial → Trial
  | .nothing b => .nothing (f b)
  | r => r

theorem Finds.after {f : Lower → Lower} (h : r.Finds C left wrong)
    (hf : ∀ b, left b → left' (f b)) : (r.after f).Finds C left' wrong := by
  cases r with
  | found c => exact h
  | nothing b => exact ⟨h.1, hf b h.2⟩
  | wrongWeekday b => exact h

/-- One value of a unit after the other, until the search within one does not end with nothing. -/
def loop (body : Lower → Nat → Trial) : Lower → List Nat → Trial
  | b, [] => .nothing b
  | b, n :: rest =>
    match body b n with
    | .nothing b => loop body b rest
    | r => r

/-- **The loop over a unit** finds the first reading whose value is tried, if the search within each
value does. Once a value is done with, no bounds are left within the unit. -/
theorem loop_finds {body : Lower → Nat → Trial} {D : Clock → Prop} {k : Clock → Nat}
    {P : Lower → Clock → Prop} {I F : Lower → Prop} {l : List Nat}
    (hbody : ∀ b, I b → ∀ n ∈ l, (body b n).Finds (fun u => D u ∧ k u = n ∧ P b u) F wrong)
    (hfree : ∀ b, F b → I b ∧ ∀ u, D u → P b u)
    (hle : ∀ u v, D u → D v → k u < k v → u.seconds ≤ v.seconds)
    (hl : l.Pairwise (· < ·)) {b : Lower} (hb : I b) :
    (loop body b l).Finds (fun u => D u ∧ Tried l (k u) (P b u))
      (fun b' => F b' ∨ l = [] ∧ b' = b) wrong := by
  -- on the values: the readings at the first one, then those at the others
  induction l generalizing b with
  | nil => exact ⟨fun u hu => tried_nil hu.2, .inr ⟨rfl, rfl⟩⟩
  | cons n rest ih =>
    obtain ⟨hn, hrest⟩ := List.pairwise_cons.mp hl
    have hfirst := hbody b hb n List.mem_cons_self
    have hsplit : ∀ u (Q : Prop), (D u → Q) → (D u ∧ Tried (n :: rest) (k u) (P b u) ↔
        (D u ∧ k u = n ∧ P b u) ∨ D u ∧ Tried rest (k u) Q) := by
      intro u Q hQ
      rw [← and_or_left]
      exact and_congr_right fun hu => tried_cons_iff hl (hQ hu)
    unfold loop
    cases hr : body b n with
    | found c =>
      rw [hr] at hfirst
      refine ⟨(hsplit c True fun _ => trivial).mpr (.inl hfirst.1), fun u hu => ?_⟩
      rcases (hsplit u True fun _ => trivial).mp hu with hu | ⟨hu, hmem, -⟩
      · exact hfirst.2 u hu
      · refine hle c u hfirst.1.1 hu ?_
        rw [hfirst.1.2.1]
        exact hn _ hmem
    | nothing b' =>
      rw [hr] at hfirst
      obtain ⟨hnone, hF⟩ := hfirst
      obtain ⟨hI, hP⟩ := hfree b' hF
      have hothers := ih (fun b hb n hn => hbody b hb n (List.mem_cons_of_mem _ hn)) hrest hI
      refine (hothers.congr fun u => ?_).imp fun b'' h => .inl ?_
      · rw [hsplit u _ (hP u)]
        exact or_iff_right (hnone u)
      · rcases h with h | ⟨-, rfl⟩
        · exact h
        · exact hF
    | wrongWeekday b' =>
      rw [hr] at hfirst
      exact hfirst

end Trial

variable {s : Sets}

/-! ## The time of a day -/

section Time

variable {date : Date} {b : Lower}

/-- The readings on a day that has a right weekday. -/
def OnDay (s : Sets) (date : Date) (c : Clock) : Prop :=
  c.date = date ∧ date.weekday ∈ s.weekdays

/-- The bounds for the time of a day are used up. -/
def TimeSpent (b : Lower) : Prop :=
  b.hour = none ∧ b.minute = none ∧ b.second = none

/-- A day of the wrong weekday has used up the bounds for its time. -/
def WrongWeekday (s : Sets) (date : Date) (b : Lower) : Prop :=
  date.weekday ∉ s.weekdays ∧ TimeSpent b

theorem trySeconds_finds (hs : s.Sound) (hour minute : Nat) (hh : b.hour = none)
    (hm : b.minute = none) :
    (trySeconds s date hour minute b).Finds
      (fun u => OnDay s date u ∧ u.hour = hour ∧ u.minute = minute ∧ u.second ∈ s.seconds ∧
        b.AllowsSecond u) TimeSpent (WrongWeekday s date) := by
  have hasc := pairwise_fromBound hs.seconds.ascending (b.second.getD 0)
  have hmem : ∀ n, n ∈ fromBound (b.second.getD 0) s.seconds ↔
      n ∈ s.seconds ∧ b.second.getD 0 ≤ n := by simp [fromBound]
  unfold trySeconds
  simp only
  cases hl : fromBound (b.second.getD 0) s.seconds with
  | nil =>
    refine ⟨?_, hh, hm, rfl⟩
    rintro u ⟨-, -, -, hu, hallow⟩
    have := (hmem u.second).mpr ⟨hu, hallow⟩
    simp [hl] at this
  | cons second rest =>
    simp only
    by_cases hw : date.weekday ∈ s.weekdays
    · rw [if_pos hw]
      obtain ⟨hin, hle⟩ := (hmem second).mp (by rw [hl]; exact List.mem_cons_self)
      refine ⟨⟨⟨rfl, hw⟩, rfl, rfl, hin, hle⟩, ?_⟩
      -- the seconds are ascending, so the first one that is left is the least
      rintro u ⟨⟨hdate, -⟩, hhour, hminute, hu, hallow⟩
      have hle : second ≤ u.second := by
        have := (hmem u.second).mpr ⟨hu, hallow⟩
        rw [hl] at this hasc
        rcases List.mem_cons.mp this with h | h
        · omega
        · exact Nat.le_of_lt ((List.pairwise_cons.mp hasc).1 _ h)
      rw [Clock.seconds_eq, Clock.seconds_eq, hdate]
      simp only
      omega
    · rw [if_neg hw]
      exact ⟨hw, hh, hm, rfl⟩

theorem tryMinutes_eq_loop (hour : Nat) (l : List Nat) :
    tryMinutes s date hour b l =
      Trial.loop (fun b n => (trySeconds s date hour n b).after Lower.pastMinute) b l := by
  induction l generalizing b with
  | nil => rfl
  | cons n rest ih =>
    unfold tryMinutes Trial.loop
    cases trySeconds s date hour n b with
    | found c => rfl
    | nothing b' => exact ih
    | wrongWeekday b' => rfl

theorem tryMinutes_finds (hs : s.Sound) (date : Date) (hour : Nat) {l : List Nat}
    (hl : l.Pairwise (· < ·)) (hh : b.hour = none) (hm : b.minute = none) :
    (tryMinutes s date hour b l).Finds
      (fun u => (OnDay s date u ∧ u.hour = hour ∧ u.second ∈ s.seconds) ∧
        Tried l u.minute (b.AllowsSecond u))
      (fun _ => True) (WrongWeekday s date) := by
  rw [tryMinutes_eq_loop]
  refine (Trial.loop_finds (D := fun u => OnDay s date u ∧ u.hour = hour ∧ u.second ∈ s.seconds)
    (I := fun b => b.hour = none ∧ b.minute = none) (F := TimeSpent)
    ?_ ?_ ?_ hl ⟨hh, hm⟩).imp fun _ _ => trivial
  · rintro b ⟨hh, hm⟩ n -
    refine ((trySeconds_finds hs hour n hh hm).congr fun u => ?_).after fun b' hb' =>
      ⟨hb'.1, rfl, rfl⟩
    grind
  · rintro b ⟨hh, hm, hsec⟩
    exact ⟨⟨hh, hm⟩, fun u _ => Lower.allowsSecond_of_none hsec⟩
  · rintro u v ⟨⟨hu, -⟩, hhour, hsecond⟩ ⟨⟨hv, -⟩, hhour', -⟩ hlt
    have := (hs.seconds.bounds _ hsecond).2
    simp only [Domain.sixty] at this
    rw [Clock.seconds_eq, Clock.seconds_eq, hu, hv]
    omega

theorem tryHours_eq_loop (l : List Nat) :
    tryHours s date b l =
      Trial.loop (fun b n => (tryMinutes s date n (b.useMinute s)
        (fromBound (b.minute.getD 0) s.minutes)).after Lower.pastHour) b l := by
  induction l generalizing b with
  | nil => rfl
  | cons n rest ih =>
    unfold tryHours Trial.loop Lower.useMinute
    simp only
    cases tryMinutes s date n _ (fromBound (b.minute.getD 0) s.minutes) with
    | found c => rfl
    | nothing b' => exact ih
    | wrongWeekday b' => rfl

theorem tryHours_finds (hs : s.Sound) (date : Date) {l : List Nat} (hl : l.Pairwise (· < ·))
    (hh : b.hour = none) :
    (tryHours s date b l).Finds
      (fun u => (OnDay s date u ∧ u.minute ∈ s.minutes ∧ u.second ∈ s.seconds) ∧
        Tried l u.hour (b.AllowsMinute u))
      (fun _ => True) (WrongWeekday s date) := by
  rw [tryHours_eq_loop]
  refine (Trial.loop_finds
    (D := fun u => OnDay s date u ∧ u.minute ∈ s.minutes ∧ u.second ∈ s.seconds)
    (I := fun b => b.hour = none) (F := TimeSpent) ?_ ?_ ?_ hl hh).imp fun _ _ => trivial
  · intro b hh n _
    have hminutes := tryMinutes_finds hs date n
      (pairwise_fromBound hs.minutes.ascending (b.minute.getD 0))
      (Lower.useMinute_hour.trans hh) (Lower.useMinute_minute (s := s))
    refine (hminutes.congr fun u => ?_).after fun b' _ => ⟨rfl, rfl, rfl⟩
    rw [Lower.tried_minutes_iff hs]
    grind
  · rintro b ⟨hh, hm, hsec⟩
    exact ⟨hh, fun u _ => Lower.allowsMinute_of_none hm hsec⟩
  · rintro u v ⟨⟨hu, -⟩, hminute, hsecond⟩ ⟨⟨hv, -⟩, -⟩ hlt
    have := (hs.seconds.bounds _ hsecond).2
    have := (hs.minutes.bounds _ hminute).2
    simp only [Domain.sixty] at *
    rw [Clock.seconds_eq, Clock.seconds_eq, hu, hv]
    omega

end Time

/-! ## The days of a month -/

section Days

variable {year month : Nat} {b : Lower}

/-- The search within one day. A day of the wrong weekday is one without readings. -/
def Trial.ofDay : Trial → Trial
  | .found c => .found c
  | .nothing b => .nothing b.pastDay
  | .wrongWeekday b => .nothing b

theorem tryDays_eq_loop (l : List Nat) :
    tryDays s year month b l =
      Trial.loop (fun b n => (tryHours s ⟨year, month, n⟩ (b.useHour s)
        (fromBound (b.hour.getD 0) s.hours)).ofDay) b l := by
  induction l generalizing b with
  | nil => rfl
  | cons n rest ih =>
    unfold tryDays Trial.loop Lower.useHour
    simp only
    cases tryHours s ⟨year, month, n⟩ _ (fromBound (b.hour.getD 0) s.hours) with
    | found c => rfl
    | nothing b' => exact ih
    | wrongWeekday b' => exact ih

theorem tryDays_finds (hs : s.Sound) (year month : Nat) {l : List Nat} (hl : l.Pairwise (· < ·))
    (hvalid : ∀ n ∈ l, (⟨year, month, n⟩ : Date).IsValid) :
    (tryDays s year month b l).Finds
      (fun u => (s.FitsDay u ∧ u.date.year = year ∧ u.date.month = month) ∧
        Tried l u.date.day (b.AllowsHour u))
      (fun _ => True) (fun _ => False) := by
  rw [tryDays_eq_loop]
  refine (Trial.loop_finds
    (D := fun u => s.FitsDay u ∧ u.date.year = year ∧ u.date.month = month)
    (I := fun _ => True) (F := TimeSpent) ?_ ?_ ?_ hl trivial).imp fun _ _ => trivial
  · intro b _ n hn
    have hhours := tryHours_finds hs ⟨year, month, n⟩
      (pairwise_fromBound hs.hours.ascending (b.hour.getD 0)) (Lower.useHour_hour (s := s) (b := b))
    have hsame : ∀ u, ((s.FitsDay u ∧ u.date.year = year ∧ u.date.month = month) ∧
        u.date.day = n ∧ b.AllowsHour u) ↔
        (OnDay s ⟨year, month, n⟩ u ∧ u.minute ∈ s.minutes ∧ u.second ∈ s.seconds) ∧
        Tried (fromBound (b.hour.getD 0) s.hours) u.hour ((b.useHour s).AllowsMinute u) := by
      intro u
      rw [Lower.tried_hours_iff hs]
      constructor
      · rintro ⟨⟨⟨hu, hw, ht⟩, hy, hm⟩, hd, hallow⟩
        have hdate : u.date = ⟨year, month, n⟩ := by rw [← hy, ← hm, ← hd]
        rw [hdate] at hw
        exact ⟨⟨⟨hdate, hw⟩, ht.minute, ht.second⟩, ht.hour, hallow⟩
      · rintro ⟨⟨⟨hdate, hw⟩, hm, hsec⟩, hh, hallow⟩
        have ht : s.FitsTime u := ⟨hh, hm, hsec⟩
        have hd : u.date.IsValid := by
          rw [hdate]
          exact hvalid n hn
        rw [← hdate] at hw
        refine ⟨⟨⟨ht.isValid hs hd, hw, ht⟩, ?_, ?_⟩, ?_, hallow⟩ <;> rw [hdate]
    cases hr : tryHours s ⟨year, month, n⟩ (b.useHour s) (fromBound (b.hour.getD 0) s.hours) with
    | found c =>
      rw [hr] at hhours
      exact Trial.Finds.congr (r := .found c) hhours hsame
    | nothing b' =>
      rw [hr] at hhours
      exact ⟨fun u hu => hhours.1 u ((hsame u).mp hu), rfl, rfl, rfl⟩
    | wrongWeekday b' =>
      rw [hr] at hhours
      refine ⟨fun u hu => hhours.1 ?_, hhours.2⟩
      exact ((hsame u).mp hu).1.1.2
  · rintro b ⟨hh, hm, hsec⟩
    exact ⟨trivial, fun u _ => Lower.allowsHour_of_none hh hm hsec⟩
  · rintro u v ⟨hu, hy, hm⟩ ⟨hv, hy', hm'⟩ hlt
    exact Int.le_of_lt
      (Clock.seconds_lt_of_day hu.valid hv.valid (hy.trans hy'.symm) (hm.trans hm'.symm) hlt)

end Days

/-! ## The months of a year -/

section Months

variable {year : Nat} {b : Lower}

theorem tryMonths_eq_loop (l : List Nat) :
    tryMonths s year b l =
      Trial.loop (fun b n => (tryDays s year n (b.useDay s)
        (daysFromBound s year n (b.day.getD 1))).after Lower.pastMonth) b l := by
  induction l generalizing b with
  | nil => rfl
  | cons n rest ih =>
    unfold tryMonths Trial.loop Lower.useDay
    simp only
    cases tryDays s year n _ (daysFromBound s year n (b.day.getD 1)) with
    | found c => rfl
    | nothing b' => exact ih
    | wrongWeekday b' => rfl

theorem pairwise_daysFromBound (hs : s.Sound) (year month bound : Nat) :
    (daysFromBound s year month bound).Pairwise (· < ·) :=
  hs.days.ascending.filter _

theorem isValid_of_mem_daysFromBound (hs : s.Sound) {month bound n : Nat}
    (hm : 1 ≤ month ∧ month ≤ 12) (hn : n ∈ daysFromBound s year month bound) :
    (⟨year, month, n⟩ : Date).IsValid := by
  obtain ⟨hn, hle⟩ := List.mem_filter.mp hn
  exact ⟨hm.1, hm.2, (hs.days.bounds n hn).1, (of_decide_eq_true hle).2⟩

theorem tryMonths_finds (hs : s.Sound) (year : Nat) {l : List Nat} (hl : l.Pairwise (· < ·))
    (hmonths : ∀ n ∈ l, 1 ≤ n ∧ n ≤ 12) (hb : l = [] → b = Lower.spent) :
    (tryMonths s year b l).Finds
      (fun u => (s.FitsDay u ∧ u.date.day ∈ s.days ∧ u.date.year = year) ∧
        Tried l u.date.month (b.AllowsDay s u))
      (fun b' => b' = Lower.spent) (fun _ => False) := by
  rw [tryMonths_eq_loop]
  refine (Trial.loop_finds
    (D := fun u => s.FitsDay u ∧ u.date.day ∈ s.days ∧ u.date.year = year)
    (I := fun _ => True) (F := fun b => b = Lower.spent) ?_ ?_ ?_ hl trivial).imp ?_
  · intro b _ n hn
    have hdays := tryDays_finds (b := b.useDay s) hs year n
      (pairwise_daysFromBound hs year n (b.day.getD 1))
      fun _ hday => isValid_of_mem_daysFromBound hs (hmonths n hn) hday
    refine (hdays.congr fun u => ?_).after fun b' _ => rfl
    constructor
    · rintro ⟨⟨hu, hd, hy⟩, rfl, hallow⟩
      exact ⟨⟨hu, hy, rfl⟩, (Lower.tried_days_iff hs hy hu.valid.date.2.2.2).mpr ⟨hd, hallow⟩⟩
    · rintro ⟨⟨hu, hy, rfl⟩, htried⟩
      obtain ⟨hd, hallow⟩ := (Lower.tried_days_iff hs hy hu.valid.date.2.2.2).mp htried
      exact ⟨⟨hu, hd, hy⟩, rfl, hallow⟩
  · rintro b rfl
    exact ⟨trivial, fun u hu => Lower.allowsDay_of_none rfl rfl rfl rfl hu.1.valid.date⟩
  · rintro u v ⟨hu, -, hy⟩ ⟨hv, -, hy'⟩ hlt
    exact Int.le_of_lt (Clock.seconds_lt_of_month hu.valid hv.valid (hy.trans hy'.symm) hlt)
  · rintro b' (h | ⟨hnil, rfl⟩)
    · exact h
    · exact hb hnil

end Months

/-! ## The years -/

section Years

variable {b : Lower}

/-- The search within one year, which does not end within a day. -/
def Trial.ofYear : Trial → Trial
  | .wrongWeekday b => .nothing b
  | r => r

/-- What a search has found. -/
def Trial.clock? : Trial → Option Clock
  | .found c => some c
  | _ => none

theorem tryYears_eq_loop (l : List Nat) :
    tryYears s b l =
      (Trial.loop (fun b n => (tryMonths s n (b.useMonth s)
        (fromBound (b.month.getD 1) s.months)).ofYear) b l).clock? := by
  induction l generalizing b with
  | nil => rfl
  | cons n rest ih =>
    unfold tryYears Trial.loop Lower.useMonth
    simp only
    cases tryMonths s n _ (fromBound (b.month.getD 1) s.months) with
    | found c => rfl
    | nothing b' => exact ih
    | wrongWeekday b' => exact ih

/-- If no month is left, no bounds are left either. -/
theorem useMonth_eq_spent (h : fromBound (b.month.getD 1) s.months = []) :
    b.useMonth s = Lower.spent := by
  unfold Lower.useMonth
  rw [if_neg]
  · rfl
  · intro hin
    have : b.month.getD 1 ∈ fromBound (b.month.getD 1) s.months := by simp [fromBound, hin]
    rw [h] at this
    exact absurd this List.not_mem_nil

/-- What the search finds from some bounds on, in the years that are left. -/
def Left (s : Sets) (b : Lower) (l : List Nat) (c : Clock) : Prop :=
  (s.Fits c ∧ 0 ≤ c.date.year) ∧ Tried l c.date.year.toNat (b.AllowsMonth s c)

theorem loopYears_finds (hs : s.Sound) {l : List Nat} (hl : l.Pairwise (· < ·)) :
    (Trial.loop (fun b n => (tryMonths s n (b.useMonth s)
      (fromBound (b.month.getD 1) s.months)).ofYear) b l).Finds (Left s b l)
      (fun _ => True) (fun _ => False) := by
  refine (Trial.loop_finds
    (D := fun u => s.Fits u ∧ 0 ≤ u.date.year) (k := fun u => u.date.year.toNat)
    (P := fun b u => b.AllowsMonth s u)
    (I := fun _ => True) (F := fun b => b = Lower.spent) ?_ ?_ ?_ hl trivial).imp
    fun _ _ => trivial
  · intro b _ n _
    have hmonths := tryMonths_finds (b := b.useMonth s) hs n
      (pairwise_fromBound hs.months.ascending (b.month.getD 1))
      (fun m hm => hs.months.bounds m (List.mem_filter.mp hm).1) useMonth_eq_spent
    have hsame : ∀ u, ((s.Fits u ∧ 0 ≤ u.date.year) ∧ u.date.year.toNat = n ∧
        b.AllowsMonth s u) ↔
        (s.FitsDay u ∧ u.date.day ∈ s.days ∧ u.date.year = n) ∧
        Tried (fromBound (b.month.getD 1) s.months) u.date.month
          ((b.useMonth s).AllowsDay s u) := by
      intro u
      constructor
      · rintro ⟨⟨⟨hu, hm, hd⟩, hpos⟩, hn, hallow⟩
        exact ⟨⟨hu, hd, by omega⟩, (Lower.tried_months_iff hs hu.valid.date).mpr ⟨hm, hallow⟩⟩
      · rintro ⟨⟨hu, hd, hn⟩, htried⟩
        obtain ⟨hm, hallow⟩ := (Lower.tried_months_iff hs hu.valid.date).mp htried
        exact ⟨⟨⟨hu, hm, hd⟩, by omega⟩, by omega, hallow⟩
    cases hr : tryMonths s n (b.useMonth s) (fromBound (b.month.getD 1) s.months) with
    | found c =>
      rw [hr] at hmonths
      exact Trial.Finds.congr (r := .found c) hmonths hsame
    | nothing b' =>
      rw [hr] at hmonths
      exact ⟨fun u hu => hmonths.1 u ((hsame u).mp hu), hmonths.2⟩
    | wrongWeekday b' =>
      rw [hr] at hmonths
      exact hmonths.elim
  · rintro b rfl
    exact ⟨trivial, fun u hu => Lower.allowsMonth_spent hu.1.valid.date⟩
  · rintro u v ⟨hu, hpos⟩ ⟨hv, hpos'⟩ hlt
    exact Int.le_of_lt (Clock.seconds_lt_of_year hu.valid hv.valid (by omega))

/-- **The search finds the first one of the readings that are left.** -/
theorem tryYears_eq_some (hs : s.Sound) {l : List Nat} (hl : l.Pairwise (· < ·)) {c : Clock}
    (h : tryYears s b l = some c) : IsFirst (Left s b l) c := by
  have hfinds := loopYears_finds (b := b) hs hl
  rw [tryYears_eq_loop] at h
  generalize Trial.loop _ b l = r at h hfinds
  cases r with
  | found c' =>
    cases h
    exact hfinds
  | nothing b' => cases h
  | wrongWeekday b' => cases h

/-- **The search finds nothing only if no readings are left.** -/
theorem tryYears_eq_none (hs : s.Sound) {l : List Nat} (hl : l.Pairwise (· < ·))
    (h : tryYears s b l = none) (u : Clock) : ¬ Left s b l u := by
  have hfinds := loopYears_finds (b := b) hs hl
  rw [tryYears_eq_loop] at h
  generalize Trial.loop _ b l = r at h hfinds
  cases r with
  | found c' => cases h
  | nothing b' => exact hfinds.1 u
  | wrongWeekday b' => exact hfinds.elim

end Years

end WorkflowScheduler.Cron
