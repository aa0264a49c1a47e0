/-!
# Dates

Dates of the Gregorian calendar, extended to all years, and the number of days from
1970-01-01. Year 0 is the year before year 1.

## Main definitions

* `Date`: a year, a month from 1 and a day from 1
* `Date.dayNumber`: the days from 1970-01-01
* `Date.ofDayNumber`: the date with a given day number
* `Date.weekday`: 1 for Sunday to 7 for Saturday
-/

namespace WorkflowScheduler

/-- A year, a month from 1 and a day of the month from 1. -/
structure Date where
  year : Int
  month : Nat
  day : Nat
  deriving DecidableEq, Repr

namespace Date

/-- Every fourth year is a leap year, but of the full centuries only every fourth. -/
def isLeapYear (year : Int) : Bool :=
  year % 4 == 0 && (year % 100 != 0 || year % 400 == 0)

/-- The number of days of a month. -/
def monthLength (year : Int) (month : Nat) : Nat :=
  if month = 2 then (if isLeapYear year then 29 else 28)
  else if month = 4 ∨ month = 6 ∨ month = 9 ∨ month = 11 then 30
  else 31

/-- The twelve months. -/
def months : List Nat := [1, 2, 3, 4, 5, 6, 7, 8, 9, 10, 11, 12]

/-- The days from the first of January of year 1 to 1970-01-01. -/
def epochDay : Int := 719162

/-- The day number of the first of January: 365 days a year and one more for each leap year. -/
def yearStart (year : Int) : Int :=
  let past := year - 1
  365 * past + past / 4 - past / 100 + past / 400 - epochDay

/-- The days of the year before the first of a month. -/
def monthStart (year : Int) (month : Nat) : Nat :=
  (months.filter (· < month)).foldl (fun n m => n + monthLength year m) 0

/-- **The days from 1970-01-01 to a date.** -/
def dayNumber (d : Date) : Int :=
  yearStart d.year + monthStart d.year d.month + ((d.day : Int) - 1)

/-- Whether month and day exist. -/
def IsValid (d : Date) : Prop :=
  1 ≤ d.month ∧ d.month ≤ 12 ∧ 1 ≤ d.day ∧ d.day ≤ monthLength d.year d.month

instance (d : Date) : Decidable d.IsValid :=
  inferInstanceAs (Decidable (_ ∧ _ ∧ _ ∧ _))

/-- The year of a day: whole cycles of 400, 100, 4 and 1 years, where the last century of a cycle
and the last year of a leap cycle are one day longer than the others. -/
def yearOf (dayNumber : Int) : Int :=
  let day := dayNumber + epochDay
  let cycle := day % 146097
  let century := min (cycle / 36524) 3
  let inCentury := cycle - 36524 * century
  let leap := inCentury / 1461
  let inLeap := inCentury % 1461
  let single := min (inLeap / 365) 3
  400 * (day / 146097) + 100 * century + 4 * leap + single + 1

/-- The month and day of the month on the day `rest` days after the first of the first month of
`ms`. -/
def monthAndDay (year : Int) (rest : Nat) : List Nat → Nat × Nat
  | [] => (12, rest + 1)
  | m :: ms =>
    if rest < monthLength year m then (m, rest + 1)
    else monthAndDay year (rest - monthLength year m) ms

/-- **The date with a given day number.** -/
def ofDayNumber (n : Int) : Date :=
  let year := yearOf n
  let md := monthAndDay year (n - yearStart year).toNat months
  ⟨year, md.1, md.2⟩

/-- The day of the week: 1 for Sunday to 7 for Saturday; 1970-01-01 was a Thursday. -/
def weekday (d : Date) : Nat :=
  ((d.dayNumber + 4) % 7).toNat + 1

end Date

end WorkflowScheduler
