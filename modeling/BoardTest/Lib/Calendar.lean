import Mathlib.Tactic.IntervalCases

/-!
# The calendar

Dates of the Gregorian calendar, which is taken to hold in all years, and the days that they are
counted by from 1 January 1970 on. Every day is that of one valid date (`valid_ofDays`,
`dayNumber_ofDays`).
-/

namespace BoardTest.Calendar

def isLeap (year : Int) : Bool := year % 4 = 0 ∧ (year % 100 ≠ 0 ∨ year % 400 = 0)

/-- The days from 1 January of the year 1 to that of the year given. -/
def daysBeforeYear (year : Int) : Int :=
  365 * (year - 1) + (year - 1) / 4 - (year - 1) / 100 + (year - 1) / 400

/-- The days of a year in front of its month. -/
def daysBeforeMonth (leap : Bool) (month : Nat) : Nat :=
  match month with
  | 0 | 1 => 0
  | 2 => 31
  | 3 => 59 + leap.toNat
  | 4 => 90 + leap.toNat
  | 5 => 120 + leap.toNat
  | 6 => 151 + leap.toNat
  | 7 => 181 + leap.toNat
  | 8 => 212 + leap.toNat
  | 9 => 243 + leap.toNat
  | 10 => 273 + leap.toNat
  | 11 => 304 + leap.toNat
  | 12 => 334 + leap.toNat
  | _ => 365 + leap.toNat

structure Date where
  year : Int
  month : Nat
  day : Nat

def daysInMonth (leap : Bool) (month : Nat) : Nat :=
  match month with
  | 2 => 28 + leap.toNat
  | 4 | 6 | 9 | 11 => 30
  | _ => 31

/-- A date that the calendar has. -/
def Date.Valid (d : Date) : Prop :=
  (1 ≤ d.month ∧ d.month ≤ 12) ∧ 1 ≤ d.day ∧ d.day ≤ daysInMonth (isLeap d.year) d.month

instance (d : Date) : Decidable d.Valid :=
  inferInstanceAs (Decidable (_ ∧ _))

/-- The days from 1 January 1970 to a date. -/
def Date.dayNumber (d : Date) : Int :=
  daysBeforeYear d.year + daysBeforeMonth (isLeap d.year) d.month + d.day - 719163

/-- The greatest month up to `month` that begins on the day or before. -/
def monthOf (leap : Bool) (yday : Nat) : Nat → Nat
  | 0 => 1
  | month + 1 =>
    if daysBeforeMonth leap (month + 1) ≤ yday then month + 1 else monthOf leap yday month

/-- The year of a day and the day of that year, both counted from 0, with the day counted from
1 January of the year 1: periods of 400, 100 and 4 years, of which the last may be longer. -/
def yearOf (n : Int) : Int × Nat :=
  let r₄₀₀ := (n % 146097).toNat
  let centuries := min (r₄₀₀ / 36524) 3
  let r₁₀₀ := r₄₀₀ - centuries * 36524
  let r₄ := r₁₀₀ % 1461
  let years := min (r₄ / 365) 3
  (400 * (n / 146097) + (100 * centuries + 4 * (r₁₀₀ / 1461) + years : Nat), r₄ - years * 365)

/-- The date of a day. -/
def ofDays (n : Int) : Date :=
  let year := (yearOf (n + 719162)).1 + 1
  let yday := (yearOf (n + 719162)).2
  let month := monthOf (isLeap year) yday 12
  ⟨year, month, yday - daysBeforeMonth (isLeap year) month + 1⟩

/-- The months follow each other, with the days that each has. -/
theorem daysBeforeMonth_succ {month : Nat} (leap : Bool) (h : 1 ≤ month) (h' : month ≤ 12) :
    daysBeforeMonth leap (month + 1) = daysBeforeMonth leap month + daysInMonth leap month := by
  cases leap <;> interval_cases month <;> rfl

theorem daysBeforeYear_eq {periods centuries quads years : Int}
    (hc : 0 ≤ centuries ∧ centuries ≤ 3) (hq : 0 ≤ quads ∧ quads ≤ 24)
    (hy : 0 ≤ years ∧ years ≤ 3) :
    daysBeforeYear (400 * periods + (100 * centuries + 4 * quads + years) + 1) =
      146097 * periods + 36524 * centuries + 1461 * quads + 365 * years := by
  unfold daysBeforeYear
  rw [Int.add_sub_cancel]
  have h₄ : (400 * periods + (100 * centuries + 4 * quads + years)) / 4 =
      100 * periods + 25 * centuries + quads := by omega
  have h₁₀₀ : (400 * periods + (100 * centuries + 4 * quads + years)) / 100 =
      4 * periods + centuries := by omega
  have h₄₀₀ : (400 * periods + (100 * centuries + 4 * quads + years)) / 400 = periods := by omega
  rw [h₄, h₁₀₀, h₄₀₀]
  omega

/-- The last year of four is a leap year, unless it is the last of a century and not of the four
centuries. -/
theorem isLeap_of_last {periods centuries quads : Int} (hq : 0 ≤ quads ∧ quads ≤ 24)
    (h : quads = 24 → centuries = 3) :
    isLeap (400 * periods + (100 * centuries + 4 * quads + 3) + 1) = true := by
  rw [isLeap, decide_eq_true_eq]
  omega

/-- The day comes out of its year and the day of the year, which has that many days. -/
theorem yearOf_spec (n : Int) :
    daysBeforeYear ((yearOf n).1 + 1) + (yearOf n).2 = n ∧
      (yearOf n).2 < daysBeforeMonth (isLeap ((yearOf n).1 + 1)) 13 := by
  obtain ⟨r₄₀₀, hr₄₀₀⟩ : ∃ r, r = (n % 146097).toNat := ⟨_, rfl⟩
  obtain ⟨centuries, hcenturies⟩ : ∃ c, c = min (r₄₀₀ / 36524) 3 := ⟨_, rfl⟩
  obtain ⟨r₁₀₀, hr₁₀₀⟩ : ∃ r, r = r₄₀₀ - centuries * 36524 := ⟨_, rfl⟩
  obtain ⟨years, hyears⟩ : ∃ y, y = min (r₁₀₀ % 1461 / 365) 3 := ⟨_, rfl⟩
  have hyearOf : yearOf n = (400 * (n / 146097) +
      (100 * centuries + 4 * (r₁₀₀ / 1461) + years : Nat), r₁₀₀ % 1461 - years * 365) := by
    rw [hyears, hr₁₀₀, hcenturies, hr₄₀₀]
    rfl
  have hc : centuries ≤ 3 := by omega
  have hq : r₁₀₀ / 1461 ≤ 24 := by omega
  have hy : years ≤ 3 := by omega
  rw [hyearOf]
  push_cast
  constructor
  · rw [daysBeforeYear_eq (by omega) (by omega) (by omega)]
    omega
  · have hdays : ∀ leap, daysBeforeMonth leap 13 = 365 + leap.toNat := fun _ => rfl
    rw [hdays]
    by_cases hlast : r₁₀₀ % 1461 - years * 365 < 365
    · omega
    · -- the day behind the 365th is the last of a longer period
      have hthree : years = 3 := by omega
      rw [hthree]
      push_cast
      rw [isLeap_of_last (by omega) (by omega), Bool.toNat_true]
      omega

theorem monthOf_spec {leap : Bool} {yday month : Nat} (hmonth : month ≤ 12)
    (h : yday < daysBeforeMonth leap (month + 1)) :
    (1 ≤ monthOf leap yday month ∧ monthOf leap yday month ≤ 12) ∧
      daysBeforeMonth leap (monthOf leap yday month) ≤ yday ∧
      yday < daysBeforeMonth leap (monthOf leap yday month + 1) := by
  induction month with
  | zero => exact absurd h (Nat.not_lt_zero yday)
  | succ month ih =>
    unfold monthOf
    split
    · rename_i hle
      exact ⟨⟨by omega, hmonth⟩, hle, h⟩
    · rename_i hlt
      exact ih (by omega) (by omega)

/-- Every day has a date of the calendar. -/
theorem valid_ofDays (n : Int) : (ofDays n).Valid := by
  obtain ⟨hmonth, hle, hlt⟩ := monthOf_spec le_rfl (yearOf_spec (n + 719162)).2
  rw [daysBeforeMonth_succ _ hmonth.1 hmonth.2] at hlt
  refine ⟨hmonth, Nat.le_add_left 1 _, ?_⟩
  unfold ofDays
  dsimp only
  omega

/-- The date of a day is the date of that day only. -/
theorem dayNumber_ofDays (n : Int) : (ofDays n).dayNumber = n := by
  obtain ⟨hyear, hyday⟩ := yearOf_spec (n + 719162)
  obtain ⟨-, hle, -⟩ := monthOf_spec le_rfl hyday
  unfold Date.dayNumber ofDays
  dsimp only
  omega

end BoardTest.Calendar
