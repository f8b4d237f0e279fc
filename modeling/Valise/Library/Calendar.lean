import Valise.Library.Numerals

/-!
The proleptic Gregorian calendar: how many days lie between the first of January 1970 and a date.
Months and days may run over; a month beyond December counts on from March.
-/

namespace Calendar

/-- Years begin in March, so that a leap day is the last day of its year. -/
def marchYear (year month : Int) : Int := if month ≤ 2 then year - 1 else year

def marchMonth (month : Int) : Int := if 2 < month then month - 3 else month + 9

def leapDays (year : Int) : Int := year / 4 - year / 100 + year / 400

def dayOfYear (month day : Int) : Int := (153 * marchMonth month + 2) / 5 + day - 1

def dayNumber (year month day : Int) : Int :=
  365 * marchYear year month + leapDays (marchYear year month) + dayOfYear month day - 719468

theorem leapDays_era (year : Int) :
    leapDays year = 97 * (year / 400) + (year % 400) / 4 - (year % 400) / 100 := by
  unfold leapDays
  omega

/-- The days of a year of an era, with its leap days. -/
theorem dayNumber_era (year month day : Int) : dayNumber year month day =
    marchYear year month / 400 * 146097 +
      (marchYear year month % 400 * 365 + marchYear year month % 400 / 4 -
        marchYear year month % 400 / 100 + dayOfYear month day) - 719468 := by
  rw [dayNumber, leapDays_era]
  omega

/-! ### The year of a day -/

/-- The days of an era without its leap days. -/
def commonDays (day : Nat) : Nat := day - day / 1460 + day / 36524 - day / 146096

/-- How many days of an era are before a year of it. -/
def yearStart (year : Nat) : Nat := 365 * year + year / 4 - year / 100

theorem commonDays_cast (day : Nat) :
    (commonDays day : Int) = day - day / 1460 + day / 36524 - day / 146096 := by
  unfold commonDays
  omega

theorem yearStart_cast (year : Nat) :
    (yearStart year : Int) = 365 * year + year / 4 - year / 100 := by
  unfold yearStart
  omega

theorem commonDays_year {day : Nat} (inside : day < 146097) : commonDays day / 365 < 400 := by
  unfold commonDays
  omega

theorem commonDays_mono {first second : Nat} (before : first ≤ second) (inside : second < 146097) :
    commonDays first ≤ commonDays second := by
  induction before with
  | refl => exact Nat.le_refl _
  | @step day _ ih =>
      have step : commonDays day ≤ commonDays (day + 1) := by
        unfold commonDays
        omega
      exact Nat.le_trans (ih (by omega)) step

/-- The last day before a year has fewer common days than the years before. -/
theorem commonDays_start : ∀ year : Fin 400, year.1 = 0 ∨
    commonDays (yearStart year.1 - 1) < 365 * year.1 := by
  decide +kernel

/-- The days after a year have as many as the years up to it. -/
theorem commonDays_end : ∀ year : Fin 400, 146097 ≤ yearStart year.1 + 366 ∨
    365 * (year.1 + 1) ≤ commonDays (yearStart year.1 + 366) := by
  decide +kernel

/-- A day is in the year that its common days say. -/
theorem yearStart_le {day : Nat} (inside : day < 146097) :
    yearStart (commonDays day / 365) ≤ day ∧ day ≤ yearStart (commonDays day / 365) + 365 := by
  have bound := commonDays_year inside
  refine ⟨?_, ?_⟩
  · by_contra later
    have least := Nat.div_mul_le_self (commonDays day) 365
    rcases commonDays_start ⟨_, bound⟩ with first | fewer
    · have zero : commonDays day / 365 = 0 := first
      rw [zero] at later
      exact later (Nat.zero_le _)
    · have most := @commonDays_mono day (yearStart (commonDays day / 365) - 1) (by omega) (by
        unfold yearStart
        omega)
      dsimp only at fewer
      omega
  · by_contra later
    have above := Nat.lt_mul_div_succ (commonDays day) (show 0 < 365 by decide)
    rcases commonDays_end ⟨_, bound⟩ with last | more
    · dsimp only at last
      omega
    · have most := @commonDays_mono (yearStart (commonDays day / 365) + 366) day (by omega) inside
      dsimp only at more
      omega

/-! ### Dates -/

def IsLeap (year : Int) : Prop := year % 4 = 0 ∧ (year % 100 ≠ 0 ∨ year % 400 = 0)

instance (year : Int) : Decidable (IsLeap year) := inferInstanceAs (Decidable (_ ∧ _))

def monthLength (year : Int) (month : Nat) : Nat :=
  if month = 2 then if IsLeap year then 29 else 28
  else if month = 4 ∨ month = 6 ∨ month = 9 ∨ month = 11 then 30 else 31

structure Date where
  year : Int
  month : Nat
  day : Nat
  month_pos : 1 ≤ month
  month_le : month ≤ 12
  day_pos : 1 ≤ day
  day_le : day ≤ monthLength year month

namespace Date

/-- Years first, then months, then days. -/
def Before (first second : Date) : Prop :=
  first.year < second.year ∨ first.year = second.year ∧
    (first.month < second.month ∨ first.month = second.month ∧ first.day < second.day)

def number (date : Date) : Int := dayNumber date.year date.month date.day

end Date

/-- The number of the first day of a month. -/
def monthStart (year : Int) (month : Nat) : Int := dayNumber year month 1

theorem dayNumber_day (year day : Int) (month : Nat) :
    dayNumber year month day = monthStart year month + day - 1 := by
  unfold monthStart dayNumber dayOfYear
  omega

/-- A leap day is the last day of its year. -/
theorem monthStart_march (year : Int) :
    monthStart year 3 = monthStart year 2 + monthLength year 2 := by
  have leap : leapDays year - leapDays (year - 1) = if IsLeap year then 1 else 0 := by
    unfold leapDays
    by_cases leap : IsLeap year
    · rw [if_pos leap]
      unfold IsLeap at leap
      omega
    · rw [if_neg leap]
      unfold IsLeap at leap
      omega
  have length : (monthLength year 2 : Int) = 28 + if IsLeap year then 1 else 0 := by
    by_cases leap : IsLeap year <;> simp [monthLength, leap]
  have second : monthStart year 2 = 365 * (year - 1) + leapDays (year - 1) + 337 - 719468 := rfl
  have third : monthStart year 3 = 365 * year + leapDays year + 0 - 719468 := rfl
  omega

/-- A month begins the day after the month before ends. -/
theorem monthStart_succ (year : Int) {month : Nat} (positive : 1 ≤ month) (last : month < 12) :
    monthStart year (month + 1) = monthStart year month + monthLength year month := by
  by_cases february : month = 2
  · subst february
    exact monthStart_march year
  · have years : marchYear year (month + 1 : Nat) = marchYear year month := by
      unfold marchYear
      split <;> split <;> omega
    have days : dayOfYear (month + 1 : Nat) 1 = dayOfYear month 1 + monthLength year month := by
      interval_cases month <;> first | rfl | exact absurd rfl february
    rw [monthStart, monthStart, dayNumber, dayNumber, years, days]
    omega

theorem monthStart_newYear (year : Int) : monthStart (year + 1) 1 = monthStart year 12 + 31 := by
  have last : monthStart year 12 = 365 * year + leapDays year + 275 - 719468 := rfl
  have first : monthStart (year + 1) 1 =
      365 * (year + 1 - 1) + leapDays (year + 1 - 1) + 306 - 719468 := rfl
  rw [Int.add_sub_cancel] at first
  omega

/-- A year of an era that does not end with a leap day has 365 days. -/
theorem commonDays_short : ∀ year : Fin 400, IsLeap (year.1 + 1) ∨
    365 * (year.1 + 1) ≤ commonDays (yearStart year.1 + 365) := by
  decide +kernel

/-- The 366th day of a year is a leap day. -/
theorem isLeap_of_last {day : Nat} (inside : day < 146097)
    (last : day = yearStart (commonDays day / 365) + 365) :
    IsLeap ((commonDays day / 365 : Nat) + 1) := by
  rcases commonDays_short ⟨_, commonDays_year inside⟩ with leap | more
  · exact leap
  · have below := Nat.lt_mul_div_succ (commonDays day) (show 0 < 365 by decide)
    rw [← last] at more
    exact absurd more (Nat.not_le.mpr below)

theorem monthLength_bounds (year : Int) (month : Nat) :
    28 ≤ monthLength year month ∧ monthLength year month ≤ 31 := by
  unfold monthLength
  split_ifs <;> omega

theorem monthStart_le (year : Int) {first second : Nat} (positive : 1 ≤ first)
    (before : first ≤ second) (last : second ≤ 12) :
    monthStart year first ≤ monthStart year second := by
  induction before with
  | refl => exact Int.le_refl _
  | @step month before ih =>
      have next := monthStart_succ year (Nat.le_trans positive before) last
      have sofar := ih (Nat.le_of_succ_le last)
      rw [Nat.succ_eq_add_one]
      omega

theorem newYear_le {first second : Int} (before : first ≤ second) :
    monthStart first 1 ≤ monthStart second 1 := by
  induction second, before using Int.leInduction with
  | base => exact Int.le_refl _
  | succ year _ ih =>
      have whole := monthStart_le year (le_refl 1) (Nat.le_of_lt (by decide)) (le_refl 12)
      have next := monthStart_newYear year
      omega

/-- A month ends before every later month. -/
theorem monthEnd_le {year later : Int} {month next : Nat} (positive : 1 ≤ month)
    (valid : month ≤ 12) (positive' : 1 ≤ next) (valid' : next ≤ 12)
    (before : year < later ∨ year = later ∧ month < next) :
    monthStart year month + monthLength year month ≤ monthStart later next := by
  rcases before with years | ⟨rfl, months⟩
  · have start := newYear_le (Int.add_one_le_of_lt years)
    have first := monthStart_le later (le_refl 1) positive' valid'
    rw [monthStart_newYear] at start
    rcases Nat.lt_or_eq_of_le valid with within | rfl
    · have next := monthStart_succ year positive within
      have last := monthStart_le year (Nat.le_add_left 1 month) within (le_refl 12)
      omega
    · have bound := (monthLength_bounds year 12).2
      omega
  · have next := monthStart_succ year positive (Nat.lt_of_lt_of_le months valid')
    have later := monthStart_le year (Nat.le_add_left 1 month) months valid'
    omega

namespace Date

variable {first second : Date}

/-- The days of a month are before the next month. -/
theorem number_bounds (date : Date) :
    monthStart date.year date.month ≤ date.number ∧
      date.number < monthStart date.year date.month + monthLength date.year date.month := by
  have positive := date.day_pos
  have least := date.day_le
  rw [number, dayNumber_day]
  omega

/-- The days of a month are in no other month. -/
theorem same_month (low : monthStart first.year first.month ≤ second.number)
    (high : second.number <
      monthStart first.year first.month + monthLength first.year first.month) :
    second.year = first.year ∧ second.month = first.month := by
  obtain ⟨starts, ends⟩ := second.number_bounds
  have notBefore : ¬(second.year < first.year ∨
      second.year = first.year ∧ second.month < first.month) := by
    intro before
    have below := monthEnd_le second.month_pos second.month_le first.month_pos first.month_le before
    omega
  have notAfter : ¬(first.year < second.year ∨
      first.year = second.year ∧ first.month < second.month) := by
    intro after
    have above := monthEnd_le first.month_pos first.month_le second.month_pos second.month_le after
    omega
  omega

theorem number_lt_year (date : Date) :
    monthStart date.year 1 ≤ date.number ∧ date.number < monthStart (date.year + 1) 1 := by
  obtain ⟨low, high⟩ := date.number_bounds
  have start := monthStart_le date.year (le_refl 1) date.month_pos date.month_le
  refine ⟨start.trans low, ?_⟩
  rw [monthStart_newYear]
  rcases Nat.lt_or_eq_of_le date.month_le with within | last
  · have next := monthStart_succ date.year date.month_pos within
    have later := monthStart_le date.year (Nat.le_add_left 1 date.month) within (le_refl 12)
    omega
  · have bound := (monthLength_bounds date.year date.month).2
    rw [last] at high bound
    omega

/-- Later dates have larger numbers. -/
theorem number_lt (before : first.Before second) : first.number < second.number := by
  rcases before with year | ⟨year, month | ⟨month, day⟩⟩
  · have start := newYear_le (Int.add_one_le_of_lt year)
    have below := first.number_lt_year.2
    have above := second.number_lt_year.1
    omega
  · have next := monthStart_succ first.year first.month_pos
      (Nat.lt_of_lt_of_le month second.month_le)
    have start := monthStart_le first.year (Nat.le_add_left 1 first.month) month second.month_le
    have below := first.number_bounds.2
    have above := second.number_bounds.1
    rw [← year] at above
    omega
  · rw [number, number, dayNumber_day, dayNumber_day, year, month]
    omega

theorem before_or (first second : Date) :
    first.Before second ∨ second.Before first ∨ first = second := by
  rcases lt_trichotomy first.year second.year with year | year | year
  · exact .inl (.inl year)
  · rcases lt_trichotomy first.month second.month with month | month | month
    · exact .inl (.inr ⟨year, .inl month⟩)
    · rcases lt_trichotomy first.day second.day with day | day | day
      · exact .inl (.inr ⟨year, .inr ⟨month, day⟩⟩)
      · refine .inr (.inr ?_)
        cases first
        cases second
        simp_all
      · exact .inr (.inl (.inr ⟨year.symm, .inr ⟨month.symm, day⟩⟩))
    · exact .inr (.inl (.inr ⟨year.symm, .inl month⟩))
  · exact .inr (.inl (.inl year))

theorem number_injective : Function.Injective number := by
  intro first second same
  rcases before_or first second with before | after | equal
  · exact absurd same (number_lt before).ne
  · exact absurd same (number_lt after).ne'
  · exact equal

theorem number_lt_iff : first.number < second.number ↔ first.Before second := by
  refine ⟨fun less => ?_, number_lt⟩
  rcases before_or first second with before | after | equal
  · exact before
  · exact absurd (number_lt after) less.not_gt
  · rw [equal] at less
    exact absurd less (lt_irrefl _)

end Date

end Calendar
