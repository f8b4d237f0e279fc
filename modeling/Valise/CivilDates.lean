import Valise.Library.Calendar

/-!
The date of a day and the day of a date, on integers without bounds.
-/

namespace Valise

open Calendar

namespace CivilDates

/-- Division rounds towards zero. -/
def daysFromCivil (y : Int) (m d : Nat) : Int :=
  let y := if m ≤ 2 then y - 1 else y
  let era := (if 0 ≤ y then y else y - 399).tdiv 400
  let yoe := y - era * 400
  let doy := (153 * (if 2 < m then (m : Int) - 3 else m + 9) + 2).tdiv 5 + d - 1
  let doe := yoe * 365 + yoe.tdiv 4 - yoe.tdiv 100 + doy
  era * 146097 + doe - 719468

def civilFromDays (z : Int) : Int × Nat × Nat :=
  let z := z + 719468
  let era := (if 0 ≤ z then z else z - 146096).tdiv 146097
  let doe := z - era * 146097
  let yoe := (doe - doe.tdiv 1460 + doe.tdiv 36524 - doe.tdiv 146096).tdiv 365
  let y := yoe + era * 400
  let doy := doe - (365 * yoe + yoe.tdiv 4 - yoe.tdiv 100)
  let mp := (5 * doy + 2).tdiv 153
  -- The casts keep the low 32 bits.
  let d := ((doy - (153 * mp + 2).tdiv 5 + 1) % 2 ^ 32).toNat
  let m := ((if mp < 10 then mp + 3 else mp - 9) % 2 ^ 32).toNat
  (if m ≤ 2 then y + 1 else y, m, d)

/-! ### The parts of a day -/

/-- A day is in an era, in a year of it that begins in March, and in a month of the year. -/
structure Parts (z era : Int) (yoe k mp : Nat) : Prop where
  day : z + 719468 = era * 146097 + (yearStart yoe + k : Nat)
  inEra : yearStart yoe + k < 146097
  few : yoe < 400
  common : commonDays (yearStart yoe + k) / 365 = yoe
  inYear : k ≤ 365
  leap : k = 365 → IsLeap (yoe + 1)
  month : mp = (5 * k + 2) / 153

theorem exists_parts (z : Int) : ∃ era yoe k mp, Parts z era yoe k mp := by
  obtain ⟨era, doe, split, inside⟩ : ∃ (era : Int) (doe : Nat),
      z + 719468 = era * 146097 + doe ∧ doe < 146097 :=
    ⟨(z + 719468) / 146097, ((z + 719468) % 146097).toNat, by omega, by omega⟩
  obtain ⟨begins, ends⟩ := yearStart_le inside
  obtain ⟨k, days⟩ := Nat.exists_eq_add_of_le begins
  refine ⟨era, commonDays doe / 365, k, (5 * k + 2) / 153, ?_, ?_, commonDays_year inside, ?_, ?_, ?_,
    rfl⟩
  · rw [← days]
    exact split
  · rw [← days]
    exact inside
  · rw [← days]
  · omega
  · rintro rfl
    exact isLeap_of_last inside days

theorem tdiv_natCast (n : Nat) (divisor : Int) : (n : Int).tdiv divisor = n / divisor :=
  Int.tdiv_eq_ediv_of_nonneg (Int.natCast_nonneg n)

/-- The era of a number, although division rounds towards zero. -/
theorem tdiv_floored {y era : Int} (size : Nat) {rest : Nat} (positive : 0 < size)
    (split : y = era * size + rest) (inside : rest < size) :
    (if 0 ≤ y then y else y - (size - 1)).tdiv size = era := by
  have size' : (0 : Int) < size := Int.natCast_pos.mpr positive
  split
  · rename_i nonneg
    rw [Int.tdiv_eq_ediv_of_nonneg nonneg, split, Int.mul_comm, Int.add_comm,
      Int.add_mul_ediv_left _ _ size'.ne', Int.ediv_eq_zero_of_lt (Int.natCast_nonneg _)
        (Int.ofNat_lt.mpr inside), Int.zero_add]
  · rename_i negative
    have flipped : (y - (size - 1)).tdiv size = -((-(y - (size - 1))).tdiv size) := by
      rw [Int.neg_tdiv, Int.neg_neg]
    have spread : -(y - (size - 1)) = (size - 1 - rest) + size * -era := by
      rw [split, Int.mul_neg, Int.mul_comm era]
      omega
    rw [flipped, Int.tdiv_eq_ediv_of_nonneg (by omega), spread,
      Int.add_mul_ediv_left _ _ size'.ne', Int.ediv_eq_zero_of_lt (by omega) (by omega), Int.zero_add,
      Int.neg_neg]

variable {z era : Int} {yoe k mp : Nat}

/-! The months of a year that begins in March. -/

def monthOf (mp : Nat) : Nat := if mp < 10 then mp + 3 else mp - 9

def dayOf (k mp : Nat) : Nat := k - (153 * mp + 2) / 5 + 1

def yearOf (era : Int) (yoe mp : Nat) : Int :=
  yoe + era * 400 + if monthOf mp ≤ 2 then 1 else 0

theorem Parts.months (parts : Parts z era yoe k mp) :
    mp < 12 ∧ 153 * mp ≤ 5 * k + 2 ∧ 5 * k + 2 < 153 * mp + 153 := by
  have inYear := parts.inYear
  have month := parts.month
  omega

theorem monthOf_bounds (inside : mp < 12) : 1 ≤ monthOf mp ∧ monthOf mp ≤ 12 := by
  unfold monthOf
  split <;> omega

theorem Parts.day_le (parts : Parts z era yoe k mp) :
    dayOf k mp ≤ monthLength (yearOf era yoe mp) (monthOf mp) := by
  obtain ⟨inside, low, high⟩ := parts.months
  by_cases february : mp = 11
  · subst february
    have inYear := parts.inYear
    have second : monthOf 11 = 2 := rfl
    rw [second, dayOf, monthLength, if_pos rfl]
    split
    · omega
    · rename_i short
      have before : k ≠ 365 := fun last => short (by
        have leap := parts.leap last
        unfold IsLeap yearOf at *
        rw [second, if_pos (Nat.le_refl 2)]
        omega)
      omega
  · unfold dayOf
    interval_cases mp
    all_goals first | exact absurd rfl february | (simp [monthOf, monthLength]; omega)

/-- The date of a day. -/
def Parts.date (parts : Parts z era yoe k mp) : Date where
  year := yearOf era yoe mp
  month := monthOf mp
  day := dayOf k mp
  month_pos := (monthOf_bounds parts.months.1).1
  month_le := (monthOf_bounds parts.months.1).2
  day_pos := Nat.succ_pos _
  day_le := parts.day_le

theorem Parts.number (parts : Parts z era yoe k mp) : parts.date.number = z := by
  obtain ⟨inside, low, high⟩ := parts.months
  have day := parts.day
  have few := parts.few
  have march : marchYear (yearOf era yoe mp) (monthOf mp) = yoe + era * 400 := by
    unfold marchYear yearOf
    split <;> split <;> omega
  have month : marchMonth (monthOf mp) = mp := by
    unfold marchMonth monthOf
    split <;> split <;> omega
  have eras : (yoe + era * 400) / 400 = era := by omega
  have within : (yoe + era * 400) % 400 = yoe := by omega
  have inMonth : dayOfYear (monthOf mp) (dayOf k mp) = k := by
    rw [dayOfYear, month, dayOf]
    omega
  rw [Date.number, Parts.date, dayNumber_era, march, eras, within, inMonth]
  rw [Nat.cast_add, yearStart_cast] at day
  omega

/-! ### The conversions -/

theorem Parts.era_eq (parts : Parts z era yoe k mp) :
    (if 0 ≤ z + 719468 then z + 719468 else z + 719468 - 146096).tdiv 146097 = era :=
  tdiv_floored 146097 (by decide) parts.day parts.inEra

theorem Parts.year_eq (parts : Parts z era yoe k mp) :
    (commonDays (yearStart yoe + k) : Int).tdiv 365 = yoe := by
  rw [tdiv_natCast]
  exact congrArg Nat.cast parts.common

theorem Parts.month_eq (parts : Parts z era yoe k mp) :
    ((5 * k + 2 : Nat) : Int).tdiv 153 = mp := by
  rw [tdiv_natCast, parts.month]
  rfl

theorem civilFromDays_eq (parts : Parts z era yoe k mp) :
    civilFromDays z = (parts.date.year, parts.date.month, parts.date.day) := by
  obtain ⟨inside, low, high⟩ := parts.months
  have rest : z + 719468 - era * 146097 = (yearStart yoe + k : Nat) := by
    have day := parts.day
    omega
  have common : ((yearStart yoe + k : Nat) : Int) - ((yearStart yoe + k : Nat) : Int).tdiv 1460 +
      ((yearStart yoe + k : Nat) : Int).tdiv 36524 - ((yearStart yoe + k : Nat) : Int).tdiv 146096 =
        commonDays (yearStart yoe + k) := by
    rw [commonDays_cast, tdiv_natCast, tdiv_natCast, tdiv_natCast]
  have ofYear : ((yearStart yoe + k : Nat) : Int) -
      (365 * yoe + (yoe : Int).tdiv 4 - (yoe : Int).tdiv 100) = k := by
    rw [tdiv_natCast, tdiv_natCast, ← yearStart_cast]
    omega
  have fifths : (5 * (k : Int) + 2) = (5 * k + 2 : Nat) := rfl
  have scaled : (153 * (mp : Int) + 2) = (153 * mp + 2 : Nat) := rfl
  have day : (((k : Int) - ((153 * mp + 2 : Nat) : Int) / (5 : Nat) + 1) % 2 ^ 32).toNat =
      dayOf k mp := by
    have inYear := parts.inYear
    unfold dayOf
    omega
  have month : ((if (mp : Int) < 10 then (mp : Int) + 3 else mp - 9) % 2 ^ 32).toNat =
      monthOf mp := by
    unfold monthOf
    split <;> split <;> omega
  unfold civilFromDays
  dsimp only
  rw [parts.era_eq, rest, common, parts.year_eq, ofYear, fifths, parts.month_eq, scaled,
    tdiv_natCast _ 5]
  refine Prod.ext ?_ (Prod.ext month day)
  rw [month]
  unfold Parts.date yearOf
  split
  · rfl
  · exact (Int.add_zero _).symm

theorem daysFromCivil_eq (y : Int) (m d : Nat) : daysFromCivil y m d = dayNumber y m d := by
  have march : (if m ≤ 2 then y - 1 else y) = marchYear y m := by
    unfold marchYear
    split <;> split <;> omega
  have month : (if 2 < m then (m : Int) - 3 else m + 9) = marchMonth m := by
    unfold marchMonth
    split <;> split <;> omega
  obtain ⟨months, monthIs⟩ : ∃ months : Nat, (months : Int) = marchMonth m := by
    unfold marchMonth
    split
    · exact ⟨m - 3, by omega⟩
    · exact ⟨m + 9, by omega⟩
  obtain ⟨yoe, yoeIs⟩ : ∃ yoe : Nat, (yoe : Int) = marchYear y m % 400 :=
    ⟨(marchYear y m % 400).toNat, by omega⟩
  have split : marchYear y m = marchYear y m / 400 * 400 + yoe := by omega
  have era : (if 0 ≤ marchYear y m then marchYear y m else marchYear y m - 399).tdiv 400 =
      marchYear y m / 400 :=
    tdiv_floored 400 (by decide) split (by omega)
  have inEra : marchYear y m - marchYear y m / 400 * 400 = yoe := by omega
  have scaled : 153 * (months : Int) + 2 = (153 * months + 2 : Nat) := rfl
  unfold daysFromCivil
  dsimp only
  rw [march, month, era, inEra, ← monthIs, scaled, tdiv_natCast, tdiv_natCast, tdiv_natCast,
    dayNumber_era, dayOfYear, ← monthIs, ← yoeIs, ← scaled]

/-- The conversions are inverse to each other, between all days and all dates, and later dates have
larger day numbers. -/
theorem civil_bijective :
    (∀ z, ∃ date : Date, civilFromDays z = (date.year, date.month, date.day) ∧
      daysFromCivil date.year date.month date.day = z) ∧
    (∀ date : Date, civilFromDays (daysFromCivil date.year date.month date.day) =
      (date.year, date.month, date.day)) ∧
    ∀ first second : Date, daysFromCivil first.year first.month first.day <
      daysFromCivil second.year second.month second.day ↔ first.Before second := by
  have number (date : Date) : daysFromCivil date.year date.month date.day = date.number :=
    daysFromCivil_eq _ _ _
  refine ⟨fun z => ?_, fun date => ?_, fun first second => ?_⟩
  · obtain ⟨era, yoe, k, mp, parts⟩ := exists_parts z
    exact ⟨parts.date, civilFromDays_eq parts, (number _).trans parts.number⟩
  · rw [number]
    obtain ⟨era, yoe, k, mp, parts⟩ := exists_parts date.number
    rw [civilFromDays_eq parts, Date.number_injective parts.number]
  · rw [number, number]
    exact Date.number_lt_iff

example : civilFromDays 19782 = (2024, 2, 29) := by decide

end CivilDates

end Valise
