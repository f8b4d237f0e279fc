import Valise.CivilDates
import Valise.Engine
import Valise.IndexMirrors
import Valise.Library.MachineInts

/-!
Partitions by day and by month: the collection that a record is routed to, the period that the name
of a partition says, and the partitions that a window shows or a cutoff forgets. Every operation of
the source on machine integers is checked.
-/

namespace Valise

open Calendar CivilDates Commands Command MachineInts Outcomes

namespace Partitions

abbrev Arith (α : Type) := Checked Error α

/-! ### Civil dates -/

/-- Division of machine integers rounds towards zero. -/
def daysFromCivil (y : Int) (m d : Nat) : Arith Int := do
  let y ← if m ≤ 2 then i64 (y - 1) else .ok y
  let era := (← if 0 ≤ y then .ok y else i64 (y - 399)).tdiv 400
  let whole ← i64 (era * 400)
  let yoe ← i64 (y - whole)
  let months ← if 2 < m then i64 (m - 3) else i64 (m + 9)
  let scaled ← i64 (153 * months)
  let raised ← i64 (scaled + 2)
  let upToDay ← i64 (raised.tdiv 5 + d)
  let doy ← i64 (upToDay - 1)
  let years ← i64 (yoe * 365)
  let leaps ← i64 (years + yoe.tdiv 4)
  let centuries ← i64 (leaps - yoe.tdiv 100)
  let doe ← i64 (centuries + doy)
  let eras ← i64 (era * 146097)
  let sum ← i64 (eras + doe)
  i64 (sum - 719468)

def civilFromDays (z : Int) : Arith (Int × Nat × Nat) := do
  let z ← i64 (z + 719468)
  let era := (← if 0 ≤ z then .ok z else i64 (z - 146096)).tdiv 146097
  let whole ← i64 (era * 146097)
  let doe ← i64 (z - whole)
  let noLeaps ← i64 (doe - doe.tdiv 1460)
  let centuries ← i64 (noLeaps + doe.tdiv 36524)
  let years ← i64 (centuries - doe.tdiv 146096)
  let yoe := years.tdiv 365
  let eraYears ← i64 (era * 400)
  let y ← i64 (yoe + eraYears)
  let common ← i64 (365 * yoe)
  let leaps ← i64 (common + yoe.tdiv 4)
  let yearDays ← i64 (leaps - yoe.tdiv 100)
  let doy ← i64 (doe - yearDays)
  let fifths ← i64 (5 * doy)
  let raised ← i64 (fifths + 2)
  let mp := raised.tdiv 153
  let scaled ← i64 (153 * mp)
  let monthDays ← i64 (scaled + 2)
  let inMonth ← i64 (doy - monthDays.tdiv 5)
  let day ← i64 (inMonth + 1)
  let month ← if mp < 10 then i64 (mp + 3) else i64 (mp - 9)
  -- The casts keep the low 32 bits.
  let m := (month % 2 ^ 32).toNat
  let year ← if m ≤ 2 then i64 (y + 1) else .ok y
  return (year, m, (day % 2 ^ 32).toNat)

/-! ### What the dates are -/

theorem bind_i64 {α : Type} {v r : Int} (same : v = r) (low : -2 ^ 63 ≤ r) (high : r < 2 ^ 63)
    (rest : Int → Arith α) : (i64 v >>= rest) = rest r := by
  subst same
  rw [i64_ok.mpr ⟨⟨low, high⟩, rfl⟩, Outcome.ok_bind]

theorem branch {α : Type} {c : Prop} [Decidable c] {first second : Arith Int} {r : Int}
    (chosen : (if c then first else second) = .ok r) (rest : Int → Arith α) :
    (if c then first >>= rest else second >>= rest) = rest r := by
  split at chosen
  · rename_i holds
    rw [if_pos holds, chosen, Outcome.ok_bind]
  · rename_i fails
    rw [if_neg fails, chosen, Outcome.ok_bind]

theorem i64_fits {v r : Int} (same : v = r) (low : -2 ^ 63 ≤ r) (high : r < 2 ^ 63) :
    (i64 v : Arith Int) = .ok r := by
  subst same
  exact i64_ok.mpr ⟨⟨low, high⟩, rfl⟩

/-- Days that a time stamp can name have a date. -/
theorem civilFromDays_ok {z era : Int} {yoe k mp : Nat} (parts : Parts z era yoe k mp)
    (low : -2 ^ 60 ≤ z) (high : z ≤ 2 ^ 60) : civilFromDays z =
      .ok (parts.date.year, parts.date.month, parts.date.day) := by
  have day := parts.day
  have few := parts.few
  have inEra := parts.inEra
  have inYear := parts.inYear
  have counted := commonDays_cast (yearStart yoe + k)
  have bound := commonDays_year inEra
  obtain ⟨inside, least, most⟩ := parts.months
  have first : (if 0 ≤ z + 719468 then .ok (z + 719468) else i64 (z + 719468 - 146096) :
      Arith Int) = .ok (if 0 ≤ z + 719468 then z + 719468 else z + 719468 - 146096) := by
    split
    · rfl
    · exact i64_fits rfl (by omega) (by omega)
  have second : (if (mp : Int) < 10 then i64 (mp + 3) else i64 (mp - 9) : Arith Int) =
      .ok (monthOf mp) := by
    unfold monthOf
    split
    · rw [if_pos (by omega)]
      exact i64_fits rfl (by omega) (by omega)
    · rw [if_neg (by omega)]
      exact i64_fits (by omega) (by omega) (by omega)
  have monthCast : ((monthOf mp : Int) % 2 ^ 32).toNat = monthOf mp := by
    have bounds := monthOf_bounds inside
    omega
  have dayCast : ((k - (153 * mp + 2 : Nat) / 5 + 1 : Int) % 2 ^ 32).toNat = dayOf k mp := by
    unfold dayOf
    omega
  have third : (if monthOf mp ≤ 2 then i64 (yoe + era * 400 + 1) else .ok (yoe + era * 400) :
      Arith Int) = .ok (yearOf era yoe mp) := by
    unfold yearOf
    split
    · exact i64_fits rfl (by omega) (by omega)
    · rw [Int.add_zero]
  generalize days : yearStart yoe + k = doe at *
  unfold civilFromDays
  rw [bind_i64 (r := z + 719468) rfl (by omega) (by omega)]
  dsimp only
  rw [branch first, parts.era_eq, bind_i64 (r := era * 146097) rfl (by omega) (by omega),
    bind_i64 (r := doe) (by omega) (by omega) (by omega),
    bind_i64 (r := doe - doe / 1460) (by rw [tdiv_natCast]) (by omega) (by omega),
    bind_i64 (r := doe - doe / 1460 + doe / 36524) (by rw [tdiv_natCast]) (by omega) (by omega),
    bind_i64 (r := commonDays doe) (by rw [tdiv_natCast, counted]) (by omega) (by omega), ← days,
    parts.year_eq, days, bind_i64 (r := era * 400) rfl (by omega) (by omega),
    bind_i64 (r := yoe + era * 400) rfl (by omega) (by omega),
    bind_i64 (r := 365 * yoe) rfl (by omega) (by omega),
    bind_i64 (r := 365 * yoe + yoe / 4) (by rw [tdiv_natCast]) (by omega) (by omega),
    bind_i64 (r := yearStart yoe) (by rw [tdiv_natCast, yearStart_cast]) (by omega) (by omega),
    bind_i64 (r := k) (by omega) (by omega) (by omega),
    bind_i64 (r := 5 * k) rfl (by omega) (by omega),
    bind_i64 (r := (5 * k + 2 : Nat)) (by omega) (by omega) (by omega), parts.month_eq,
    bind_i64 (r := 153 * mp) rfl (by omega) (by omega),
    bind_i64 (r := (153 * mp + 2 : Nat)) (by omega) (by omega) (by omega),
    bind_i64 (r := k - (153 * mp + 2 : Nat) / 5) (by rw [tdiv_natCast]) (by omega) (by omega),
    bind_i64 (r := k - (153 * mp + 2 : Nat) / 5 + 1) rfl (by omega) (by omega),
    branch second, monthCast, dayCast, branch third]
  rfl

/-- A date that is not too far away has the number of its day. -/
theorem daysFromCivil_ok {y : Int} {m d : Nat} (low : -2 ^ 53 ≤ y) (high : y ≤ 2 ^ 53)
    (month : m < 2 ^ 32) (day : d < 2 ^ 32) : daysFromCivil y m d = .ok (dayNumber y m d) := by
  have shifted : (if m ≤ 2 then i64 (y - 1) else .ok y : Arith Int) = .ok (marchYear y m) := by
    unfold marchYear
    split
    · rw [if_pos (by omega)]
      exact i64_fits rfl (by omega) (by omega)
    · rw [if_neg (by omega)]
  have near : -2 ^ 53 - 1 ≤ marchYear y m ∧ marchYear y m ≤ 2 ^ 53 := by
    unfold marchYear
    split <;> omega
  obtain ⟨months, monthIs⟩ : ∃ months : Nat, (months : Int) = marchMonth m := by
    unfold marchMonth
    split
    · exact ⟨m - 3, by omega⟩
    · exact ⟨m + 9, by omega⟩
  have monthBound : months < 2 ^ 32 + 9 := by
    unfold marchMonth at monthIs
    split at monthIs <;> omega
  have moved : (if 2 < m then i64 (m - 3) else i64 (m + 9) : Arith Int) = .ok months := by
    unfold marchMonth at monthIs
    split at monthIs
    · rw [if_pos (by omega)]
      exact i64_fits monthIs.symm (by omega) (by omega)
    · rw [if_neg (by omega)]
      exact i64_fits monthIs.symm (by omega) (by omega)
  rw [dayNumber_era, dayOfYear, ← monthIs]
  generalize marchYear y m = year at *
  have floored : (if 0 ≤ year then .ok year else i64 (year - 399) : Arith Int) =
      .ok (if 0 ≤ year then year else year - 399) := by
    split
    · rfl
    · exact i64_fits rfl (by omega) (by omega)
  obtain ⟨yoe, yoeIs⟩ : ∃ yoe : Nat, (yoe : Int) = year % 400 := ⟨(year % 400).toNat, by omega⟩
  have split : year = year / 400 * 400 + yoe := by omega
  have era : (if 0 ≤ year then year else year - 399).tdiv 400 = year / 400 :=
    tdiv_floored 400 (by decide) split (by omega)
  rw [← yoeIs]
  unfold daysFromCivil
  dsimp only
  rw [branch shifted, branch floored, era,
    bind_i64 (r := year / 400 * 400) rfl (by omega) (by omega),
    bind_i64 (r := yoe) (by omega) (by omega) (by omega), branch moved,
    bind_i64 (r := 153 * months) rfl (by omega) (by omega),
    bind_i64 (r := (153 * months + 2 : Nat)) (by omega) (by omega) (by omega),
    bind_i64 (r := (153 * months + 2 : Nat) / 5 + d) (by rw [tdiv_natCast]) (by omega) (by omega),
    bind_i64 (r := (153 * months + 2 : Nat) / 5 + d - 1) rfl (by omega) (by omega),
    bind_i64 (r := yoe * 365) rfl (by omega) (by omega),
    bind_i64 (r := yoe * 365 + yoe / 4) (by rw [tdiv_natCast]) (by omega) (by omega),
    bind_i64 (r := yoe * 365 + yoe / 4 - yoe / 100) (by rw [tdiv_natCast]) (by omega) (by omega),
    bind_i64 (r := yoe * 365 + yoe / 4 - yoe / 100 + ((153 * months + 2 : Nat) / 5 + d - 1)) rfl
      (by omega) (by omega),
    bind_i64 (r := year / 400 * 146097) rfl (by omega) (by omega),
    bind_i64 (r := year / 400 * 146097 + (yoe * 365 + yoe / 4 - yoe / 100 +
      ((153 * months + 2 : Nat) / 5 + d - 1))) rfl (by omega) (by omega)]
  exact i64_fits (by omega) (by omega) (by omega)

/-! ### Names -/

def padded (width : Nat) (digits : String) : String :=
  String.ofList (digits.toList.leftpad width '0')

/-- The sign counts as a digit. -/
def paddedYear (y : Int) : String :=
  if y < 0 then "-" ++ padded 3 (toString y.natAbs) else padded 4 (toString y.natAbs)

def dayName (y : Int) (m d : Nat) : String :=
  s!"{paddedYear y}-{padded 2 (toString m)}-{padded 2 (toString d)}"

def monthName (y : Int) (m : Nat) : String := s!"{paddedYear y}-{padded 2 (toString m)}"

/-- Digits, with a sign or without. -/
def parseDigits (text : List Char) : Option Nat :=
  if text = [] ∨ text.any (fun c => !c.isDigit) then none
  else some (text.foldl (fun value c => 10 * value + (c.toNat - '0'.toNat)) 0)

def parseU32 (text : List Char) : Option Nat :=
  (parseDigits (if text.head? = some '+' then text.tail else text)).filter (· < 2 ^ 32)

def parseI64 (text : List Char) : Option Int :=
  if text.head? = some '-' then
    ((parseDigits text.tail).map fun value : Nat => -(value : Int)).filter fun value => FitsI64 value
  else
    ((parseDigits (if text.head? = some '+' then text.tail else text)).map Int.ofNat).filter
      fun value => FitsI64 value

def parseYmd (text : List Char) : Option (Int × Nat × Nat) :=
  match text.splitOn '-' with
  | [y, m, d] => do
      let y ← parseI64 y
      let m ← parseU32 m
      let d ← parseU32 d
      return (y, m, d)
  | _ => none

def parseYm (text : List Char) : Option (Int × Nat) :=
  match text.splitOn '-' with
  | [y, m] => do
      let y ← parseI64 y
      let m ← parseU32 m
      return (y, m)
  | _ => none

/-! ### Partitions -/

/-- How the records of a type are routed, and the marks of when they were made and said. -/
inductive Partition (ρ : Type) where
  | byDay
  | byMonth
  | custom (router : ρ → String)

def Partition.isTime {ρ : Type} : Partition ρ → Bool
  | .byDay => true
  | .byMonth => true
  | .custom _ => false

inductive Window where
  | lastDays (days : UInt32)
  | range (first last : Int64)
  | partitions (suffixes : List String)

/-- The names of the collections in the registry, with their ids. -/
abbrev Collections := List (String × CollectionId)

structure Partitioned (ρ : Type) where
  base : String
  by_ : Partition ρ

namespace Partitioned

variable {ρ : Type} (partitioned : Partitioned ρ)

def route (record : ρ) (createdAt : Option Int64) (now : Int64) : Arith String :=
  match partitioned.by_ with
  | .byDay => do
      let (y, m, d) ← civilFromDays ((createdAt.getD now).toInt / 86400)
      return s!"{partitioned.base}:{dayName y m d}"
  | .byMonth => do
      let (y, m, _) ← civilFromDays ((createdAt.getD now).toInt / 86400)
      return s!"{partitioned.base}:{monthName y m}"
  | .custom router => return s!"{partitioned.base}:{router record}"

variable {partitioned}

variable (partitioned)

def suffixOf (fullName : String) : Option (List Char) := do
  let rest ← fullName.toList.dropPrefix? partitioned.base.toList
  rest.dropPrefix? [':']

end Partitioned

end Partitions

end Valise
