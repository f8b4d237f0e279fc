import Valise.PartitionPeriods

/-!
The names of partitions are read back: the digits of a date are its year, month and day, and two
dates with one name are in one period.
-/

namespace Valise

open Calendar CivilDates MachineInts Outcomes

namespace Partitions

/-! ### Digits -/

theorem padded_toList (width n : Nat) : (padded width (toString n)).toList =
    List.replicate (width - (Nat.toDigits 10 n).length) '0' ++ Nat.toDigits 10 n := by
  rw [padded, String.toList_ofList, Nat.toString_eq_repr, Nat.toList_repr, List.leftpad]

theorem padded_digits {width n : Nat} {c : Char} (listed : c ∈ (padded width (toString n)).toList) :
    c.isDigit = true := by
  rw [padded_toList, List.mem_append] at listed
  rcases listed with zero | digit
  · rw [List.eq_of_mem_replicate zero]
    rfl
  · exact Nat.isDigit_of_mem_toDigits (by decide) (by decide) digit

theorem padded_ne_nil (width n : Nat) : (padded width (toString n)).toList ≠ [] := by
  rw [padded_toList]
  exact List.append_ne_nil_of_right_ne_nil _ Nat.toDigits_ne_nil

theorem parseDigits_padded (width n : Nat) :
    parseDigits (padded width (toString n)).toList = some n := by
  have digits : ¬((padded width (toString n)).toList = [] ∨
      (padded width (toString n)).toList.any (fun c => !c.isDigit) = true) := by
    rintro (empty | other)
    · exact padded_ne_nil width n empty
    · obtain ⟨c, listed, plain⟩ := List.any_eq_true.mp other
      rw [padded_digits listed] at plain
      cases plain
  rw [parseDigits, if_neg digits, ← Nat.ofDigitChars_eq_foldl, padded_toList,
    Nat.ofDigitChars_append, Nat.ofDigitChars_replicate_zero, Nat.mul_zero,
    Nat.ofDigitChars_ten_toDigits]

/-- Digits begin with no sign and hold no separator. -/
theorem padded_ne {width n : Nat} {sign : Char} (plain : sign.isDigit = false) :
    sign ∉ (padded width (toString n)).toList := by
  intro listed
  rw [padded_digits listed] at plain
  cases plain

theorem head_padded_ne {width n : Nat} {sign : Char} (plain : sign.isDigit = false) :
    (padded width (toString n)).toList.head? ≠ some sign := by
  intro first
  exact padded_ne plain (List.mem_of_head? first)

theorem parseU32_padded {width n : Nat} (fits : n < 2 ^ 32) :
    parseU32 (padded width (toString n)).toList = some n := by
  rw [parseU32, if_neg (head_padded_ne rfl), parseDigits_padded]
  exact Option.filter_some_pos (decide_eq_true fits)

theorem length_padded_two {n : Nat} (small : n < 100) :
    (padded 2 (toString n)).toList.length = 2 := by
  have few : (Nat.toDigits 10 n).length ≤ 2 :=
    (Nat.length_toDigits_le_iff (by decide) (by decide)).mpr small
  rw [padded_toList, List.length_append, List.length_replicate]
  omega

/-! ### Years -/

theorem paddedYear_nonneg {y : Int} (positive : 0 ≤ y) :
    paddedYear y = padded 4 (toString y.natAbs) := if_neg (Int.not_lt.mpr positive)

theorem paddedYear_neg {y : Int} (negative : y < 0) :
    (paddedYear y).toList = '-' :: (padded 3 (toString y.natAbs)).toList := by
  rw [paddedYear, if_pos negative, String.toList_append]
  rfl

/-- Every year is read back, also one before the year zero. -/
theorem parseI64_paddedYear {y : Int} (fits : FitsI64 y) :
    parseI64 (paddedYear y).toList = some y := by
  rcases Int.lt_or_le y 0 with negative | positive
  · have value : -(y.natAbs : Int) = y := by omega
    rw [paddedYear_neg negative, parseI64, if_pos List.head?_cons, List.tail_cons, parseDigits_padded,
      Option.map_some, value]
    exact Option.filter_some_pos (decide_eq_true fits)
  · have value : Int.ofNat y.natAbs = y := Int.natAbs_of_nonneg positive
    rw [paddedYear_nonneg positive, parseI64, if_neg (head_padded_ne rfl),
      if_neg (head_padded_ne rfl), parseDigits_padded, Option.map_some, value]
    exact Option.filter_some_pos (decide_eq_true fits)

theorem paddedYear_ne {y : Int} (positive : 0 ≤ y) : '-' ∉ (paddedYear y).toList := by
  rw [paddedYear_nonneg positive]
  exact padded_ne rfl

/-! ### Dates -/

theorem text_toString (text : String) : toString text = text := rfl

theorem dash_toList : "-".toList = ['-'] := by decide

theorem monthName_toList (y : Int) (m : Nat) : (monthName y m).toList =
    (paddedYear y).toList ++ '-' :: (padded 2 (toString m)).toList := by
  rw [monthName]
  simp only [text_toString, String.toList_append, dash_toList, List.append_assoc,
    List.cons_append, List.nil_append]

theorem dayName_toList (y : Int) (m d : Nat) : (dayName y m d).toList =
    (paddedYear y).toList ++ '-' ::
      ((padded 2 (toString m)).toList ++ '-' :: (padded 2 (toString d)).toList) := by
  rw [dayName]
  simp only [text_toString, String.toList_append, dash_toList, List.append_assoc,
    List.cons_append, List.nil_append]

theorem parseYmd_dayName {y : Int} {m d : Nat} (positive : 0 ≤ y) (year : FitsI64 y)
    (month : m < 2 ^ 32) (day : d < 2 ^ 32) :
    parseYmd (dayName y m d).toList = some (y, m, d) := by
  rw [parseYmd, dayName_toList, List.splitOn_append_cons_self_of_not_mem (paddedYear_ne positive),
    List.splitOn_append_cons_self_of_not_mem (padded_ne rfl),
    List.splitOn_eq_singleton (padded_ne rfl)]
  dsimp only
  rw [parseI64_paddedYear year, parseU32_padded month, parseU32_padded day]
  rfl

theorem parseYm_monthName {y : Int} {m : Nat} (positive : 0 ≤ y) (year : FitsI64 y)
    (month : m < 2 ^ 32) : parseYm (monthName y m).toList = some (y, m) := by
  rw [parseYm, monthName_toList, List.splitOn_append_cons_self_of_not_mem (paddedYear_ne positive),
    List.splitOn_eq_singleton (padded_ne rfl)]
  dsimp only
  rw [parseI64_paddedYear year, parseU32_padded month]
  rfl

/-- The sign of a year is taken for a separator. -/
theorem split_paddedYear {y : Int} (negative : y < 0) (rest : List Char) :
    ((paddedYear y).toList ++ '-' :: rest).splitOn '-' =
      [] :: (padded 3 (toString y.natAbs)).toList :: rest.splitOn '-' := by
  have apart : (paddedYear y).toList ++ '-' :: rest =
      [] ++ '-' :: ((padded 3 (toString y.natAbs)).toList ++ '-' :: rest) := by
    rw [paddedYear_neg negative]
    rfl
  rw [apart, List.splitOn_append_cons_self_of_not_mem (List.not_mem_nil),
    List.splitOn_append_cons_self_of_not_mem (padded_ne rfl)]

theorem parseYmd_negative {y : Int} {m d : Nat} (negative : y < 0) :
    parseYmd (dayName y m d).toList = none := by
  rw [parseYmd, dayName_toList, split_paddedYear negative,
    List.splitOn_append_cons_self_of_not_mem (padded_ne rfl),
    List.splitOn_eq_singleton (padded_ne rfl)]

theorem parseYm_negative {y : Int} {m : Nat} (negative : y < 0) :
    parseYm (monthName y m).toList = none := by
  rw [parseYm, monthName_toList, split_paddedYear negative,
    List.splitOn_eq_singleton (padded_ne rfl)]

/-! ### One name, one date -/

theorem padded_inj {width first second : Nat}
    (same : (padded width (toString first)).toList = (padded width (toString second)).toList) :
    first = second := by
  have read := parseDigits_padded width first
  rw [same, parseDigits_padded, Option.some.injEq] at read
  exact read.symm

theorem paddedYear_inj {first second : Int} (fits : FitsI64 first) (fits' : FitsI64 second)
    (same : (paddedYear first).toList = (paddedYear second).toList) : first = second := by
  have read := parseI64_paddedYear fits
  rw [same, parseI64_paddedYear fits', Option.some.injEq] at read
  exact read.symm

theorem monthName_inj {y y' : Int} {m m' : Nat} (fits : FitsI64 y) (fits' : FitsI64 y')
    (small : m < 100) (small' : m' < 100)
    (same : (monthName y m).toList = (monthName y' m').toList) : y = y' ∧ m = m' := by
  rw [monthName_toList, monthName_toList] at same
  obtain ⟨years, months⟩ := List.append_inj' same (by
    rw [List.length_cons, List.length_cons, length_padded_two small, length_padded_two small'])
  exact ⟨paddedYear_inj fits fits' years, padded_inj (List.cons.inj months).2⟩

theorem dayName_eq (y : Int) (m d : Nat) : (dayName y m d).toList =
    (monthName y m).toList ++ '-' :: (padded 2 (toString d)).toList := by
  rw [dayName_toList, monthName_toList, List.append_assoc, List.cons_append]

theorem dayName_inj {y y' : Int} {m m' d d' : Nat} (fits : FitsI64 y) (fits' : FitsI64 y')
    (small : m < 100) (small' : m' < 100) (few : d < 100) (few' : d' < 100)
    (same : (dayName y m d).toList = (dayName y' m' d').toList) :
    y = y' ∧ m = m' ∧ d = d' := by
  rw [dayName_eq, dayName_eq] at same
  obtain ⟨months, days⟩ := List.append_inj' same (by
    rw [List.length_cons, List.length_cons, length_padded_two few, length_padded_two few'])
  obtain ⟨year, month⟩ := monthName_inj fits fits' small small' months
  exact ⟨year, month, padded_inj (List.cons.inj days).2⟩

end Partitions

end Valise
