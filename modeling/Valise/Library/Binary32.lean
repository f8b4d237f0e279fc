import Valise.Library.Numerals

/-!
Binary floats of 32 bits as their bits: the values they stand for, and the order of the bits.
-/

namespace Binary32

@[ext] structure Single where
  bits : UInt32
deriving DecidableEq, Repr

namespace Single

def negative (x : Single) : Bool := 2 ^ 31 ≤ x.bits.toNat

/-- The exponent and the fraction together. -/
def low (x : Single) : Nat := x.bits.toNat % 2 ^ 31

def isNaN (x : Single) : Bool := 255 * 2 ^ 23 < x.low

def isFinite (x : Single) : Bool := x.low < 255 * 2 ^ 23

theorem isNaN_of_isFinite {x : Single} (finite : x.isFinite = true) : x.isNaN = false := by
  unfold isFinite isNaN at *
  simp only [decide_eq_true_eq, decide_eq_false_iff_not] at *
  omega

end Single

/-- In units of the smallest positive float. -/
def magnitude (low : Nat) : Nat :=
  if low / 2 ^ 23 = 0 then low % 2 ^ 23
  else (2 ^ 23 + low % 2 ^ 23) * 2 ^ (low / 2 ^ 23 - 1)

theorem magnitude_lt {first second : Nat} (less : first < second) :
    magnitude first < magnitude second := by
  have apart := Nat.div_le_div_right (c := 2 ^ 23) less.le
  have divFirst := Nat.div_add_mod first (2 ^ 23)
  have divSecond := Nat.div_add_mod second (2 ^ 23)
  have fraction : first % 2 ^ 23 < 2 ^ 23 := Nat.mod_lt _ (by omega)
  unfold magnitude
  generalize first / 2 ^ 23 = low at *
  generalize second / 2 ^ 23 = high at *
  generalize first % 2 ^ 23 = firstFraction at *
  generalize second % 2 ^ 23 = secondFraction at *
  rcases apart.eq_or_lt with rfl | apart
  · have fractions : firstFraction < secondFraction := by omega
    split
    · exact fractions
    · exact Nat.mul_lt_mul_of_pos_right (by omega) (Nat.two_pow_pos _)
  · rw [if_neg (show ¬high = 0 by omega)]
    have positive : 0 < 2 ^ (high - 1) := Nat.two_pow_pos _
    split
    · nlinarith
    · rename_i normal
      -- The next exponent starts where the fractions of this one end.
      have doubled : 2 ^ (low - 1) * 2 ≤ 2 ^ (high - 1) := by
        rw [← pow_succ]
        exact Nat.pow_le_pow_right (by omega) (by omega)
      nlinarith

theorem magnitude_lt_iff {first second : Nat} :
    magnitude first < magnitude second ↔ first < second := by
  refine ⟨fun less => ?_, magnitude_lt⟩
  by_contra other
  rcases (Nat.le_of_not_lt other).eq_or_lt with rfl | greater
  · exact absurd less (Nat.lt_irrefl _)
  · exact absurd less (magnitude_lt greater).not_gt

theorem magnitude_eq_iff {first second : Nat} :
    magnitude first = magnitude second ↔ first = second := by
  refine ⟨fun same => ?_, congrArg magnitude⟩
  rcases Nat.lt_trichotomy first second with less | same | greater
  · exact absurd same (magnitude_lt less).ne
  · exact same
  · exact absurd same (magnitude_lt greater).ne'

namespace Single

/-- An infinity stands beyond every finite value. -/
def value (x : Single) : Int := if x.negative then -magnitude x.low else magnitude x.low

instance : LT Single := ⟨fun first second => first.value < second.value⟩

instance (first second : Single) : Decidable (first < second) :=
  inferInstanceAs (Decidable (first.value < second.value))

def isZero (x : Single) : Bool := !x.isNaN && x.value = 0

def atMostZero (x : Single) : Bool := !x.isNaN && x.value ≤ 0

/-- No float compares with one that is not a number. -/
def partialCmp (first second : Single) : Option Ordering :=
  if first.isNaN || second.isNaN then none else some (compare first.value second.value)

theorem bits_eq (x : Single) : x.bits.toNat = x.low + if x.negative then 2 ^ 31 else 0 := by
  have bound := x.bits.toNat_lt
  have sum := Nat.div_add_mod x.bits.toNat (2 ^ 31)
  unfold low negative
  simp only [decide_eq_true_eq]
  split
  · omega
  · omega

theorem eq_of_low {first second : Single} (sign : first.negative = second.negative)
    (low : first.low = second.low) : first = second := by
  have bits : first.bits = second.bits := by
    rw [← UInt32.toNat_inj, bits_eq, bits_eq, sign, low]
  exact Single.ext bits

/-- Two floats of one value are the same, the two zeros apart. -/
theorem eq_of_value {first second : Single} (nonzero : first.value ≠ 0)
    (same : first.value = second.value) : first = second := by
  have positive : 0 < magnitude first.low := by
    unfold value at nonzero
    split at nonzero
    · omega
    · omega
  unfold value at same
  refine eq_of_low ?_ ?_
  · cases left : first.negative <;> cases right : second.negative <;>
      simp only [left, right, if_true, if_false, Bool.false_eq_true] at same
    all_goals first | rfl | omega
  · refine magnitude_eq_iff.mp ?_
    split at same <;> split at same <;> omega

/-- Among floats that are not negative the bits have the order of the values. -/
theorem bits_lt_iff {first second : Single} (left : first.negative = false)
    (right : second.negative = false) : first.bits < second.bits ↔ first.value < second.value := by
  rw [UInt32.lt_iff_toNat_lt, bits_eq, bits_eq, value, value, left, right]
  simp [magnitude_lt_iff]

theorem negative_of_value {x : Single} (positive : 0 < x.value) : x.negative = false := by
  unfold value at positive
  split at positive
  · omega
  · rename_i sign
    simpa using sign

end Single

end Binary32
