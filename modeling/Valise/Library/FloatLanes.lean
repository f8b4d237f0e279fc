import Valise.Library.Numerals

/-!
Vector registers over exact numbers, lane by lane, and the instructions that move and combine them.
-/

namespace FloatLanes

open Numerals

variable {K : Type} [Field K] {count : Nat}

abbrev Register (K : Type) (count : Nat) := Fin count → K

/-! ### Memory -/

def load (count : Nat) (memory : Nat → K) (start : Nat) : Register K count :=
  fun lane => memory (start + lane)

def storeu (memory : Nat → K) (start : Nat) (value : Register K count) : Nat → K :=
  fun place => if inside : start ≤ place ∧ place < start + count then
    value ⟨place - start, by omega⟩ else memory place

/-! ### Arithmetic -/

def addPs (a b : Register K count) : Register K count := fun lane => a lane + b lane

def subPs (a b : Register K count) : Register K count := fun lane => a lane - b lane

def mulPs (a b : Register K count) : Register K count := fun lane => a lane * b lane

def set1Ps (value : K) : Register K count := fun _ => value

def setr4 (a b c d : K) : Register K 4
  | 0 => a
  | 1 => b
  | 2 => c
  | 3 => d

def setr8 (a b c d e f g h : K) : Register K 8
  | 0 => a
  | 1 => b
  | 2 => c
  | 3 => d
  | 4 => e
  | 5 => f
  | 6 => g
  | 7 => h

/-- The product is the first two operands', and the sum is exact. -/
def fmaddPs (a b c : Register K count) : Register K count := fun lane => a lane * b lane + c lane

def mapPs (operation : K → K) (a : Register K count) : Register K count :=
  fun lane => operation (a lane)

/-! ### Shuffles -/

/-- In each half of four lanes, two come from each operand. -/
def shufflePs [NeZero count] (mask : Nat) (a b : Register K count) : Register K count := fun lane =>
  (if lane.val % 4 < 2 then a else b)
    (Fin.ofNat count (lane.val / 4 * 4 + mask / 4 ^ (lane.val % 4) % 4))

def permutePs [NeZero count] (mask : Nat) (a : Register K count) : Register K count :=
  shufflePs mask a a

/-- Four pairs of lanes, each taken whole. -/
def permute4x64Pd (mask : Nat) (a : Register K 8) : Register K 8 := fun lane =>
  a (Fin.ofNat 8 (mask / 4 ^ (lane.val / 2) % 4 * 2 + lane.val % 2))

/-- Each half is one of the four halves of the operands, or zero. -/
def permute2f128Ps (mask : Nat) (a b : Register K 8) : Register K 8 := fun lane =>
  let control := mask / 16 ^ (lane.val / 4) % 16
  if control / 8 = 1 then 0
  else (if control % 4 < 2 then a else b) (Fin.ofNat 8 (control % 2 * 4 + lane.val % 4))

def castps256Ps128 (a : Register K 8) : Register K 4 := fun lane => a ⟨lane, low_lt lane⟩

def extractf128High (a : Register K 8) : Register K 4 := fun lane => a ⟨4 + lane, high_lt lane⟩

def haddPs (a b : Register K 4) : Register K 4 := setr4 (a 0 + a 1) (a 2 + a 3) (b 0 + b 1) (b 2 + b 3)

def cvtssF32 (a : Register K 4) : K := a 0

/-! ### The instructions of the other machine -/

/-- The accumulator comes first. -/
def vfmaq (acc a b : Register K count) : Register K count := fun lane => acc lane + a lane * b lane

def vmulqN (a : Register K count) (factor : K) : Register K count := fun lane => a lane * factor

def vld2q (memory : Nat → K) (start : Nat) : Register K 4 × Register K 4 :=
  (fun lane => memory (start + 2 * lane), fun lane => memory (start + 2 * lane + 1))

def vrev64q (a : Register K 4) : Register K 4 := setr4 (a 1) (a 0) (a 3) (a 2)

def vgetLow (a : Register K 4) : Register K 2 := fun lane => a ⟨lane, by omega⟩

def vgetHigh (a : Register K 4) : Register K 2 := fun lane => a ⟨2 + lane, by omega⟩

def vcombine (low high : Register K 2) : Register K 4 := setr4 (low 0) (low 1) (high 0) (high 1)

def vaddvq (a : Register K 4) : K := a 0 + a 1 + (a 2 + a 3)

/-! ### Sums -/

def total (a : Register K count) : K := ∑ lane, a lane

theorem total_zero : total (set1Ps 0 : Register K count) = 0 := Finset.sum_const_zero

theorem total_addPs (a b : Register K count) : total (addPs a b) = total a + total b :=
  Finset.sum_add_distrib

/-- Lanes that go through a stretch of values add its sum. -/
theorem total_step {after before : Register K count} {values : Nat → K} {start : Nat}
    (step : ∀ lane : Fin count, after lane = before lane + values (start + lane)) :
    total after = total before + ∑ place ∈ Finset.range count, values (start + place) := by
  rw [← Fin.sum_univ_eq_sum_range (fun place => values (start + place)) count]
  exact (Finset.sum_congr rfl fun lane _ => step lane).trans Finset.sum_add_distrib

theorem vaddvq_eq (a : Register K 4) : vaddvq a = total a := by
  rw [total, Fin.sum_univ_four, vaddvq, add_assoc _ (a 2)]

/-! ### Stretches of a memory -/

omit [Field K] in
theorem storeu_inside (memory : Nat → K) (start : Nat) (value : Register K count)
    (lane : Fin count) : storeu memory start value (start + lane) = value lane := by
  have inside : start ≤ start + lane.val ∧ start + lane.val < start + count := by omega
  rw [storeu, dif_pos inside]
  exact congrArg value (Fin.ext (Nat.add_sub_cancel_left start lane))

omit [Field K] in
theorem storeu_outside (memory : Nat → K) {start place : Nat} (value : Register K count)
    (outside : ¬(start ≤ place ∧ place < start + count)) :
    storeu memory start value place = memory place := dif_neg outside

omit [Field K] in
theorem storeu_eq {memory target : Nat → K} {start : Nat} {value : Register K count}
    (same : ∀ lane : Fin count, value lane = target (start + lane)) (place : Nat) :
    storeu memory start value place =
      if start ≤ place ∧ place < start + count then target place else memory place := by
  by_cases inside : start ≤ place ∧ place < start + count
  · obtain ⟨offset, rfl⟩ := Nat.exists_eq_add_of_le inside.1
    have low : offset < count := by omega
    rw [if_pos inside]
    exact (storeu_inside memory start value ⟨offset, low⟩).trans (same ⟨offset, low⟩)
  · rw [if_neg inside, storeu_outside memory value inside]

end FloatLanes
