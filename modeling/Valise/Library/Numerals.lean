import Mathlib

/-!
Side conditions of the numerals and of the sizes that definitions in many places name, so that none
of these definitions carries a proof of its own.
-/

namespace Numerals

instance two_atLeastTwo : Nat.AtLeastTwo 2 := ⟨le_refl 2⟩

instance ten_atLeastTwo : Nat.AtLeastTwo 10 := ⟨by decide⟩

instance two_neZero : NeZero 2 := ⟨by decide⟩

instance four_neZero : NeZero 4 := ⟨by decide⟩

instance eight_neZero : NeZero 8 := ⟨by decide⟩

instance bytes_lawful : LawfulBEq (List UInt8) := inferInstance

theorem fourLanes_pos : 0 < Nat.succ 3 := Nat.zero_lt_succ 3

theorem eightLanes_pos : 0 < Nat.succ 7 := Nat.zero_lt_succ 7

theorem doubled_pos {height : Nat} (positive : 0 < height) : 0 < 2 * height :=
  Nat.mul_pos two_pos positive

/-! ### Halves of eight lanes -/

theorem low_lt (lane : Fin 4) : lane.val < 8 := lane.isLt.trans (by decide)

theorem high_lt (lane : Fin 4) : 4 + lane.val < 8 := Nat.add_lt_add_left lane.isLt 4

/-! ### Constant bytes -/

theorem zeros_length : (List.replicate 16 (0 : UInt8)).length = 16 := List.length_replicate

theorem ones_length : (List.replicate 32 (1 : UInt8)).length = 32 := List.length_replicate

end Numerals
