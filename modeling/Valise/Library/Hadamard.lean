import Valise.Library.Numerals

/-!
The Walsh-Hadamard transform in place: at each stage every value meets the one whose place differs
in one bit. Stages of different bits commute, and the transform twice is a multiple of the identity.
-/

namespace Hadamard

variable {K : Type} [Field K]

/-- The stage of one bit. -/
def stage (bit : Nat) (values : Nat → K) (place : Nat) : K :=
  if place / 2 ^ bit % 2 = 0 then values place + values (place + 2 ^ bit)
  else values (place - 2 ^ bit) - values place

/-- The stages of the first bits, the lowest first. -/
def transform : Nat → (Nat → K) → Nat → K
  | 0, values => values
  | bits + 1, values => stage bits (transform bits values)

section Places

variable {low high place : Nat}

theorem le_of_bit (set : place / 2 ^ low % 2 = 1) : 2 ^ low ≤ place := by
  by_contra small
  rw [Nat.div_eq_of_lt (Nat.lt_of_not_le small)] at set
  exact absurd set (by decide)

theorem bit_add_self : (place + 2 ^ low) / 2 ^ low = place / 2 ^ low + 1 :=
  Nat.add_div_right _ (Nat.two_pow_pos low)

theorem bit_sub_self (set : place / 2 ^ low % 2 = 1) :
    (place - 2 ^ low) / 2 ^ low + 1 = place / 2 ^ low := by
  have some := le_of_bit set
  have back := @bit_add_self low (place - 2 ^ low)
  rw [Nat.sub_add_cancel some] at back
  exact back.symm

/-- A higher bit does not reach a lower one. -/
theorem low_add_high (apart : low < high) :
    (place + 2 ^ high) / 2 ^ low % 2 = place / 2 ^ low % 2 := by
  obtain ⟨more, rfl⟩ := Nat.exists_eq_add_of_lt apart
  have power : 2 ^ (low + more + 1) = 2 ^ low * (2 * 2 ^ more) := by
    rw [Nat.pow_succ, Nat.pow_add, Nat.mul_assoc, Nat.mul_comm (2 ^ more) 2]
  rw [power, Nat.add_mul_div_left _ _ (Nat.two_pow_pos low), Nat.add_mul_mod_self_left]

theorem low_sub_high (apart : low < high) (set : place / 2 ^ high % 2 = 1) :
    (place - 2 ^ high) / 2 ^ low % 2 = place / 2 ^ low % 2 := by
  have back := @low_add_high low high (place - 2 ^ high) apart
  rw [Nat.sub_add_cancel (le_of_bit set)] at back
  exact back.symm

/-- A clear bit takes one up without a carry. -/
theorem high_add_low (apart : low < high) (clear : place / 2 ^ low % 2 = 0) :
    (place + 2 ^ low) / 2 ^ high % 2 = place / 2 ^ high % 2 := by
  obtain ⟨more, rfl⟩ := Nat.exists_eq_add_of_lt apart
  have power : 2 ^ (low + more + 1) = 2 ^ low * (2 * 2 ^ more) := by
    rw [Nat.pow_succ, Nat.pow_add, Nat.mul_assoc, Nat.mul_comm (2 ^ more) 2]
  have halves : (place / 2 ^ low + 1) / 2 = place / 2 ^ low / 2 := by omega
  rw [power, ← Nat.div_div_eq_div_mul, ← Nat.div_div_eq_div_mul, ← Nat.div_div_eq_div_mul,
    ← Nat.div_div_eq_div_mul, bit_add_self, halves]

theorem high_sub_low (apart : low < high) (set : place / 2 ^ low % 2 = 1) :
    (place - 2 ^ low) / 2 ^ high % 2 = place / 2 ^ high % 2 := by
  have here := bit_sub_self set
  have back := @high_add_low low high (place - 2 ^ low) apart (by omega)
  rw [Nat.sub_add_cancel (le_of_bit set)] at back
  exact back.symm

end Places

theorem stage_scale (bit : Nat) (factor : K) (values : Nat → K) :
    stage bit (fun place => factor * values place) =
      fun place => factor * stage bit values place := by
  funext place
  unfold stage
  split
  · ring
  · ring

theorem transform_scale (bits : Nat) (factor : K) (values : Nat → K) :
    transform bits (fun place => factor * values place) =
      fun place => factor * transform bits values place := by
  induction bits with
  | zero => rfl
  | succ bits ih =>
      rw [transform, ih, stage_scale]
      rfl

theorem stage_twice (bit : Nat) (values : Nat → K) :
    stage bit (stage bit values) = fun place => 2 * values place := by
  funext place
  have two := Nat.mod_two_eq_zero_or_one (place / 2 ^ bit)
  have up := @bit_add_self bit place
  rcases two with clear | set
  · have next : (place + 2 ^ bit) / 2 ^ bit % 2 ≠ 0 := by omega
    simp only [stage, clear, next, if_true, if_false, Nat.add_sub_cancel]
    ring
  · have down := bit_sub_self set
    have before : (place - 2 ^ bit) / 2 ^ bit % 2 = 0 := by omega
    have here : place / 2 ^ bit % 2 ≠ 0 := by omega
    simp only [stage, here, before, if_true, if_false, Nat.sub_add_cancel (le_of_bit set)]
    ring

theorem stage_comm {low high : Nat} (apart : low < high) (values : Nat → K) :
    stage low (stage high values) = stage high (stage low values) := by
  funext place
  have up := @low_add_high low high place apart
  have down := @low_sub_high low high place apart
  have raised := @high_add_low low high place apart
  have lowered := @high_sub_low low high place apart
  have some := Nat.two_pow_pos low
  have more := Nat.two_pow_pos high
  have order : place + 2 ^ low + 2 ^ high = place + 2 ^ high + 2 ^ low := by omega
  rcases Nat.mod_two_eq_zero_or_one (place / 2 ^ low) with clear | set
  · have raised := raised clear
    rcases Nat.mod_two_eq_zero_or_one (place / 2 ^ high) with top | top
    · simp only [stage, clear, top, up, raised, if_true, order]
      ring
    · have down := down top
      have enough := le_of_bit top
      have moved : place + 2 ^ low - 2 ^ high = place - 2 ^ high + 2 ^ low := by omega
      simp only [stage, clear, top, down, raised, if_true, Nat.one_ne_zero, if_false, moved]
      ring
  · have lowered := lowered set
    have enough := le_of_bit set
    rcases Nat.mod_two_eq_zero_or_one (place / 2 ^ high) with top | top
    · have moved : place - 2 ^ low + 2 ^ high = place + 2 ^ high - 2 ^ low := by omega
      simp only [stage, set, top, up, lowered, if_true, Nat.one_ne_zero, if_false, moved]
      ring
    · have down := down top
      have moved : place - 2 ^ low - 2 ^ high = place - 2 ^ high - 2 ^ low := by omega
      simp only [stage, set, top, down, lowered, Nat.one_ne_zero, if_false, moved]
      ring

theorem transform_stage {bits bit : Nat} (above : bits ≤ bit) (values : Nat → K) :
    transform bits (stage bit values) = stage bit (transform bits values) := by
  induction bits with
  | zero => rfl
  | succ bits ih =>
      rw [transform, ih (by omega), stage_comm (by omega)]
      rfl

/-- The transform undoes itself, but for the factor. -/
theorem transform_twice (bits : Nat) (values : Nat → K) :
    transform bits (transform bits values) = fun place => 2 ^ bits * values place := by
  induction bits with
  | zero =>
      funext place
      rw [pow_zero, one_mul]
      rfl
  | succ bits ih =>
      rw [transform, transform, transform_stage le_rfl, ih, stage_twice]
      funext place
      ring

end Hadamard
