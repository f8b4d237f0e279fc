import Valise.Library.Bytes

/-!
Numbers of one width side by side in a longer number, the first in the lowest bits.
-/

namespace BitFields

open ByteLists

def field (bits number place : Nat) : Nat := number / 2 ^ (bits * place) % 2 ^ bits

def join (bits : Nat) : List Nat → Nat
  | [] => 0
  | value :: rest => value + 2 ^ bits * join bits rest

theorem field_lt (bits number place : Nat) : field bits number place < 2 ^ bits :=
  Nat.mod_lt _ (Nat.two_pow_pos bits)

theorem field_succ (bits number place : Nat) :
    field bits number (place + 1) = field bits (number / 2 ^ bits) place := by
  unfold field
  rw [Nat.div_div_eq_div_mul, ← pow_add, Nat.mul_succ, Nat.add_comm]

theorem field_zero (bits number : Nat) : field bits number 0 = number % 2 ^ bits := by
  simp [field]

theorem field_join {bits : Nat} {values : List Nat} (fit : ∀ value ∈ values, value < 2 ^ bits)
    {place value : Nat} (found : values[place]? = some value) :
    field bits (join bits values) place = value := by
  induction values generalizing place with
  | nil => simp at found
  | cons first rest ih =>
      have less := fit first (List.mem_cons_self ..)
      cases place with
      | zero =>
          obtain rfl : first = value := by simpa using found
          rw [field_zero, join, Nat.add_mul_mod_self_left, Nat.mod_eq_of_lt less]
      | succ place =>
          have later := ih (fun value member => fit value (List.mem_cons_of_mem _ member))
            (by simpa using found)
          rw [field_succ, join, Nat.add_mul_div_left _ _ (Nat.two_pow_pos bits),
            Nat.div_eq_of_lt less, Nat.zero_add, later]

/-- The fields below a bound do not depend on the bits above it. -/
theorem field_mod {bits number place bound : Nat} (inside : bits * place + bits ≤ bound) :
    field bits (number % 2 ^ bound) place = field bits number place := by
  obtain ⟨above, rfl⟩ := Nat.exists_eq_add_of_le inside
  unfold field
  rw [pow_add, pow_add, Nat.mul_assoc, Nat.mod_mul_right_div_self, Nat.mod_mul_right_mod]

/-- A field of a window is one of the whole number. -/
theorem field_shift {bits number start place : Nat} :
    field bits (number / 2 ^ (bits * start)) place = field bits number (start + place) := by
  unfold field
  rw [Nat.div_div_eq_div_mul, ← pow_add, Nat.mul_add]

theorem pow_256 (count : Nat) : 256 ^ count = 2 ^ (8 * count) := by
  rw [pow_mul, show 2 ^ 8 = 256 by decide]

theorem getLittleEndian_append (front back : Bytes) :
    getLittleEndian (front ++ back) =
      getLittleEndian front + 2 ^ (8 * front.length) * getLittleEndian back := by
  induction front with
  | nil => simp [getLittleEndian]
  | cons byte front ih =>
      simp only [List.cons_append, getLittleEndian, ih, List.length_cons, Nat.mul_succ, pow_add]
      ring

theorem getLittleEndian_zeros (count : Nat) : getLittleEndian (List.replicate count 0) = 0 := by
  induction count with
  | zero => rfl
  | succ count ih => simp [List.replicate_succ, getLittleEndian, ih]

theorem getLittleEndian_take (bytes : Bytes) (count : Nat) :
    getLittleEndian (bytes.take count) = getLittleEndian bytes % 2 ^ (8 * count) := by
  rcases Nat.le_total bytes.length count with all | inside
  · have bound := getLittleEndian_lt bytes
    rw [pow_256] at bound
    rw [List.take_of_length_le all, Nat.mod_eq_of_lt]
    exact bound.trans_le (Nat.pow_le_pow_right (by omega) (by omega))
  · have bound := getLittleEndian_lt (bytes.take count)
    have length : (bytes.take count).length = count := by simpa using inside
    rw [length, pow_256] at bound
    have whole := getLittleEndian_append (bytes.take count) (bytes.drop count)
    rw [List.take_append_drop, length] at whole
    rw [whole, Nat.add_mul_mod_self_left, Nat.mod_eq_of_lt bound]

theorem getLittleEndian_drop (bytes : Bytes) (count : Nat) :
    getLittleEndian (bytes.drop count) = getLittleEndian bytes / 2 ^ (8 * count) := by
  rcases Nat.le_total bytes.length count with all | inside
  · have bound := getLittleEndian_lt bytes
    rw [pow_256] at bound
    rw [List.drop_eq_nil_of_le all, Nat.div_eq_of_lt]
    · rfl
    · exact bound.trans_le (Nat.pow_le_pow_right (by omega) (by omega))
  · have bound := getLittleEndian_lt (bytes.take count)
    have length : (bytes.take count).length = count := by simpa using inside
    rw [length, pow_256] at bound
    have whole := getLittleEndian_append (bytes.take count) (bytes.drop count)
    rw [List.take_append_drop, length] at whole
    rw [whole, Nat.add_mul_div_left _ _ (Nat.two_pow_pos _), Nat.div_eq_of_lt bound, Nat.zero_add]

/-- A window of some bytes has the fields that start in it. -/
theorem field_slice {bits : Nat} {bytes : Bytes} {start width place : Nat}
    (inside : bits * place + bits ≤ 8 * width) :
    field bits (getLittleEndian (slice bytes (bits * start) width)) place =
      field bits (getLittleEndian bytes) (8 * start + place) := by
  unfold slice
  rw [getLittleEndian_take, field_mod inside, getLittleEndian_drop,
    show 8 * (bits * start) = bits * (8 * start) by ring, field_shift]

/-- The sum of bits that do not meet is their disjunction. -/
theorem or_shiftLeft {low high bits : Nat} (fits : low < 2 ^ bits) :
    low ||| (high <<< bits) = low + 2 ^ bits * high := by
  rw [Nat.or_comm, ← Nat.shiftLeft_add_eq_or_of_lt fits, Nat.shiftLeft_eq, Nat.mul_comm,
    Nat.add_comm]

end BitFields
