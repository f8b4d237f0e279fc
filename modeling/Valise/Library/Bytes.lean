import Valise.Library.Numerals

/-!
Fixed-width little-endian numbers as byte lists.
-/

namespace ByteLists

abbrev Bytes := List UInt8

def putLittleEndian : Nat → Nat → Bytes
  | 0, _ => []
  | width + 1, value => UInt8.ofNat (value % 256) :: putLittleEndian width (value / 256)

def getLittleEndian : Bytes → Nat
  | [] => 0
  | byte :: bytes => byte.toNat + 256 * getLittleEndian bytes

@[simp] theorem putLittleEndian_length (width value : Nat) :
    (putLittleEndian width value).length = width := by
  induction width generalizing value with
  | zero => rfl
  | succ width ih => simp [putLittleEndian, ih]

theorem drop_putLittleEndian (width value count : Nat) (past : width ≤ count) :
    (putLittleEndian width value).drop count = [] :=
  List.drop_eq_nil_of_le (by simpa using past)

theorem getLittleEndian_lt (bytes : Bytes) : getLittleEndian bytes < 256 ^ bytes.length := by
  induction bytes with
  | nil => simp [getLittleEndian]
  | cons byte bytes ih =>
      have byteBound := byte.toNat_lt
      simp only [getLittleEndian, List.length_cons, Nat.pow_succ]
      omega

theorem getLittleEndian_put (width value : Nat) (fits : value < 256 ^ width) :
    getLittleEndian (putLittleEndian width value) = value := by
  induction width generalizing value with
  | zero =>
      simp only [Nat.pow_zero] at fits
      simp [putLittleEndian, getLittleEndian]
      omega
  | succ width ih =>
      have rest : value / 256 < 256 ^ width := by
        apply Nat.div_lt_of_lt_mul
        rw [Nat.pow_succ] at fits
        omega
      have low : (UInt8.ofNat (value % 256)).toNat = value % 256 := by
        simp
      simp only [putLittleEndian, getLittleEndian, ih _ rest, low]
      omega

theorem putLittleEndian_get (bytes : Bytes) :
    putLittleEndian bytes.length (getLittleEndian bytes) = bytes := by
  induction bytes with
  | nil => rfl
  | cons byte bytes ih =>
      have byteBound := byte.toNat_lt
      have low : (byte.toNat + 256 * getLittleEndian bytes) % 256 = byte.toNat := by omega
      have high : (byte.toNat + 256 * getLittleEndian bytes) / 256 = getLittleEndian bytes := by
        omega
      simp only [List.length_cons, putLittleEndian, getLittleEndian, low, high, ih]
      rw [UInt8.ofNat_toNat]

/-- The `width` bytes that start at `offset`. -/
def slice (bytes : Bytes) (offset width : Nat) : Bytes :=
  (bytes.drop offset).take width

theorem slice_length {bytes : Bytes} {offset width : Nat}
    (inside : offset + width ≤ bytes.length) : (slice bytes offset width).length = width := by
  simp only [slice, List.length_take, List.length_drop]
  omega

theorem slice_append_left (front back : Bytes) (offset width : Nat)
    (inside : offset + width ≤ front.length) :
    slice (front ++ back) offset width = slice front offset width := by
  unfold slice
  rw [List.drop_append_of_le_length (by omega), List.take_append_of_le_length]
  simp only [List.length_drop]
  omega

theorem slice_append_right (front back : Bytes) (offset width : Nat) :
    slice (front ++ back) (front.length + offset) width = slice back offset width := by
  unfold slice
  rw [List.drop_append, List.drop_eq_nil_of_le (by omega)]
  simp

theorem slice_slice (bytes : Bytes) (offset width innerOffset innerWidth : Nat)
    (inside : innerOffset + innerWidth ≤ width) :
    slice (slice bytes offset width) innerOffset innerWidth =
      slice bytes (offset + innerOffset) innerWidth := by
  unfold slice
  rw [List.drop_take, List.drop_drop, List.take_take, Nat.min_eq_left (by omega)]

theorem slice_take (bytes : Bytes) (count offset width : Nat)
    (inside : offset + width ≤ (bytes.take count).length) :
    slice (bytes.take count) offset width = slice bytes offset width := by
  have whole := slice_append_left (bytes.take count) (bytes.drop count) offset width inside
  rwa [List.take_append_drop, eq_comm] at whole

/-- Pieces of one width stand at the multiples of it. -/
theorem slice_flatMap {α : Type} {piece : α → Bytes} {width : Nat} {items : List α}
    (uniform : ∀ item ∈ items, (piece item).length = width) {index : Nat} {item : α}
    (found : items[index]? = some item) (back : Bytes) :
    slice (items.flatMap piece ++ back) (index * width) width = piece item := by
  induction items generalizing index with
  | nil => simp at found
  | cons head rest ih =>
      have headWidth := uniform head List.mem_cons_self
      rw [List.flatMap_cons, List.append_assoc]
      cases index with
      | zero =>
          obtain rfl : head = item := by simpa using found
          rw [Nat.zero_mul, slice_append_left _ _ _ _ (by omega), slice, List.drop_zero,
            List.take_of_length_le (by omega)]
      | succ index =>
          have later := ih (fun item inRest => uniform item (List.mem_cons_of_mem _ inRest))
            (by simpa using found)
          rw [show (index + 1) * width = (piece head).length + index * width by
            rw [headWidth, Nat.succ_mul, Nat.add_comm], slice_append_right, later]

theorem length_flatMap_uniform {α : Type} {piece : α → Bytes} {width : Nat} {items : List α}
    (uniform : ∀ item ∈ items, (piece item).length = width) :
    (items.flatMap piece).length = items.length * width := by
  induction items with
  | nil => simp
  | cons head rest ih =>
      rw [List.flatMap_cons, List.length_append, uniform head List.mem_cons_self,
        ih fun item inRest => uniform item (List.mem_cons_of_mem _ inRest), List.length_cons,
        Nat.succ_mul, Nat.add_comm]

end ByteLists
