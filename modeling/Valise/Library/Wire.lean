import Valise.Library.Bytes

/-!
Self-delimiting encodings that carry their own round trip, and the combinators that build the
encoding of a record from those of its fields.
-/

namespace Wire

open ByteLists

structure Codec (α : Type) where
  encode : α → Bytes
  decode : Bytes → Option (α × Bytes)
  decode_encode : ∀ value rest, decode (encode value ++ rest) = some (value, rest)

namespace Codec

variable {α β : Type}

def unit : Codec Unit where
  encode _ := []
  decode bytes := some ((), bytes)
  decode_encode _ _ := rfl

def byte : Codec UInt8 where
  encode value := [value]
  decode
    | [] => none
    | value :: rest => some (value, rest)
  decode_encode _ _ := rfl

def bool : Codec Bool where
  encode
    | false => [0]
    | true => [1]
  decode
    | 0 :: rest => some (false, rest)
    | 1 :: rest => some (true, rest)
    | _ => none
  decode_encode value rest := by cases value <;> rfl

def pair (first : Codec α) (second : Codec β) : Codec (α × β) where
  encode value := first.encode value.1 ++ second.encode value.2
  decode bytes := do
    let (left, bytes) ← first.decode bytes
    let (right, bytes) ← second.decode bytes
    return ((left, right), bytes)
  decode_encode value rest := by
    simp [List.append_assoc, first.decode_encode, second.decode_encode]

/-- Encode through another type, given a way back. -/
def via (codec : Codec β) (forth : α → β) (back : β → α)
    (backForth : ∀ value, back (forth value) = value) : Codec α where
  encode value := codec.encode (forth value)
  decode bytes := (codec.decode bytes).map fun (value, rest) => (back value, rest)
  decode_encode value rest := by simp [codec.decode_encode, backForth]

def option (codec : Codec α) : Codec (Option α) where
  encode
    | none => [0]
    | some value => 1 :: codec.encode value
  decode
    | 0 :: rest => some (none, rest)
    | 1 :: rest => (codec.decode rest).map fun (value, rest) => (some value, rest)
    | _ => none
  decode_encode value rest := by
    cases value with
    | none => rfl
    | some value => simp [codec.decode_encode]

def decodeMany (codec : Codec α) : Nat → Bytes → Option (List α × Bytes)
  | 0, bytes => some ([], bytes)
  | count + 1, bytes => do
      let (value, bytes) ← codec.decode bytes
      let (values, bytes) ← codec.decodeMany count bytes
      return (value :: values, bytes)

theorem decodeMany_encode (codec : Codec α) (values : List α) (rest : Bytes) :
    codec.decodeMany values.length ((values.flatMap codec.encode) ++ rest) =
      some (values, rest) := by
  induction values with
  | nil => rfl
  | cons value values ih =>
      simp [decodeMany, List.append_assoc, codec.decode_encode, ih]

/-- Exactly `width` raw bytes. -/
def fixed (width : Nat) : Codec { bytes : Bytes // bytes.length = width } where
  encode value := value.1
  decode bytes :=
    if inside : width ≤ bytes.length then
      some (⟨bytes.take width, by simp [inside]⟩, bytes.drop width)
    else none
  decode_encode value rest := by
    obtain ⟨bytes, width_eq⟩ := value
    subst width_eq
    simp

end Codec

/-- A marker byte says how many little-endian bytes follow; small values are the marker. -/
def encodeVarint (value : Nat) : Bytes :=
  if value < 251 then [UInt8.ofNat value]
  else if value < 2 ^ 16 then 251 :: putLittleEndian 2 value
  else if value < 2 ^ 32 then 252 :: putLittleEndian 4 value
  else 253 :: putLittleEndian 8 value

def takeLittleEndian (width : Nat) (bytes : Bytes) : Option (Nat × Bytes) :=
  if width ≤ bytes.length then some (getLittleEndian (bytes.take width), bytes.drop width)
  else none

def decodeVarint (width : Nat) : Bytes → Option (Nat × Bytes)
  | [] => none
  | marker :: rest =>
      if marker.toNat < 251 then some (marker.toNat, rest)
      else if marker = 251 ∧ 2 ≤ width then takeLittleEndian 2 rest
      else if marker = 252 ∧ 4 ≤ width then takeLittleEndian 4 rest
      else if marker = 253 ∧ 8 ≤ width then takeLittleEndian 8 rest
      else none

theorem takeLittleEndian_put (width value : Nat) (rest : Bytes) (fits : value < 256 ^ width) :
    takeLittleEndian width (putLittleEndian width value ++ rest) = some (value, rest) := by
  have inside : width ≤ (putLittleEndian width value ++ rest).length := by simp
  unfold takeLittleEndian
  rw [if_pos inside]
  simp [getLittleEndian_put width value fits]

theorem decodeVarint_encode (width value : Nat) (rest : Bytes)
    (wide : width = 2 ∨ width = 4 ∨ width = 8) (fits : value < 256 ^ width) :
    decodeVarint width (encodeVarint value ++ rest) = some (value, rest) := by
  unfold encodeVarint
  split
  · next small =>
      have low : (UInt8.ofNat value).toNat = value := by
        simp
        omega
      simp [decodeVarint, low, small]
  split
  · next medium =>
      have enough : 2 ≤ width := by omega
      simp [decodeVarint, enough, takeLittleEndian_put 2 value rest (by omega)]
  split
  · next large notMedium =>
      have enough : 4 ≤ width := by
        rcases wide with rfl | rfl | rfl
        · omega
        · omega
        · omega
      simp [decodeVarint, enough, takeLittleEndian_put 4 value rest (by omega)]
  · next notLarge =>
      have enough : width = 8 := by
        rcases wide with rfl | rfl | rfl
        · omega
        · omega
        · rfl
      subst enough
      simp [decodeVarint, takeLittleEndian_put 8 value rest fits]

/-! ### Base-128 numbers, low digits first, the high bit set on all but the last -/

def putBase128 : Nat → Nat → Bytes
  | 0, _ => []
  | digits + 1, value =>
      if value < 128 then [UInt8.ofNat value]
      else UInt8.ofNat (value % 128 + 128) :: putBase128 digits (value / 128)

/-- Read into a 64-bit word from bit `shift` on; what is shifted past the word is lost. -/
def getBase128 (shift value : Nat) : Bytes → Option (Nat × Bytes)
  | [] => none
  | byte :: rest =>
      if 64 ≤ shift then none
      else
        let read := value + byte.toNat % 128 * 2 ^ shift % 2 ^ 64
        if byte.toNat < 128 then some (read, rest) else getBase128 (shift + 7) read rest

theorem getBase128_put (digits shift value acc : Nat) (rest : Bytes) (some_digit : 0 < digits)
    (enough : value < 128 ^ digits) (room : shift + 7 * digits ≤ 70)
    (fits : value * 2 ^ shift < 2 ^ 64) :
    getBase128 shift acc (putBase128 digits value ++ rest) =
      some (acc + value * 2 ^ shift, rest) := by
  induction digits generalizing shift value acc with
  | zero => contradiction
  | succ digits ih =>
      have shiftSmall : ¬64 ≤ shift := by omega
      by_cases small : value < 128
      · have low : (UInt8.ofNat value).toNat = value := by
          simp
          omega
        simp only [putBase128, small, if_true, List.cons_append, List.nil_append, getBase128,
          shiftSmall, if_false, low, Nat.mod_eq_of_lt small, Nat.mod_eq_of_lt fits]
      · have low : (UInt8.ofNat (value % 128 + 128)).toNat = value % 128 + 128 := by
          simp
          omega
        have continued : ¬value % 128 + 128 < 128 := by omega
        have digit : (value % 128 + 128) % 128 = value % 128 := by omega
        have digitFits : value % 128 * 2 ^ shift < 2 ^ 64 :=
          Nat.lt_of_le_of_lt (Nat.mul_le_mul_right _ (Nat.mod_le _ _)) fits
        have pieces : value % 128 * 2 ^ shift + value / 128 * 2 ^ (shift + 7) =
            value * 2 ^ shift := by
          have shifted : value / 128 * 2 ^ (shift + 7) = 128 * (value / 128) * 2 ^ shift := by
            rw [Nat.pow_add, Nat.mul_comm (2 ^ shift), ← Nat.mul_assoc, Nat.mul_comm 128]
          rw [shifted, ← Nat.add_mul, Nat.mod_add_div]
        have moreDigits : 0 < digits := by
          rcases Nat.eq_zero_or_pos digits with none_left | more
          · subst none_left
            omega
          · exact more
        simp only [putBase128, small, if_false, List.cons_append, getBase128, shiftSmall, low,
          continued, digit, Nat.mod_eq_of_lt digitFits]
        rw [ih (shift + 7) (value / 128) _ moreDigits
          (Nat.div_lt_of_lt_mul (by rwa [Nat.pow_succ, Nat.mul_comm] at enough)) (by omega)
          (by omega)]
        rw [← pieces, Nat.add_assoc]

namespace Codec

def uint16 : Codec UInt16 where
  encode value := encodeVarint value.toNat
  decode bytes := (decodeVarint 2 bytes).map fun (value, rest) => (UInt16.ofNat value, rest)
  decode_encode value rest := by
    rw [decodeVarint_encode 2 value.toNat rest (by simp) (by simpa using value.toNat_lt)]
    simp

def uint32 : Codec UInt32 where
  encode value := encodeVarint value.toNat
  decode bytes := (decodeVarint 4 bytes).map fun (value, rest) => (UInt32.ofNat value, rest)
  decode_encode value rest := by
    rw [decodeVarint_encode 4 value.toNat rest (by simp) (by simpa using value.toNat_lt)]
    simp

def uint64 : Codec UInt64 where
  encode value := encodeVarint value.toNat
  decode bytes := (decodeVarint 8 bytes).map fun (value, rest) => (UInt64.ofNat value, rest)
  decode_encode value rest := by
    rw [decodeVarint_encode 8 value.toNat rest (by simp) (by simpa using value.toNat_lt)]
    simp

/-- A count, then the elements. A list in memory is shorter than `2 ^ 64`. -/
def list (codec : Codec α) : Codec { values : List α // values.length < 2 ^ 64 } where
  encode values := encodeVarint values.1.length ++ values.1.flatMap codec.encode
  decode bytes := do
    let (count, bytes) ← decodeVarint 8 bytes
    let (values, bytes) ← codec.decodeMany count bytes
    if short : values.length < 2 ^ 64 then return (⟨values, short⟩, bytes) else none
  decode_encode values rest := by
    obtain ⟨values, short⟩ := values
    have fits : values.length < 256 ^ 8 := by
      simpa using short
    simp only [List.append_assoc]
    rw [decodeVarint_encode 8 _ _ (by simp) fits]
    simpa [codec.decodeMany_encode] using short

end Codec

end Wire
