import Valise.Library.Wire
import Valise.Library.Command

/-!
Decoders that move a cursor through a byte string, and rules for what they read back of an
encoding: a decoder reads a piece of bytes when it returns the value behind it and stops where the
piece ends.
-/

namespace Cursors

open ByteLists Commands Command Outcomes

/-- `reserved` is the most items that room was made for at once. -/
structure Cursor where
  pos : Nat
  rest : Bytes
  reserved : Nat := 0
deriving DecidableEq

abbrev Decoder (ε α : Type) := Command Cursor ε α

variable {ε α β γ : Type}

def start (bytes : Bytes) : Cursor := ⟨0, bytes, 0⟩

/-- The result of a decoder on a whole byte string. -/
def decodeAll (decoder : Decoder ε α) (bytes : Bytes) : Outcome ε α := (decoder (start bytes)).1

def takeBytes (short : Nat → ε) (count : Nat) : Decoder ε Bytes := fun cursor =>
  if count ≤ cursor.rest.length then
    (.ok (cursor.rest.take count), ⟨cursor.pos + count, cursor.rest.drop count, cursor.reserved⟩)
  else (.err (short cursor.pos), cursor)

def takeNumber (short : Nat → ε) (width : Nat) : Decoder ε Nat := do
  let bytes ← takeBytes short width
  return getLittleEndian bytes

def takeByte (short : Nat → ε) : Decoder ε UInt8 := do
  let value ← takeNumber short 1
  return UInt8.ofNat value

/-- At most `digits` groups of seven bits, low ones first; what is past 64 bits is lost. -/
def takeBase128 (short : Nat → ε) (long : ε) : Nat → Nat → Nat → Decoder ε Nat
  | 0, _, _ => lift (.err long)
  | digits + 1, shift, value => do
      let byte ← takeByte short
      let read := value + byte.toNat % 128 * 2 ^ shift % 2 ^ 64
      if byte.toNat < 128 then return read else takeBase128 short long digits (shift + 7) read

def takeMany (item : Decoder ε α) : Nat → Decoder ε (List α)
  | 0 => return []
  | count + 1 => do
      let value ← item
      let values ← takeMany item count
      return value :: values

/-- Make room for a vector of so many items. -/
def reserve (count : Nat) : Decoder ε Unit :=
  Command.modify fun cursor => { cursor with reserved := max cursor.reserved count }

/-- Decode a piece by a cursor of its own. -/
def within (piece : Bytes) (decoder : Decoder ε α) : Decoder ε α := fun cursor =>
  let (result, inner) := decoder ⟨0, piece, cursor.reserved⟩
  (result, { cursor with reserved := inner.reserved })

/-- Nothing may be left. -/
def atEnd (trailing : Nat → ε) : Decoder ε Unit := do
  let cursor ← Command.get
  lift (Outcome.ensure (cursor.rest = []) (trailing cursor.rest.length))

/-! ### Reading back -/

def Reads (decoder : Decoder ε α) (bytes : Bytes) (value : α) : Prop :=
  ∀ pos rest reserved, ∃ now,
    decoder ⟨pos, bytes ++ rest, reserved⟩ = (.ok value, ⟨pos + bytes.length, rest, now⟩)

/-- The decoder takes the piece as the whole of what is left. -/
def Finishes (decoder : Decoder ε α) (bytes : Bytes) (value : α) : Prop :=
  ∀ pos reserved, (decoder ⟨pos, bytes, reserved⟩).1 = .ok value

theorem reads_pure (value : α) : Reads (pure value : Decoder ε α) [] value := by
  intro pos rest reserved
  exact ⟨reserved, rfl⟩

theorem Reads.bind {first : Decoder ε α} {next : α → Decoder ε β} {bytes more : Bytes} {value : α}
    {result : β} (read : Reads first bytes value) (later : Reads (next value) more result) :
    Reads (first >>= next) (bytes ++ more) result := by
  intro pos rest reserved
  obtain ⟨middle, firstDone⟩ := read pos (more ++ rest) reserved
  obtain ⟨now, laterDone⟩ := later (pos + bytes.length) rest middle
  refine ⟨now, ?_⟩
  rw [List.append_assoc, bind_of_ok firstDone, laterDone, List.length_append, Nat.add_assoc]

theorem Reads.map {decoder : Decoder ε α} {bytes : Bytes} {value : α} (change : α → β)
    (read : Reads decoder bytes value) :
    Reads (do let found ← decoder; return change found) bytes (change value) := by
  intro pos rest reserved
  obtain ⟨now, done⟩ := read pos rest reserved
  refine ⟨now, ?_⟩
  rw [bind_of_ok done]
  rfl

theorem Reads.lift {result : Outcome ε α} {next : α → Decoder ε β} {bytes : Bytes} {value : α}
    {last : β} (done : result = .ok value) (later : Reads (next value) bytes last) :
    Reads (Command.lift result >>= next) bytes last := by
  intro pos rest reserved
  rw [bind_of_ok (lift_eq_ok.mpr ⟨done, Eq.refl _⟩)]
  exact later pos rest reserved

theorem Reads.reserve {count : Nat} {next : Unit → Decoder ε β} {bytes : Bytes} {last : β}
    (later : Reads (next ()) bytes last) : Reads (Cursors.reserve count >>= next) bytes last :=
  fun pos rest reserved => later pos rest (max reserved count)

theorem Reads.ensure {condition : Prop} [Decidable condition] {error : ε}
    {next : Unit → Decoder ε β} {bytes : Bytes} {last : β} (holds : condition)
    (later : Reads (next ()) bytes last) :
    Reads (Command.lift (Outcome.ensure condition error) >>= next) bytes last :=
  later.lift (Outcome.ensure_true _ holds)

theorem reads_check {condition : Prop} [Decidable condition] {error : ε} (holds : condition) :
    Reads (Command.lift (Outcome.ensure condition error)) [] () := by
  intro pos rest reserved
  refine ⟨reserved, ?_⟩
  rw [lift_apply, Outcome.ensure_true _ holds]
  rfl

theorem Finishes.bind {first : Decoder ε α} {next : α → Decoder ε β} {bytes more : Bytes}
    {value : α} {result : β} (read : Reads first bytes value)
    (later : Finishes (next value) more result) : Finishes (first >>= next) (bytes ++ more) result := by
  intro pos reserved
  obtain ⟨now, done⟩ := read pos more reserved
  rw [bind_of_ok done]
  exact later _ now

theorem Finishes.lift {result : Outcome ε α} {next : α → Decoder ε β} {bytes : Bytes} {value : α}
    {last : β} (done : result = .ok value) (later : Finishes (next value) bytes last) :
    Finishes (Command.lift result >>= next) bytes last := by
  intro pos reserved
  rw [bind_of_ok (lift_eq_ok.mpr ⟨done, Eq.refl _⟩)]
  exact later pos reserved

theorem Finishes.reserve {count : Nat} {next : Unit → Decoder ε β} {bytes : Bytes} {last : β}
    (later : Finishes (next ()) bytes last) :
    Finishes (Cursors.reserve count >>= next) bytes last :=
  fun pos reserved => later pos (max reserved count)

theorem Finishes.ensure {condition : Prop} [Decidable condition] {error : ε}
    {next : Unit → Decoder ε β} {bytes : Bytes} {last : β} (holds : condition)
    (later : Finishes (next ()) bytes last) :
    Finishes (Command.lift (Outcome.ensure condition error) >>= next) bytes last :=
  later.lift (Outcome.ensure_true _ holds)

theorem finishes_pure (value : α) : Finishes (pure value : Decoder ε α) [] value :=
  fun _ _ => rfl

theorem Reads.finishes {decoder : Decoder ε α} {bytes : Bytes} {value : α}
    (read : Reads decoder bytes value) : Finishes decoder bytes value := by
  intro pos reserved
  obtain ⟨now, whole⟩ := read pos [] reserved
  rw [List.append_nil] at whole
  rw [whole]

theorem finishes_atEnd {trailing : Nat → ε} {next : Unit → Decoder ε β} {result : β}
    (later : Finishes (next ()) [] result) : Finishes (atEnd trailing >>= next) [] result := by
  intro pos reserved
  have ended : atEnd trailing ⟨pos, [], reserved⟩ = (.ok (), ⟨pos, [], reserved⟩) := rfl
  rw [bind_of_ok ended]
  exact later pos reserved

/-- A piece that is read to its end is read whole. -/
theorem Reads.toEnd {decoder : Decoder ε α} {bytes : Bytes} {value : α} {trailing : Nat → ε}
    (read : Reads decoder bytes value) :
    Finishes (do let found ← decoder; atEnd trailing; return found) bytes value := by
  rw [← List.append_nil bytes]
  exact Finishes.bind read (finishes_atEnd (finishes_pure value))

theorem Finishes.decodeAll {decoder : Decoder ε α} {bytes : Bytes} {value : α}
    (finishes : Finishes decoder bytes value) : decodeAll decoder bytes = .ok value :=
  finishes 0 0

theorem Finishes.within {decoder : Decoder ε α} {piece : Bytes} {value : α}
    (finishes : Finishes decoder piece value) : Reads (within piece decoder) [] value := by
  intro pos rest reserved
  have done := finishes 0 reserved
  cases ran : decoder ⟨0, piece, reserved⟩ with
  | mk result inner =>
      rw [ran] at done
      obtain rfl : result = .ok value := done
      refine ⟨inner.reserved, ?_⟩
      simp only [Cursors.within, ran, List.nil_append, List.length_nil, Nat.add_zero]

/-! ### The primitives -/

theorem reads_takeBytes (short : Nat → ε) (bytes : Bytes) :
    Reads (takeBytes short bytes.length) bytes bytes := by
  intro pos rest reserved
  refine ⟨reserved, ?_⟩
  unfold takeBytes
  rw [if_pos (by simp)]
  simp

theorem reads_takeNumber (short : Nat → ε) (width value : Nat) (fits : value < 256 ^ width) :
    Reads (takeNumber short width) (putLittleEndian width value) value := by
  have read := (reads_takeBytes short (putLittleEndian width value)).map getLittleEndian
  rwa [putLittleEndian_length, getLittleEndian_put width value fits] at read

theorem reads_takeByte (short : Nat → ε) (value : UInt8) : Reads (takeByte short) [value] value := by
  have number := (reads_takeBytes short [value]).map getLittleEndian
  have byte : Reads (takeByte short) [value] (UInt8.ofNat (getLittleEndian [value])) :=
    number.map UInt8.ofNat
  simpa [getLittleEndian] using byte

theorem reads_takeMany_map {item : Decoder ε α} {put : β → Bytes} {value : β → α} {items : List β}
    (each : ∀ entry ∈ items, Reads item (put entry) (value entry)) :
    Reads (takeMany item items.length) (items.flatMap put) (items.map value) := by
  induction items with
  | nil => exact reads_pure []
  | cons entry items ih =>
      have later := ih fun other member => each other (List.mem_cons_of_mem _ member)
      exact (each entry List.mem_cons_self).bind (later.map (value entry :: ·))

theorem reads_takeMany {item : Decoder ε α} {put : α → Bytes} {values : List α}
    (each : ∀ value ∈ values, Reads item (put value) value) :
    Reads (takeMany item values.length) (values.flatMap put) values := by
  have read := @reads_takeMany_map ε α α item put id values each
  rwa [List.map_id] at read

theorem reads_takeBase128 (short : Nat → ε) (long : ε) {digits shift value : Nat} (acc : Nat)
    (someDigit : 0 < digits) (enough : value < 128 ^ digits) (fits : value * 2 ^ shift < 2 ^ 64) :
    Reads (takeBase128 short long digits shift acc) (Wire.putBase128 digits value)
      (acc + value * 2 ^ shift) := by
  induction digits generalizing shift value acc with
  | zero => contradiction
  | succ digits ih =>
      by_cases small : value < 128
      · have low : (UInt8.ofNat value).toNat = value := by
          simp
          omega
        have digit : acc + (UInt8.ofNat value).toNat % 128 * 2 ^ shift % 2 ^ 64 =
            acc + value * 2 ^ shift := by
          rw [low, Nat.mod_eq_of_lt small, Nat.mod_eq_of_lt fits]
        have stops : (UInt8.ofNat value).toNat < 128 := by omega
        rw [Wire.putBase128, if_pos small, takeBase128, ← List.append_nil [UInt8.ofNat value]]
        refine (reads_takeByte short (UInt8.ofNat value)).bind ?_
        rw [if_pos stops, digit]
        exact reads_pure _
      · have low : (UInt8.ofNat (value % 128 + 128)).toNat = value % 128 + 128 := by
          simp
          omega
        have digitFits : value % 128 * 2 ^ shift < 2 ^ 64 :=
          Nat.lt_of_le_of_lt (Nat.mul_le_mul_right _ (Nat.mod_le _ _)) fits
        have digit : (UInt8.ofNat (value % 128 + 128)).toNat % 128 * 2 ^ shift % 2 ^ 64 =
            value % 128 * 2 ^ shift := by
          rw [low, show (value % 128 + 128) % 128 = value % 128 by omega,
            Nat.mod_eq_of_lt digitFits]
        have continues : ¬(UInt8.ofNat (value % 128 + 128)).toNat < 128 := by omega
        have pieces : value % 128 * 2 ^ shift + value / 128 * 2 ^ (shift + 7) =
            value * 2 ^ shift := by
          have shifted : value / 128 * 2 ^ (shift + 7) = 128 * (value / 128) * 2 ^ shift := by
            rw [Nat.pow_add, Nat.mul_comm (2 ^ shift), ← Nat.mul_assoc, Nat.mul_comm 128]
          rw [shifted, ← Nat.add_mul, Nat.mod_add_div]
        have moreDigits : 0 < digits := by
          rcases Nat.eq_zero_or_pos digits with noneLeft | more
          · subst noneLeft
            omega
          · exact more
        have later := @ih (shift + 7) (value / 128) (acc + value % 128 * 2 ^ shift) moreDigits
          (Nat.div_lt_of_lt_mul (by rwa [Nat.pow_succ, Nat.mul_comm] at enough)) (by omega)
        rw [Nat.add_assoc, pieces] at later
        rw [Wire.putBase128, if_neg small, takeBase128, ← List.singleton_append]
        refine (reads_takeByte short (UInt8.ofNat (value % 128 + 128))).bind ?_
        rw [if_neg continues, digit]
        exact later

end Cursors
