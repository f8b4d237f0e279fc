import Valise.Library.Numerals

/-!
Vector registers of bytes, and the instructions that count the bits in them. A lane past the width
of a register is never read.
-/

namespace ByteRegisters

open Finset

abbrev Register (α : Type) := Nat → α

/-! ### Bits -/

/-- How many of the lowest `width` bits are set. -/
def onesBelow (width value : Nat) : Nat := (List.range width).countP value.testBit

def byteOnes (byte : UInt8) : Nat := onesBelow 8 byte.toNat

theorem onesBelow_eq (width value : Nat) :
    onesBelow width value = ∑ bit ∈ range width, (value.testBit bit).toNat := by
  unfold onesBelow
  induction width with
  | zero => rfl
  | succ width ih =>
      rw [List.range_succ, List.countP_append, ih, sum_range_succ, List.countP_singleton]
      cases value.testBit width <;> rfl

theorem onesBelow_le (width value : Nat) : onesBelow width value ≤ width := by
  have counted := List.countP_le_length (p := value.testBit) (l := List.range width)
  rwa [List.length_range] at counted

theorem byteOnes_le (byte : UInt8) : byteOnes byte ≤ 8 := onesBelow_le 8 byte.toNat

/-! ### Instructions -/

variable {memory : Nat → UInt8} {a b : Register UInt8}

def loadu (memory : Nat → UInt8) (start : Nat) : Register UInt8 := fun lane => memory (start + lane)

def xorSi256 (a b : Register UInt8) : Register UInt8 := fun lane => a lane ^^^ b lane

def andSi256 (a b : Register UInt8) : Register UInt8 := fun lane => a lane &&& b lane

def set1Epi8 (value : UInt8) : Register UInt8 := fun _ => value

/-- Two bytes are shifted as one number of 16 bits. -/
def srliEpi16 (a : Register UInt8) (count : Nat) : Register UInt8 := fun lane =>
  let shifted := ((a (2 * (lane / 2))).toNat + 256 * (a (2 * (lane / 2) + 1)).toNat) / 2 ^ count
  UInt8.ofNat (if lane % 2 = 0 then shifted else shifted / 256)

/-- Each half of 16 lanes is looked up in its own half of the table. -/
def shuffleEpi8 (table places : Register UInt8) : Register UInt8 := fun lane =>
  if (places lane).toNat.testBit 7 then 0
  else table (16 * (lane / 16) + (places lane).toNat % 16)

def addEpi8 (a b : Register UInt8) : Register UInt8 := fun lane => a lane + b lane

def absDiff (x y : UInt8) : Nat := (x.toNat - y.toNat) + (y.toNat - x.toNat)

/-- The absolute differences, summed eight by eight. -/
def sadEpu8 (a b : Register UInt8) : Register UInt64 := fun lane =>
  UInt64.ofNat (∑ byte ∈ range 8, absDiff (a (8 * lane + byte)) (b (8 * lane + byte)))

def addEpi64 (a b : Register UInt64) : Register UInt64 := fun lane => a lane + b lane

def vcntqU8 (a : Register UInt8) : Register UInt8 := fun lane => UInt8.ofNat (byteOnes (a lane))

def vpaddlqU8 (a : Register UInt8) : Register UInt16 := fun lane =>
  UInt16.ofNat ((a (2 * lane)).toNat + (a (2 * lane + 1)).toNat)

def vaddqU16 (a b : Register UInt16) : Register UInt16 := fun lane => a lane + b lane

/-- The sum of all lanes has 16 bits, too. -/
def vaddvqU16 (a : Register UInt16) : UInt16 :=
  UInt16.ofNat (∑ lane ∈ range 8, (a lane).toNat)

/-! ### The nibble table -/

def nibbleLut : Register UInt8 := fun lane =>
  [0, 1, 1, 2, 1, 2, 2, 3, 1, 2, 2, 3, 2, 3, 3, 4, 0, 1, 1, 2, 1, 2, 2, 3, 1, 2, 2, 3, 2, 3, 3,
    4].getD lane 0

theorem nibbleLut_half {lane place : Nat} (inside : lane < 32) (small : place < 16) :
    nibbleLut (16 * (lane / 16) + place) = nibbleLut place := by
  have half : lane / 16 = 0 ∨ lane / 16 = 1 := by omega
  rcases half with low | high
  · rw [low, Nat.mul_zero, Nat.zero_add]
  · rw [high]
    have all : ∀ place : Fin 16, nibbleLut (16 * 1 + place.1) = nibbleLut place.1 := by decide
    exact all ⟨place, small⟩

theorem nibble_ones {value : Nat} (small : value < 256) :
    nibbleLut (value % 16) + nibbleLut (value / 16) = UInt8.ofNat (onesBelow 8 value) := by
  have all : ∀ value : Fin 256, nibbleLut (value.1 % 16) + nibbleLut (value.1 / 16) =
      UInt8.ofNat (onesBelow 8 value.1) := by decide +kernel
  exact all ⟨value, small⟩

theorem low_nibble (lane : Nat) : (andSi256 a (set1Epi8 0x0F) lane).toNat = (a lane).toNat % 16 := by
  rw [andSi256, set1Epi8, UInt8.toNat_and]
  exact Nat.and_two_pow_sub_one_eq_mod _ 4

/-- What leaks in from the next byte is masked off. -/
theorem high_nibble (lane : Nat) :
    (andSi256 (srliEpi16 a 4) (set1Epi8 0x0F) lane).toNat = (a lane).toNat / 16 := by
  rw [low_nibble]
  have bytes := (a lane).toNat_lt
  unfold srliEpi16
  dsimp only
  rw [UInt8.toNat_ofNat']
  split
  · rename_i even
    have same : 2 * (lane / 2) = lane := by omega
    rw [same]
    omega
  · rename_i odd
    have same : 2 * (lane / 2) + 1 = lane := by omega
    rw [same]
    have below := (a (2 * (lane / 2))).toNat_lt
    omega

/-- The two look-ups count the bits of a byte. -/
theorem nibbles_count {lane : Nat} (inside : lane < 32) :
    (addEpi8 (shuffleEpi8 nibbleLut (andSi256 a (set1Epi8 0x0F)))
      (shuffleEpi8 nibbleLut (andSi256 (srliEpi16 a 4) (set1Epi8 0x0F))) lane).toNat =
      byteOnes (a lane) := by
  have bytes := (a lane).toNat_lt
  have few := byteOnes_le (a lane)
  have look : ∀ places : Register UInt8, (places lane).toNat < 16 →
      shuffleEpi8 nibbleLut places lane = nibbleLut (places lane).toNat := by
    intro places small
    have clear : (places lane).toNat.testBit 7 = false :=
      Nat.testBit_lt_two_pow (Nat.lt_of_lt_of_le small (by decide))
    rw [shuffleEpi8, clear, if_neg Bool.false_ne_true, Nat.mod_eq_of_lt small,
      nibbleLut_half inside small]
  rw [addEpi8, look _ (by rw [low_nibble]; omega), look _ (by rw [high_nibble]; omega), low_nibble,
    high_nibble, nibble_ones bytes, UInt8.toNat_ofNat']
  exact Nat.mod_eq_of_lt (by unfold byteOnes at few; omega)

end ByteRegisters
