import Valise.Library.Butterflies
import Valise.Library.ByteRegisters
import Valise.SketchScan

/-!
The kernels that count the bits in which two sketches differ. All of them count the same bits, and
a sketch of a file's dimension fills none of their lanes.
-/

namespace Valise.SketchScan

open Butterflies ByteRegisters Finset

/-! ### The kernels -/

/-- A byte of the words in memory, the lowest one first. -/
def byteAt (words : List UInt64) (place : Nat) : UInt8 :=
  UInt8.ofNat ((words.getD (place / 8) 0).toNat / 2 ^ (8 * (place % 8)))

def hammingPopcnt (a b : List UInt64) : Nat :=
  (List.range a.length).foldl (fun h w =>
    (h + countOnes (a.getD w 0 ^^^ b.getD w 0)) % 2 ^ 64) 0 % 2 ^ 32

/-- Byte after byte, for what is left of the last chunk. -/
def tailLoop (width : Nat) (pa pb : Nat → UInt8) (nb i h : Nat) : Nat :=
  if i < nb then tailLoop width pa pb nb (i + 1) ((h + byteOnes (pa i ^^^ pb i)) % 2 ^ width) else h
termination_by nb - i

/-- The counts of 32 bytes, each from its two nibbles. -/
def chunkBytes (pa pb : Nat → UInt8) (i : Nat) : Register UInt8 :=
  let av := loadu pa i
  let bv := loadu pb i
  let x := xorSi256 av bv
  let lo := andSi256 x (set1Epi8 0x0F)
  let hi := andSi256 (srliEpi16 x 4) (set1Epi8 0x0F)
  let popLo := shuffleEpi8 nibbleLut lo
  let popHi := shuffleEpi8 nibbleLut hi
  addEpi8 popLo popHi

def shuffleChunk (pa pb : Nat → UInt8) (i : Nat) (acc : Register UInt64) : Register UInt64 :=
  addEpi64 acc (sadEpu8 (chunkBytes pa pb i) (set1Epi8 0))

def shuffleLoop (pa pb : Nat → UInt8) (nb i : Nat) (acc : Register UInt64) :
    Nat × Register UInt64 :=
  if i + 32 ≤ nb then shuffleLoop pa pb nb (i + 32) (shuffleChunk pa pb i acc) else (i, acc)
termination_by nb - i

def hammingShuffle (a b : List UInt64) : Nat :=
  let nb := a.length * 8
  let (i, acc) := shuffleLoop (byteAt a) (byteAt b) nb 0 fun _ => 0
  let h := ((((acc 0).toNat + (acc 1).toNat) % 2 ^ 64 + (acc 2).toNat) % 2 ^ 64 +
    (acc 3).toNat) % 2 ^ 64
  tailLoop 64 (byteAt a) (byteAt b) nb i h % 2 ^ 32

def neonChunk (pa pb : Nat → UInt8) (i : Nat) (s : Register UInt16) : Register UInt16 :=
  let x := xorSi256 (loadu pa i) (loadu pb i)
  vaddqU16 s (vpaddlqU8 (vcntqU8 x))

def neonLoop (pa pb : Nat → UInt8) (nb i : Nat) (s : Register UInt16) : Nat × Register UInt16 :=
  if i + 16 ≤ nb then neonLoop pa pb nb (i + 16) (neonChunk pa pb i s) else (i, s)
termination_by nb - i

def hammingNeon (a b : List UInt64) : Nat :=
  let nb := a.length * 8
  let (i, s) := neonLoop (byteAt a) (byteAt b) nb 0 fun _ => 0
  tailLoop 32 (byteAt a) (byteAt b) nb i (vaddvqU16 s).toNat

/-! ### Bytes that differ -/

variable {pa pb : Nat → UInt8}

/-- How many bits differ in a byte. -/
def differing (pa pb : Nat → UInt8) (i : Nat) : Nat := byteOnes (pa i ^^^ pb i)

/-- How many bits differ in the bytes before one. -/
def differingBefore (pa pb : Nat → UInt8) (i : Nat) : Nat := ∑ j ∈ range i, differing pa pb j

theorem differingBefore_add (i more : Nat) : differingBefore pa pb (i + more) =
    differingBefore pa pb i + ∑ j ∈ range more, differing pa pb (i + j) :=
  sum_range_add _ _ _

theorem differingBefore_mono {i nb : Nat} (before : i ≤ nb) :
    differingBefore pa pb i ≤ differingBefore pa pb nb :=
  sum_le_sum_of_subset (range_mono before)

theorem tailLoop_eq {width nb i h : Nat} (before : i ≤ nb) (counted : h = differingBefore pa pb i)
    (fits : differingBefore pa pb nb < 2 ^ width) :
    tailLoop width pa pb nb i h = differingBefore pa pb nb := by
  induction steps : nb - i generalizing i h with
  | zero =>
      rw [tailLoop, if_neg (by omega), counted, show i = nb by omega]
  | succ steps ih =>
      have next : differingBefore pa pb (i + 1) =
          differingBefore pa pb i + byteOnes (pa i ^^^ pb i) := sum_range_succ _ _
      have less := @differingBefore_mono pa pb (i + 1) nb (by omega)
      have step : (h + byteOnes (pa i ^^^ pb i)) % 2 ^ width = differingBefore pa pb (i + 1) := by
        rw [counted, next]
        exact Nat.mod_eq_of_lt (by omega)
      rw [tailLoop, if_pos (by omega)]
      exact ih (by omega) step (by omega)

theorem chunkBytes_lane (i : Nat) {lane : Nat} (inside : lane < 32) :
    (chunkBytes pa pb i lane).toNat = differing pa pb (i + lane) := by
  unfold chunkBytes
  rw [nibbles_count inside]
  rfl

/-- The sums of a chunk, eight bytes in each. -/
theorem chunk_sum (i : Nat) {lane : Nat} (inside : lane < 4) :
    (sadEpu8 (chunkBytes pa pb i) (set1Epi8 0) lane).toNat =
      ∑ byte ∈ range 8, differing pa pb (i + (8 * lane + byte)) := by
  have each : ∀ byte ∈ range 8, absDiff (chunkBytes pa pb i (8 * lane + byte))
      (set1Epi8 0 (8 * lane + byte)) = differing pa pb (i + (8 * lane + byte)) := by
    intro byte member
    have small := mem_range.mp member
    have zero : (set1Epi8 0 (8 * lane + byte)).toNat = 0 := rfl
    rw [absDiff, chunkBytes_lane i (show 8 * lane + byte < 32 by omega), zero, Nat.sub_zero,
      Nat.zero_sub, Nat.add_zero]
  have bounded : ∑ byte ∈ range 8, differing pa pb (i + (8 * lane + byte)) ≤ 8 * 8 :=
    (sum_le_card_nsmul _ _ 8 fun byte _ => byteOnes_le _).trans_eq rfl
  rw [sadEpu8, sum_congr rfl each, UInt64.toNat_ofNat']
  exact Nat.mod_eq_of_lt (by omega)

theorem shuffleChunk_sum {i nb : Nat} {acc : Register UInt64}
    (counted : ∑ lane ∈ range 4, (acc lane).toNat = differingBefore pa pb i)
    (inside : i + 32 ≤ nb) (fits : differingBefore pa pb nb < 2 ^ 64) :
    ∑ lane ∈ range 4, (shuffleChunk pa pb i acc lane).toNat = differingBefore pa pb (i + 32) := by
  have next := @differingBefore_add pa pb i 32
  have less := @differingBefore_mono pa pb (i + 32) nb inside
  have blocks : ∑ j ∈ range 32, differing pa pb (i + j) =
      ∑ lane ∈ range 4, ∑ byte ∈ range 8, differing pa pb (i + (8 * lane + byte)) :=
    sum_blocks 8 4 fun j => differing pa pb (i + j)
  have each : ∀ lane ∈ range 4, (shuffleChunk pa pb i acc lane).toNat = (acc lane).toNat +
      ∑ byte ∈ range 8, differing pa pb (i + (8 * lane + byte)) := by
    intro lane member
    have first : (acc lane).toNat ≤ ∑ lane ∈ range 4, (acc lane).toNat :=
      single_le_sum (f := fun lane => (acc lane).toNat) (fun _ _ => Nat.zero_le _) member
    have second : ∑ byte ∈ range 8, differing pa pb (i + (8 * lane + byte)) ≤
        ∑ lane ∈ range 4, ∑ byte ∈ range 8, differing pa pb (i + (8 * lane + byte)) :=
      single_le_sum (f := fun lane => ∑ byte ∈ range 8, differing pa pb (i + (8 * lane + byte)))
        (fun _ _ => Nat.zero_le _) member
    have sums := @chunk_sum pa pb i lane (mem_range.mp member)
    unfold shuffleChunk addEpi64
    rw [UInt64.toNat_add, sums]
    exact Nat.mod_eq_of_lt (by omega)
  rw [sum_congr rfl each, sum_add_distrib, counted, ← blocks, next]

theorem shuffleLoop_sum {i nb : Nat} {acc : Register UInt64}
    (counted : ∑ lane ∈ range 4, (acc lane).toNat = differingBefore pa pb i) (before : i ≤ nb)
    (fits : differingBefore pa pb nb < 2 ^ 64) : (shuffleLoop pa pb nb i acc).1 ≤ nb ∧
      ∑ lane ∈ range 4, ((shuffleLoop pa pb nb i acc).2 lane).toNat =
        differingBefore pa pb (shuffleLoop pa pb nb i acc).1 := by
  induction i, acc using shuffleLoop.induct pa pb nb with
  | case1 i acc more ih =>
      rw [shuffleLoop, if_pos more]
      exact ih (shuffleChunk_sum counted more fits) more
  | case2 i acc last =>
      rw [shuffleLoop, if_neg last]
      exact ⟨before, counted⟩

theorem neonChunk_lane {i lane : Nat} {s : Register UInt16} (reached : (s lane).toNat ≤ i)
    (small : i + 16 < 2 ^ 16) : (neonChunk pa pb i s lane).toNat = (s lane).toNat +
      ∑ byte ∈ range 2, differing pa pb (i + (2 * lane + byte)) ∧
      (neonChunk pa pb i s lane).toNat ≤ i + 16 := by
  have first := byteOnes_le (pa (i + 2 * lane) ^^^ pb (i + 2 * lane))
  have second := byteOnes_le (pa (i + (2 * lane + 1)) ^^^ pb (i + (2 * lane + 1)))
  have same : (neonChunk pa pb i s lane).toNat = (s lane).toNat +
      ∑ byte ∈ range 2, differing pa pb (i + (2 * lane + byte)) := by
    unfold neonChunk vaddqU16 vpaddlqU8 vcntqU8 xorSi256 loadu
    rw [UInt16.toNat_add, UInt16.toNat_ofNat', UInt8.toNat_ofNat', UInt8.toNat_ofNat',
      sum_range_succ, sum_range_one]
    unfold differing
    rw [Nat.add_zero (2 * lane), Nat.mod_eq_of_lt (show byteOnes (pa (i + 2 * lane) ^^^ pb (i + 2 * lane)) <
      2 ^ 8 by omega), Nat.mod_eq_of_lt (show byteOnes (pa (i + (2 * lane + 1)) ^^^
        pb (i + (2 * lane + 1))) < 2 ^ 8 by omega)]
    omega
  refine ⟨same, ?_⟩
  rw [same, sum_range_succ, sum_range_one, Nat.add_zero]
  unfold differing
  omega

theorem neonLoop_sum {i nb : Nat} {s : Register UInt16} (reached : ∀ lane, (s lane).toNat ≤ i)
    (counted : ∑ lane ∈ range 8, (s lane).toNat = differingBefore pa pb i) (before : i ≤ nb)
    (small : nb < 2 ^ 16) : (neonLoop pa pb nb i s).1 ≤ nb ∧
      ∑ lane ∈ range 8, ((neonLoop pa pb nb i s).2 lane).toNat =
        differingBefore pa pb (neonLoop pa pb nb i s).1 := by
  induction i, s using neonLoop.induct pa pb nb with
  | case1 i s more ih =>
      rw [neonLoop, if_pos more]
      refine ih (fun lane => (neonChunk_lane (reached lane) (by omega)).2) ?_ more
      have blocks := sum_blocks 2 8 fun j => differing pa pb (i + j)
      rw [sum_congr rfl fun lane _ => (neonChunk_lane (reached lane) (by omega)).1,
        sum_add_distrib, counted, ← blocks, differingBefore_add]
  | case2 i s last =>
      rw [neonLoop, if_neg last]
      exact ⟨before, counted⟩

/-! ### Bits that differ -/

variable {a b : List UInt64} {dim : Nat}

/-- A bit of the words. -/
def bitAt (words : List UInt64) (place : Nat) : Bool :=
  (words.getD (place / 64) 0).toNat.testBit (place % 64)

def differ (a b : List UInt64) (place : Nat) : Nat := (bitAt a place ^^ bitAt b place).toNat

theorem byteAt_testBit (words : List UInt64) (place : Nat) {bit : Nat} (inside : bit < 8) :
    (byteAt words place).toNat.testBit bit = bitAt words (8 * place + bit) := by
  have word : (8 * place + bit) / 64 = place / 8 := by omega
  have within : (8 * place + bit) % 64 = 8 * (place % 8) + bit := by omega
  rw [byteAt, UInt8.toNat_ofNat', Nat.testBit_mod_two_pow, decide_eq_true inside, Bool.true_and,
    Nat.testBit_div_two_pow, bitAt, word, within, Nat.add_comm bit]

theorem differing_bits (a b : List UInt64) (place : Nat) :
    differing (byteAt a) (byteAt b) place = ∑ bit ∈ range 8, differ a b (8 * place + bit) := by
  rw [differing, byteOnes, onesBelow_eq]
  refine sum_congr rfl fun bit member => ?_
  have inside := mem_range.mp member
  rw [UInt8.toNat_xor, Nat.testBit_xor, byteAt_testBit a place inside,
    byteAt_testBit b place inside]
  rfl

theorem differingBefore_bits (a b : List UInt64) (n : Nat) :
    differingBefore (byteAt a) (byteAt b) n = ∑ place ∈ range (8 * n), differ a b place := by
  rw [sum_blocks]
  exact sum_congr rfl fun place _ => differing_bits a b place

theorem countOnes_bits (a b : List UInt64) (w : Nat) :
    countOnes (a.getD w 0 ^^^ b.getD w 0) = ∑ bit ∈ range 64, differ a b (64 * w + bit) := by
  have counted : countOnes (a.getD w 0 ^^^ b.getD w 0) =
      onesBelow 64 (a.getD w 0 ^^^ b.getD w 0).toNat := rfl
  rw [counted, onesBelow_eq]
  refine sum_congr rfl fun bit member => ?_
  have inside := mem_range.mp member
  have word : (64 * w + bit) / 64 = w := by omega
  have within : (64 * w + bit) % 64 = bit := by omega
  rw [UInt64.toNat_xor, Nat.testBit_xor, differ, bitAt, bitAt, word, within]

theorem hammingScalar_words (same : a.length = b.length) : hammingScalar a b =
    ∑ w ∈ range a.length, countOnes (a.getD w 0 ^^^ b.getD w 0) := by
  induction a generalizing b with
  | nil => rfl
  | cons first rest ih =>
      cases b with
      | nil => simp at same
      | cons other others =>
          have later := @ih others (Nat.succ.inj same)
          rw [List.length_cons, sum_range_succ', Nat.add_comm]
          exact congrArg (countOnes (first ^^^ other) + ·) later

theorem hammingScalar_bits (same : a.length = b.length) :
    hammingScalar a b = ∑ place ∈ range (64 * a.length), differ a b place := by
  rw [hammingScalar_words same, sum_blocks]
  exact sum_congr rfl fun w _ => countOnes_bits a b w

/-- A sketch of a dimension: as many words as needed, and no bit past the last coordinate. -/
structure Sketch (dim : Nat) (words : List UInt64) : Prop where
  length : words.length = (dim + 63) / 64
  clear : ∀ place, dim ≤ place → bitAt words place = false

theorem hammingScalar_le (left : Sketch dim a) (right : Sketch dim b) : hammingScalar a b ≤ dim := by
  obtain ⟨past, whole⟩ : ∃ past, 64 * a.length = dim + past :=
    Nat.exists_eq_add_of_le (by rw [left.length]; omega)
  have none : ∑ place ∈ range past, differ a b (dim + place) = 0 := by
    refine sum_eq_zero fun place _ => ?_
    rw [differ, left.clear _ (Nat.le_add_right ..), right.clear _ (Nat.le_add_right ..)]
    rfl
  have each : ∑ place ∈ range dim, differ a b place ≤ ∑ _place ∈ range dim, 1 :=
    sum_le_sum fun place _ => Bool.toNat_le _
  have ones : ∑ _place ∈ range dim, 1 = dim := by simp
  rw [hammingScalar_bits (left.length.trans right.length.symm), whole, sum_range_add, none]
  exact each.trans_eq ones

/-! ### All kernels -/

theorem foldl_mod (counts : Nat → Nat) (modulus n : Nat) :
    (List.range n).foldl (fun h w => (h + counts w) % modulus) 0 % modulus =
      (∑ w ∈ range n, counts w) % modulus := by
  induction n with
  | zero => rfl
  | succ n ih =>
      rw [List.range_succ, List.foldl_append, sum_range_succ, Nat.add_mod _ (counts n), ← ih]
      simp only [List.foldl_cons, List.foldl_nil, Nat.mod_mod, Nat.add_mod]

theorem hammingPopcnt_eq (same : a.length = b.length) (fits : hammingScalar a b < 2 ^ 32) :
    hammingPopcnt a b = hammingScalar a b := by
  have summed := foldl_mod (fun w => countOnes (a.getD w 0 ^^^ b.getD w 0)) (2 ^ 64) a.length
  rw [← hammingScalar_words same, Nat.mod_eq_of_lt (show hammingScalar a b < 2 ^ 64 by omega)]
    at summed
  have narrow := congrArg (· % 2 ^ 32) summed
  rw [Nat.mod_mod_of_dvd _ (by decide), Nat.mod_eq_of_lt fits] at narrow
  exact narrow

theorem differingBefore_all (same : a.length = b.length) :
    differingBefore (byteAt a) (byteAt b) (a.length * 8) = hammingScalar a b := by
  rw [differingBefore_bits, hammingScalar_bits same, show 8 * (a.length * 8) = 64 * a.length by omega]

theorem hammingShuffle_eq (same : a.length = b.length) (fits : hammingScalar a b < 2 ^ 32) :
    hammingShuffle a b = hammingScalar a b := by
  have all := differingBefore_all same
  have wide : differingBefore (byteAt a) (byteAt b) (a.length * 8) < 2 ^ 64 := by omega
  obtain ⟨before, counted⟩ := @shuffleLoop_sum (byteAt a) (byteAt b) 0 (a.length * 8) (fun _ => 0)
    rfl (Nat.zero_le _) wide
  have most := @differingBefore_mono (byteAt a) (byteAt b) _ _ before
  unfold hammingShuffle
  dsimp only
  generalize shuffleLoop (byteAt a) (byteAt b) (a.length * 8) 0 (fun _ => 0) = reached at *
  obtain ⟨i, acc⟩ := reached
  simp only [sum_range_succ, sum_range_zero, Nat.zero_add] at counted
  rw [tailLoop_eq before (by dsimp only at *; omega) wide, all, Nat.mod_eq_of_lt fits]

theorem hammingNeon_eq (same : a.length = b.length) (small : a.length * 8 < 2 ^ 16)
    (fits : hammingScalar a b < 2 ^ 16) : hammingNeon a b = hammingScalar a b := by
  have all := differingBefore_all same
  obtain ⟨before, counted⟩ := @neonLoop_sum (byteAt a) (byteAt b) 0 (a.length * 8) (fun _ => 0)
    (fun _ => Nat.le_refl 0) rfl (Nat.zero_le _) small
  have most := @differingBefore_mono (byteAt a) (byteAt b) _ _ before
  unfold hammingNeon
  dsimp only
  generalize neonLoop (byteAt a) (byteAt b) (a.length * 8) 0 (fun _ => 0) = reached at *
  obtain ⟨i, s⟩ := reached
  have reduced : (vaddvqU16 s).toNat = differingBefore (byteAt a) (byteAt b) i := by
    rw [vaddvqU16, UInt16.toNat_ofNat', counted]
    exact Nat.mod_eq_of_lt (by dsimp only at *; omega)
  rw [tailLoop_eq before reduced (by omega), all]

/-- What a scan needs of the kernels: they agree, and no distance is past the dimension. -/
theorem kernels_agree (left : Sketch dim a) (right : Sketch dim b) (narrow : dim < 2 ^ 16) :
    hammingScalar a b ≤ dim ∧ hammingPopcnt a b = hammingScalar a b ∧
      hammingShuffle a b = hammingScalar a b ∧ hammingNeon a b = hammingScalar a b := by
  have most := hammingScalar_le left right
  have same := left.length.trans right.length.symm
  have words := left.length
  exact ⟨most, hammingPopcnt_eq same (by omega), hammingShuffle_eq same (by omega),
    hammingNeon_eq same (by omega) (by omega)⟩

end Valise.SketchScan
