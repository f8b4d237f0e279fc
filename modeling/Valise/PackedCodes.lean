import Valise.CatalogRows
import Valise.SlidingKernels

/-!
Codes packed bit by bit, and the readers that take them out again: one by one, in groups of eight,
and through windows of 32 bits.
-/

namespace Valise

open BitFields ByteLists Lanes Lanes.Run Outcomes Outcomes.Outcome

/-! ### Streams of one width -/

def packedBytes (count bits : Nat) : Nat := (count * bits + 7) / 8

def bitMask (bits : Nat) : Nat := if bits = 32 then 2 ^ 32 - 1 else 2 ^ bits - 1

/-- Bytes are written while eight bits are held. -/
def drain (acc accBits : Nat) : Bytes × Nat × Nat :=
  if 8 ≤ accBits then
    let next := drain (acc >>> 8) (accBits - 8)
    (UInt8.ofNat (acc &&& 0xFF) :: next.1, next.2)
  else ([], acc, accBits)

def packLoop (bits : Nat) : List UInt32 → Nat → Nat → Bytes
  | [], acc, accBits => if 0 < accBits then [UInt8.ofNat (acc &&& 0xFF)] else []
  | value :: rest, acc, accBits =>
      let v := value.toNat &&& bitMask bits
      let drained := drain (acc ||| (v <<< accBits) % 2 ^ 64) (accBits + bits)
      drained.1 ++ packLoop bits rest drained.2.1 drained.2.2

/-- The destination is cleared first; a write past its end aborts. -/
def packBits (values : List UInt32) (bits room : Nat) : Result Bytes :=
  let bytes := packLoop bits values 0 0
  if bytes.length ≤ room then .ok (bytes ++ List.replicate (room - bytes.length) 0) else .panic

/-- Bytes are read until there are enough bits; a read past the end aborts. -/
def refill (bits : Nat) : Bytes → Nat → Nat → Result (Bytes × Nat × Nat)
  | [], acc, accBits => if accBits < bits then .panic else .ok ([], acc, accBits)
  | byte :: rest, acc, accBits =>
      if accBits < bits then refill bits rest (acc ||| (byte.toNat <<< accBits) % 2 ^ 64) (accBits + 8)
      else .ok (byte :: rest, acc, accBits)

def unpackLoop (bits : Nat) : Nat → Bytes → Nat → Nat → Result (List UInt32)
  | 0, _, _, _ => .ok []
  | count + 1, bytes, acc, accBits => do
      let (bytes, acc, accBits) ← refill bits bytes acc accBits
      let rest ← unpackLoop bits count bytes (acc >>> bits) (accBits - bits)
      .ok (UInt32.ofNat (acc &&& bitMask bits) :: rest)

def unpackBits (bytes : Bytes) (bits count : Nat) : Result (List UInt32) :=
  unpackLoop bits count bytes 0 0

theorem and_bitMask {bits : Nat} (value : Nat) : value &&& bitMask bits = value % 2 ^ bits := by
  unfold bitMask
  split
  · rename_i same
    rw [same, Nat.and_two_pow_sub_one_eq_mod]
  · rw [Nat.and_two_pow_sub_one_eq_mod]

theorem lowByte (acc : Nat) : (UInt8.ofNat (acc &&& 0xFF)).toNat = acc % 256 := by
  rw [show 0xFF = 2 ^ 8 - 1 by decide, Nat.and_two_pow_sub_one_eq_mod]
  simp

theorem drain_spec (acc accBits : Nat) (fits : acc < 2 ^ accBits) :
    getLittleEndian (drain acc accBits).1 +
        2 ^ (8 * (drain acc accBits).1.length) * (drain acc accBits).2.1 = acc ∧
      8 * (drain acc accBits).1.length + (drain acc accBits).2.2 = accBits ∧
      (drain acc accBits).2.2 < 8 ∧ (drain acc accBits).2.1 < 2 ^ (drain acc accBits).2.2 := by
  induction acc, accBits using drain.induct with
  | case1 acc accBits more ih =>
      have high : acc >>> 8 < 2 ^ (accBits - 8) := by
        rw [Nat.shiftRight_eq_div_pow, Nat.div_lt_iff_lt_mul (Nat.two_pow_pos 8), ← pow_add,
          Nat.sub_add_cancel more]
        exact fits
      obtain ⟨whole, bits, few, rest⟩ := ih high
      rw [drain, if_pos more]
      have parts : 256 * (acc >>> 8) + acc % 256 = acc := by
        rw [Nat.shiftRight_eq_div_pow]
        exact Nat.div_add_mod acc 256
      dsimp only
      generalize drain (acc >>> 8) (accBits - 8) = drained at *
      refine ⟨?_, ?_, few, rest⟩
      · have power : 2 ^ (8 * drained.1.length + 8) * drained.2.1 =
            256 * (2 ^ (8 * drained.1.length) * drained.2.1) := by
          rw [pow_add]
          ring
        rw [getLittleEndian, lowByte, List.length_cons, Nat.mul_succ, power]
        omega
      · rw [List.length_cons]
        omega
  | case2 acc accBits few =>
      rw [drain, if_neg few]
      exact ⟨by simp [getLittleEndian], by simp, Nat.lt_of_not_le few, fits⟩

theorem packLoop_spec {bits : Nat} (narrow : bits ≤ 32) {values : List UInt32}
    (fit : ∀ value ∈ values, value.toNat < 2 ^ bits) {acc accBits : Nat} (few : accBits < 8)
    (fits : acc < 2 ^ accBits) :
    getLittleEndian (packLoop bits values acc accBits) =
        acc + 2 ^ accBits * join bits (values.map (·.toNat)) ∧
      (packLoop bits values acc accBits).length = (accBits + values.length * bits + 7) / 8 := by
  induction values generalizing acc accBits with
  | nil =>
      have small : acc < 256 := fits.trans_le (Nat.pow_le_pow_right (by decide) (by omega) :
        2 ^ accBits ≤ 2 ^ 8)
      unfold packLoop
      split
      · constructor
        · rw [getLittleEndian, lowByte, Nat.mod_eq_of_lt small]
          simp [getLittleEndian, join]
        · simp only [List.length_singleton, List.length_nil]
          omega
      · obtain rfl : accBits = 0 := by omega
        constructor
        · simp only [List.map_nil, join, getLittleEndian]
          omega
        · simp
  | cons value rest ih =>
      have less := fit value (List.mem_cons_self ..)
      have shifted : value.toNat <<< accBits < 2 ^ 64 := by
        rw [Nat.shiftLeft_eq]
        calc value.toNat * 2 ^ accBits < 2 ^ bits * 2 ^ accBits :=
              Nat.mul_lt_mul_of_pos_right less (Nat.two_pow_pos _)
          _ = 2 ^ (bits + accBits) := (pow_add ..).symm
          _ ≤ 2 ^ 64 := Nat.pow_le_pow_right (by decide) (by omega)
      have both : acc + 2 ^ accBits * value.toNat < 2 ^ (accBits + bits) := by
        rw [pow_add]
        calc acc + 2 ^ accBits * value.toNat < 2 ^ accBits * (value.toNat + 1) := by
              rw [Nat.mul_succ]
              omega
          _ ≤ 2 ^ accBits * 2 ^ bits := Nat.mul_le_mul_left _ less
      unfold packLoop
      dsimp only
      rw [and_bitMask, Nat.mod_eq_of_lt less, Nat.mod_eq_of_lt shifted, or_shiftLeft fits]
      obtain ⟨whole, count, few, rest⟩ := drain_spec _ _ both
      obtain ⟨number, length⟩ := ih (fun value member => fit value (List.mem_cons_of_mem _ member))
        few rest
      generalize drain (acc + 2 ^ accBits * value.toNat) (accBits + bits) = drained at *
      constructor
      · rw [getLittleEndian_append, number, List.map_cons, join, Nat.mul_add, ← Nat.mul_assoc,
          ← pow_add, count, Nat.mul_add, ← Nat.mul_assoc, ← pow_add, ← Nat.add_assoc,
          ← Nat.add_assoc, whole]
      · rw [List.length_append, length, List.length_cons, Nat.succ_mul]
        omega

theorem refill_spec {bits : Nat} (narrow : bits ≤ 32) {bytes : Bytes} {acc accBits : Nat}
    (fits : acc < 2 ^ accBits) (enough : bits ≤ accBits + 8 * bytes.length) :
    ∃ rest held heldBits, refill bits bytes acc accBits = .ok (rest, held, heldBits) ∧
      held + 2 ^ heldBits * getLittleEndian rest = acc + 2 ^ accBits * getLittleEndian bytes ∧
      held < 2 ^ heldBits ∧ bits ≤ heldBits ∧
      heldBits + 8 * rest.length = accBits + 8 * bytes.length := by
  induction bytes generalizing acc accBits with
  | nil =>
      refine ⟨[], acc, accBits, if_neg ?_, rfl, fits, ?_, rfl⟩
      · simpa using enough
      · simpa using enough
  | cons byte bytes ih =>
      unfold refill
      split
      · rename_i few
        have less := byte.toNat_lt
        have shifted : byte.toNat <<< accBits < 2 ^ 64 := by
          rw [Nat.shiftLeft_eq]
          calc byte.toNat * 2 ^ accBits < 2 ^ 8 * 2 ^ accBits :=
                Nat.mul_lt_mul_of_pos_right less (Nat.two_pow_pos _)
            _ = 2 ^ (8 + accBits) := (pow_add ..).symm
            _ ≤ 2 ^ 64 := Nat.pow_le_pow_right (by decide) (by omega)
        have both : acc + 2 ^ accBits * byte.toNat < 2 ^ (accBits + 8) := by
          rw [pow_add]
          calc acc + 2 ^ accBits * byte.toNat < 2 ^ accBits * (byte.toNat + 1) := by
                rw [Nat.mul_succ]
                omega
            _ ≤ 2 ^ accBits * 2 ^ 8 := Nat.mul_le_mul_left _ less
        rw [List.length_cons] at enough
        rw [Nat.mod_eq_of_lt shifted, or_shiftLeft fits]
        obtain ⟨rest, held, heldBits, ran, whole, small, most, length⟩ := ih both (by omega)
        refine ⟨rest, held, heldBits, ran, whole.trans ?_, small, most, ?_⟩
        · rw [getLittleEndian, pow_add]
          ring
        · rw [List.length_cons]
          omega
      · exact ⟨byte :: bytes, acc, accBits, rfl, rfl, fits, by omega, rfl⟩

/-- The codes that a number has. -/
def codes (bits number count : Nat) : List UInt32 :=
  (List.range count).map fun place => UInt32.ofNat (field bits number place)

theorem unpackLoop_eq {bits : Nat} (narrow : bits ≤ 32) {count : Nat} {bytes : Bytes}
    {acc accBits : Nat} (fits : acc < 2 ^ accBits)
    (enough : count * bits ≤ accBits + 8 * bytes.length) :
    unpackLoop bits count bytes acc accBits =
      .ok (codes bits (acc + 2 ^ accBits * getLittleEndian bytes) count) := by
  induction count generalizing bytes acc accBits with
  | zero => rfl
  | succ count ih =>
      rw [Nat.succ_mul] at enough
      obtain ⟨rest, held, heldBits, ran, whole, small, most, length⟩ :=
        refill_spec narrow fits (show bits ≤ accBits + 8 * bytes.length by omega)
      obtain ⟨above, rfl⟩ := Nat.exists_eq_add_of_le most
      have high : held >>> bits < 2 ^ above := by
        rw [Nat.shiftRight_eq_div_pow, Nat.div_lt_iff_lt_mul (Nat.two_pow_pos bits), Nat.mul_comm,
          ← pow_add]
        exact small
      unfold unpackLoop
      rw [ran]
      simp only [ok_bind]
      rw [Nat.add_sub_cancel_left, ih high (by omega)]
      refine congrArg Outcome.ok ?_
      have first : held % 2 ^ bits = field bits (acc + 2 ^ accBits * getLittleEndian bytes) 0 := by
        rw [field_zero, ← whole, pow_add, Nat.mul_assoc, Nat.add_mul_mod_self_left]
      have later : held >>> bits + 2 ^ above * getLittleEndian rest =
          (acc + 2 ^ accBits * getLittleEndian bytes) / 2 ^ bits := by
        rw [← whole, pow_add, Nat.mul_assoc, Nat.add_mul_div_left _ _ (Nat.two_pow_pos bits),
          Nat.shiftRight_eq_div_pow]
      rw [and_bitMask, first, later]
      unfold codes
      rw [List.range_succ_eq_map, List.map_cons, List.map_map]
      refine congrArg _ (List.map_congr_left fun place _ => ?_)
      exact congrArg UInt32.ofNat (field_succ ..).symm

theorem unpackBits_eq {bits : Nat} (narrow : bits ≤ 32) {count : Nat} {bytes : Bytes}
    (enough : count * bits ≤ 8 * bytes.length) :
    unpackBits bytes bits count = .ok (codes bits (getLittleEndian bytes) count) := by
  have all : unpackLoop bits count bytes 0 0 =
      .ok (codes bits (0 + 2 ^ 0 * getLittleEndian bytes) count) :=
    unpackLoop_eq narrow (by decide) (by omega)
  unfold unpackBits
  rw [all, Nat.pow_zero, Nat.one_mul, Nat.zero_add]

theorem codes_length (bits number count : Nat) : (codes bits number count).length = count := by
  simp [codes]

/-- The codes of a list of values are the values. -/
theorem codes_join {bits : Nat} {values : List UInt32}
    (fit : ∀ value ∈ values, value.toNat < 2 ^ bits) :
    codes bits (join bits (values.map (·.toNat))) values.length = values := by
  refine List.ext_getElem (codes_length ..) fun place inside also => ?_
  have found : (values.map (·.toNat))[place]? = some values[place].toNat := by
    simp [also]
  have less : ∀ value ∈ values.map (·.toNat), value < 2 ^ bits := by simpa using fit
  have same := field_join less found
  simp [codes, same]

/-- What is packed comes out again, also from no more bytes than the values need. -/
theorem unpackBits_pack {bits : Nat} (narrow : bits ≤ 32) {values : List UInt32}
    (fit : ∀ value ∈ values, value.toNat < 2 ^ bits) {room : Nat}
    (enough : packedBytes values.length bits ≤ room) :
    ∃ bytes, packBits values bits room = .ok bytes ∧ bytes.length = room ∧
      unpackBits bytes bits values.length = .ok values ∧
      unpackBits (bytes.take (packedBytes values.length bits)) bits values.length = .ok values := by
  obtain ⟨number, length⟩ := @packLoop_spec bits narrow values fit 0 0 (by decide) (by decide)
  rw [Nat.pow_zero, Nat.one_mul, Nat.zero_add] at number
  rw [Nat.zero_add] at length
  unfold packedBytes at *
  have size : (packLoop bits values 0 0 ++
      List.replicate (room - (packLoop bits values 0 0).length) 0).length = room := by
    rw [List.length_append, List.length_replicate]
    omega
  refine ⟨_, if_pos (by omega), size, ?_, ?_⟩
  · rw [unpackBits_eq narrow (by omega), getLittleEndian_append, getLittleEndian_zeros, number,
      Nat.mul_zero, Nat.add_zero, codes_join fit]
  · rw [List.take_left' length, unpackBits_eq narrow (by omega), number, codes_join fit]

/-! ### Readers of groups -/

namespace DotOperands

section Norm

variable {K : Type} [Field K]

def readReal (values : List K) (place : Nat) : Run K :=
  check (place < values.length) (values.getD place 0)

/-- The squares of the first `pairs` pairs of a group are added. -/
def addSquares (sigma levels : List K) (stream : Bytes) (group pairs : Nat) (sum : K) : Run K := do
  let aChunk ← loadPadded stream (group * 5)
  (List.range pairs).foldlM (fun sum place => do
    let sigma ← readReal sigma (group * 8 + place)
    let ampUnit ← readReal levels (ampIndex aChunk place)
    let v := sigma * ampUnit
    return sum + v * v) sum

end Norm

variable {ops : DotOperands} {numPairs : Nat}

theorem Fit.whole (fit : ops.Fit numPairs) : ops.Fit (numPairs / 8 * 8) := by
  have amp := fit.ampStream
  have phase := fit.phaseStream
  have q := fit.q
  exact { fit with ampStream := by omega, phaseStream := by omega, q := by omega }

section Norm

variable {K : Type} [Field K] {sigma levels : List K} {stream : Bytes}

/-- What a pair adds to the square of the norm. -/
def square (sigma levels : List K) (stream : Bytes) (pair : Nat) : K :=
  let v := sigma.getD pair 0 * levels.getD (field 5 (getLittleEndian stream) pair) 0
  v * v

end Norm

end DotOperands

/-! ### Codes of eleven bits -/

def packed11Len (numPairs : Nat) : Nat := (numPairs * 11 + 7) / 8

def packed11Stride (numPairs : Nat) : Nat := (packed11Len numPairs + 4 + 15) / 16 * 16

/-- `out[place] |= byte`; a place past the end aborts. -/
def orByte (out : Bytes) (place value : Nat) : Result Bytes :=
  match out[place]? with
  | none => .panic
  | some byte => .ok (out.set place (byte ||| UInt8.ofNat value))

def pack11Loop : List UInt16 → Nat → Bytes → Result Bytes
  | [], _, out => .ok out
  | code :: rest, k, out => do
      let bit := k * 11
      let byte := bit / 8
      let off := bit % 8
      let v := code.toNat <<< off
      let out ← orByte out byte v
      let out ← orByte out (byte + 1) (v >>> 8)
      let out ← (if 5 < off then orByte out (byte + 2) (v >>> 16) else .ok out : Result Bytes)
      pack11Loop rest (k + 1) out

def pack11 (codes : List UInt16) : Result Bytes :=
  pack11Loop codes 0 (List.replicate (packed11Len codes.length) 0)

/-- Four bytes of the row are loaded; a load that leaves the row aborts. -/
def extract11 (packed : Bytes) (k : Nat) : Result UInt16 :=
  let bit := k * 11
  let byte := bit / 8
  let off := bit % 8
  if byte + 4 ≤ packed.length then
    .ok (UInt16.ofNat ((getLittleEndian (slice packed byte 4) >>> off) &&& 0x7FF))
  else .panic

theorem getLittleEndian_or (out : Bytes) {place : Nat} {byte : UInt8}
    (found : out[place]? = some byte) (value : UInt8) :
    getLittleEndian (out.set place (byte ||| value)) =
      getLittleEndian out ||| (value.toNat <<< (8 * place)) := by
  have whole (byte : UInt8) (rest : Bytes) :
      getLittleEndian (byte :: rest) = byte.toNat ||| (getLittleEndian rest <<< 8) :=
    (or_shiftLeft byte.toNat_lt).symm
  induction out generalizing place with
  | nil => simp at found
  | cons first rest ih =>
      cases place with
      | zero =>
          obtain rfl : first = byte := by simpa using found
          rw [List.set_cons_zero, whole, whole, Nat.mul_zero, Nat.shiftLeft_zero,
            UInt8.toNat_or, Nat.or_assoc, Nat.or_assoc, Nat.or_comm value.toNat]
      | succ place =>
          have later := ih (by simpa using found)
          rw [List.set_cons_succ, whole, whole, later, Nat.shiftLeft_or_distrib, Nat.or_assoc,
            ← Nat.shiftLeft_add, Nat.mul_succ]

theorem orByte_spec {out : Bytes} {place : Nat} (inside : place < out.length) (value : Nat) :
    ∃ next, orByte out place value = .ok next ∧ next.length = out.length ∧
      getLittleEndian next = getLittleEndian out ||| ((value % 256) <<< (8 * place)) := by
  have found : out[place]? = some out[place] := List.getElem?_eq_getElem inside
  refine ⟨out.set place (out[place] ||| UInt8.ofNat value), ?_, List.length_set, ?_⟩
  · unfold orByte
    rw [found]
  · rw [getLittleEndian_or out found]
    rfl

/-- A number is the disjunction of its bytes. -/
theorem or_bytes {value : Nat} (start : Nat) (fits : value < 2 ^ 24) :
    (value % 256) <<< (8 * start) ||| ((value >>> 8) % 256) <<< (8 * (start + 1)) |||
      ((value >>> 16) % 256) <<< (8 * (start + 2)) = value <<< (8 * start) := by
  have low : value % 256 ||| ((value >>> 8) <<< 8) = value := by
    have small : value % 256 < 2 ^ 8 := Nat.mod_lt _ (by decide)
    rw [or_shiftLeft small, Nat.shiftRight_eq_div_pow]
    exact Nat.mod_add_div value 256
  have middle : (value >>> 8) % 256 ||| ((value >>> 16) <<< 8) = value >>> 8 := by
    have small : (value >>> 8) % 256 < 2 ^ 8 := Nat.mod_lt _ (by decide)
    rw [or_shiftLeft small, Nat.shiftRight_eq_div_pow, Nat.shiftRight_eq_div_pow]
    omega
  have high : (value >>> 16) % 256 = value >>> 16 := by
    rw [Nat.shiftRight_eq_div_pow]
    omega
  rw [high, show 8 * (start + 2) = 8 + 8 * (start + 1) by ring, Nat.shiftLeft_add, Nat.or_assoc,
    ← Nat.shiftLeft_or_distrib, middle, show 8 * (start + 1) = 8 + 8 * start by ring,
    Nat.shiftLeft_add, ← Nat.shiftLeft_or_distrib, low]

theorem pack11Loop_spec {codes : List UInt16} (fit : ∀ code ∈ codes, code.toNat < 2 ^ 11) {k : Nat}
    {out : Bytes} (below : getLittleEndian out < 2 ^ (11 * k))
    (room : 11 * (k + codes.length) ≤ 8 * out.length) :
    ∃ packed, pack11Loop codes k out = .ok packed ∧ packed.length = out.length ∧
      getLittleEndian packed =
        getLittleEndian out + 2 ^ (11 * k) * join 11 (codes.map (·.toNat)) := by
  induction codes generalizing k out with
  | nil => exact ⟨out, rfl, rfl, by simp [join]⟩
  | cons code rest ih =>
      have less := fit code (List.mem_cons_self ..)
      rw [List.length_cons] at room
      let byte := k * 11 / 8
      let off := k * 11 % 8
      let v := code.toNat <<< off
      have shift : 11 * k = off + 8 * byte := by omega
      have wide : v < 2 ^ (11 + off) := by
        rw [pow_add]
        exact (Nat.shiftLeft_eq ..).trans_lt (Nat.mul_lt_mul_of_pos_right less (Nat.two_pow_pos _))
      have fits : v < 2 ^ 24 := wide.trans_le (Nat.pow_le_pow_right (by decide) (by omega))
      obtain ⟨first, firstRan, firstLength, firstNumber⟩ :=
        @orByte_spec out byte (by omega) v
      obtain ⟨second, secondRan, secondLength, secondNumber⟩ :=
        @orByte_spec first (byte + 1) (by omega) (v >>> 8)
      have third : ∃ next, (if 5 < off then orByte second (byte + 2) (v >>> 16) else .ok second) =
          .ok next ∧ next.length = second.length ∧ getLittleEndian next =
            getLittleEndian second ||| ((v >>> 16) % 256) <<< (8 * (byte + 2)) := by
        split
        · exact orByte_spec (by omega) _
        · refine ⟨second, rfl, rfl, ?_⟩
          have small : v < 2 ^ 16 :=
            wide.trans_le (Nat.pow_le_pow_right (by decide) (by omega))
          rw [Nat.shiftRight_eq_div_pow, Nat.div_eq_of_lt small, Nat.zero_mod, Nat.zero_shiftLeft,
            Nat.or_zero]
      obtain ⟨next, thirdRan, thirdLength, thirdNumber⟩ := third
      have number : getLittleEndian next = getLittleEndian out + 2 ^ (11 * k) * code.toNat := by
        rw [thirdNumber, secondNumber, firstNumber, Nat.or_assoc, Nat.or_assoc, ← Nat.or_assoc _ _
          (_ <<< (8 * (byte + 2))), or_bytes byte fits, ← or_shiftLeft below, shift,
          Nat.shiftLeft_add]
      have again : getLittleEndian next < 2 ^ (11 * (k + 1)) := by
        rw [number, Nat.mul_succ, pow_add]
        calc getLittleEndian out + 2 ^ (11 * k) * code.toNat
            < 2 ^ (11 * k) * (code.toNat + 1) := by
              rw [Nat.mul_succ]
              omega
          _ ≤ 2 ^ (11 * k) * 2 ^ 11 := Nat.mul_le_mul_left _ less
      obtain ⟨packed, ran, length, whole⟩ :=
        ih (fun code member => fit code (List.mem_cons_of_mem _ member)) again (by omega)
      refine ⟨packed, ?_, by omega, ?_⟩
      · unfold pack11Loop
        change (orByte out byte v >>= fun out => orByte out (byte + 1) (v >>> 8) >>= fun out =>
          (if 5 < off then orByte out (byte + 2) (v >>> 16) else .ok out) >>= fun out =>
            pack11Loop rest (k + 1) out) = _
        rw [firstRan, ok_bind, secondRan, ok_bind, thirdRan, ok_bind, ran]
      · rw [whole, number, List.map_cons, join, Nat.mul_succ, pow_add]
        ring

/-- The row has room for the four bytes of every load, whatever its padding is. -/
theorem extract11_pack11 {codes : List UInt16} (fit : ∀ code ∈ codes, code.toNat < 2 ^ 11) :
    ∃ packed, pack11 codes = .ok packed ∧ packed.length = packed11Len codes.length ∧
      ∀ padding : Bytes, packed.length + padding.length = packed11Stride codes.length →
        ∀ k code, codes[k]? = some code → extract11 (packed ++ padding) k = .ok code := by
  have length : (List.replicate (packed11Len codes.length) (0 : UInt8)).length =
      packed11Len codes.length := List.length_replicate
  have zero := getLittleEndian_zeros (packed11Len codes.length)
  obtain ⟨packed, ran, same, number⟩ := @pack11Loop_spec codes fit 0
    (List.replicate (packed11Len codes.length) 0) (by rw [zero]; decide)
    (by rw [length, packed11Len]; omega)
  rw [zero, Nat.mul_zero, Nat.pow_zero, Nat.one_mul, Nat.zero_add] at number
  refine ⟨packed, ran, same.trans length, ?_⟩
  intro padding stride k code found
  have inside : k < codes.length := (List.getElem?_eq_some_iff.mp found).1
  have loads : k * 11 / 8 + 4 ≤ (packed ++ padding).length := by
    rw [List.length_append, stride, packed11Stride, packed11Len]
    omega
  have asked : field 11 (getLittleEndian (packed ++ padding)) k = code.toNat := by
    rw [getLittleEndian_append, number, same, length]
    have ends : 11 * k + 11 ≤ 8 * packed11Len codes.length := by
      rw [packed11Len]
      omega
    rw [← field_mod ends, Nat.add_mul_mod_self_left, field_mod ends]
    exact field_join (by simpa using fit) (by simp [found])
  unfold extract11
  rw [if_pos loads, show 0x7FF = 2 ^ 11 - 1 by decide, Nat.and_two_pow_sub_one_eq_mod,
    Nat.shiftRight_eq_div_pow]
  have window : getLittleEndian (slice (packed ++ padding) (k * 11 / 8) 4) / 2 ^ (k * 11 % 8) %
      2 ^ 11 = field 11 (getLittleEndian (packed ++ padding)) k := by
    have bits : 8 * 4 = k * 11 % 8 + 11 + (21 - k * 11 % 8) := by omega
    unfold slice field
    rw [getLittleEndian_take, getLittleEndian_drop, bits, pow_add, pow_add, Nat.mul_assoc,
      Nat.mod_mul_right_div_self, Nat.mod_mul_right_mod, Nat.div_div_eq_div_mul, ← pow_add,
      show 8 * (k * 11 / 8) + k * 11 % 8 = 11 * k by omega]
  rw [window, asked]
  exact congrArg Outcome.ok (UInt16.ofNat_toNat)

/-- The row as it is stored: padded to its stride, it gives every code back. -/
theorem extract11_pack11_stride {codes : List UInt16} (fit : ∀ code ∈ codes, code.toNat < 2 ^ 11) :
    ∃ packed, pack11 codes = .ok packed ∧
      (packed ++ List.replicate (packed11Stride codes.length - packed.length) 0).length =
        packed11Stride codes.length ∧
      ∀ k code, codes[k]? = some code → extract11 (packed ++
        List.replicate (packed11Stride codes.length - packed.length) 0) k = .ok code := by
  obtain ⟨packed, ran, size, reads⟩ := extract11_pack11 fit
  have room : packed.length ≤ packed11Stride codes.length := by
    rw [size, packed11Stride]
    omega
  have whole : packed.length + (List.replicate (packed11Stride codes.length - packed.length)
      (0 : UInt8)).length = packed11Stride codes.length := by
    rw [List.length_replicate]
    omega
  exact ⟨packed, ran, by rw [List.length_append, whole], reads _ whole⟩

/-! ### All readers -/

end Valise
