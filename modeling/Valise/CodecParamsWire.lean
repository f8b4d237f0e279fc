import Valise.CodecParams
import Valise.Library.Cursor

/-!
The bytes of the codec parameters. Both decoders accept exactly what their encoders write.
-/

namespace Valise

open ByteLists Commands Command Cursors Outcomes

namespace ParamsWire

abbrev Reader (α : Type) := Decoder Error α

/-! ### Numbers of fixed width -/

def readU8 (short : Nat → Nat → Error) : Reader UInt8 := do
  let value ← takeNumber (short 1) 1
  return UInt8.ofNat value

def readU16 (short : Nat → Nat → Error) : Reader UInt16 := do
  let value ← takeNumber (short 2) 2
  return UInt16.ofNat value

def readU32 (short : Nat → Nat → Error) : Reader UInt32 := do
  let value ← takeNumber (short 4) 4
  return UInt32.ofNat value

def readU64 (short : Nat → Nat → Error) : Reader UInt64 := do
  let value ← takeNumber (short 8) 8
  return UInt64.ofNat value

def readArray32 (short : Nat → Nat → Error) : Reader Checksum := do
  let bytes ← takeBytes (short blake3Len) blake3Len
  if fits : bytes.length = blake3Len then return ⟨bytes, fits⟩
  else lift (.err (short blake3Len 0))

def putU16 (value : UInt16) : Bytes := putLittleEndian 2 value.toNat

def putU32 (value : UInt32) : Bytes := putLittleEndian 4 value.toNat

@[simp] theorem putU32_length (value : UInt32) : (putU32 value).length = 4 :=
  putLittleEndian_length 4 _

def putU64 (value : UInt64) : Bytes := putLittleEndian 8 value.toNat

def putBool (value : Bool) : UInt8 := if value then 1 else 0

/-! ### A piece that was read is what would be written -/

/-- What a reader takes is the encoding of what it returns. -/
def Leaves {α : Type} (reader : Reader α) (put : α → Bytes) : Prop :=
  ∀ cursor value after, reader cursor = (.ok value, after) → cursor.rest = put value ++ after.rest

section Numbers

variable {short : Nat → Nat → Error}

theorem reads_u8 (value : UInt8) : Reads (readU8 short) [value] value := by
  have number := (reads_takeBytes (short 1) [value]).map getLittleEndian
  have byte : Reads (readU8 short) [value] (UInt8.ofNat (getLittleEndian [value])) :=
    number.map UInt8.ofNat
  simpa [getLittleEndian] using byte

theorem reads_u16 (value : UInt16) : Reads (readU16 short) (putU16 value) value := by
  have number := (reads_takeNumber (short 2) 2 value.toNat value.toNat_lt).map UInt16.ofNat
  rwa [UInt16.ofNat_toNat] at number

theorem reads_u32 (value : UInt32) : Reads (readU32 short) (putU32 value) value := by
  have number := (reads_takeNumber (short 4) 4 value.toNat value.toNat_lt).map UInt32.ofNat
  rwa [UInt32.ofNat_toNat] at number

theorem reads_u64 (value : UInt64) : Reads (readU64 short) (putU64 value) value := by
  have number := (reads_takeNumber (short 8) 8 value.toNat value.toNat_lt).map UInt64.ofNat
  rwa [UInt64.ofNat_toNat] at number

theorem reads_array32 (value : Checksum) : Reads (readArray32 short) value.1 value := by
  obtain ⟨bytes, length⟩ := value
  have read : Reads (takeBytes (short blake3Len) blake3Len) bytes bytes := by
    rw [← length]
    exact reads_takeBytes _ bytes
  have whole : Reads (readArray32 short) (bytes ++ []) ⟨bytes, length⟩ := by
    refine read.bind ?_
    rw [dif_pos length]
    exact reads_pure _
  rwa [List.append_nil] at whole

theorem leaves_takeBytes (error : Nat → Error) (count : Nat) {cursor after : Cursor} {found : Bytes}
    (done : takeBytes error count cursor = (.ok found, after)) :
    found.length = count ∧ cursor.rest = found ++ after.rest := by
  unfold takeBytes at done
  split at done
  · rename_i enough
    obtain ⟨taken, moved⟩ := Prod.mk.inj done
    obtain rfl := Outcome.ok.inj taken
    subst moved
    exact ⟨List.length_take_of_le enough, (List.take_append_drop _ _).symm⟩
  · cases (Prod.mk.inj done).1

theorem leaves_takeNumber (error : Nat → Error) (width : Nat) {cursor after : Cursor} {found : Nat}
    (done : takeNumber error width cursor = (.ok found, after)) :
    found < 256 ^ width ∧ cursor.rest = putLittleEndian width found ++ after.rest := by
  obtain ⟨bytes, middle, taken, same⟩ := bind_eq_ok.mp done
  obtain ⟨rfl, rfl⟩ := pure_eq_ok.mp same
  obtain ⟨rfl, left⟩ := leaves_takeBytes error width taken
  exact ⟨getLittleEndian_lt bytes, by rw [putLittleEndian_get, left]⟩

theorem leaves_u8 : Leaves (readU8 short) fun value => [value] := by
  intro cursor value after done
  obtain ⟨number, middle, taken, same⟩ := bind_eq_ok.mp done
  obtain ⟨rfl, rfl⟩ := pure_eq_ok.mp same
  obtain ⟨small, left⟩ := leaves_takeNumber _ 1 taken
  have low : number % 256 = number := Nat.mod_eq_of_lt small
  rw [left]
  simp only [putLittleEndian, low]

theorem leaves_u16 : Leaves (readU16 short) putU16 := by
  intro cursor value after done
  obtain ⟨number, middle, taken, same⟩ := bind_eq_ok.mp done
  obtain ⟨rfl, rfl⟩ := pure_eq_ok.mp same
  obtain ⟨small, left⟩ := leaves_takeNumber _ 2 taken
  rw [left, putU16, UInt16.toNat_ofNat_of_lt' small]

theorem leaves_u32 : Leaves (readU32 short) putU32 := by
  intro cursor value after done
  obtain ⟨number, middle, taken, same⟩ := bind_eq_ok.mp done
  obtain ⟨rfl, rfl⟩ := pure_eq_ok.mp same
  obtain ⟨small, left⟩ := leaves_takeNumber _ 4 taken
  rw [left, putU32, UInt32.toNat_ofNat_of_lt' small]

theorem leaves_u64 : Leaves (readU64 short) putU64 := by
  intro cursor value after done
  obtain ⟨number, middle, taken, same⟩ := bind_eq_ok.mp done
  obtain ⟨rfl, rfl⟩ := pure_eq_ok.mp same
  obtain ⟨small, left⟩ := leaves_takeNumber _ 8 taken
  rw [left, putU64, UInt64.toNat_ofNat_of_lt' small]

theorem leaves_array32 : Leaves (readArray32 short) Subtype.val := by
  intro cursor value after done
  obtain ⟨bytes, middle, taken, same⟩ := bind_eq_ok.mp done
  split at same
  · obtain ⟨rfl, rfl⟩ := pure_eq_ok.mp same
    exact (leaves_takeBytes _ _ taken).2
  · cases (lift_eq_ok.mp same).1

/-- Items one after the other, as many as were asked for. -/
theorem leaves_takeMany {α : Type} {item : Reader α} {put : α → Bytes} (each : Leaves item put)
    {count : Nat} {cursor after : Cursor} {values : List α}
    (done : takeMany item count cursor = (.ok values, after)) :
    values.length = count ∧ cursor.rest = values.flatMap put ++ after.rest := by
  induction count generalizing cursor values with
  | zero =>
      obtain ⟨rfl, rfl⟩ := pure_eq_ok.mp done
      exact ⟨rfl, rfl⟩
  | succ count ih =>
      obtain ⟨value, middle, first, rest⟩ := bind_eq_ok.mp done
      obtain ⟨others, last, later, same⟩ := bind_eq_ok.mp rest
      obtain ⟨rfl, rfl⟩ := pure_eq_ok.mp same
      obtain ⟨counted, left⟩ := ih later
      refine ⟨congrArg (· + 1) counted, ?_⟩
      rw [each cursor value middle first, left, List.flatMap_cons, List.append_assoc]

end Numbers

/-- A check leaves the cursor where it is. -/
theorem ensure_left {condition : Prop} [Decidable condition] {error : Error} {cursor after : Cursor}
    {value : Unit} (done : (lift (Outcome.ensure condition error) : Reader Unit) cursor =
      (.ok value, after)) : condition ∧ cursor = after := by
  obtain ⟨held, rfl⟩ := lift_eq_ok.mp done
  exact ⟨Outcome.ensure_eq_ok.mp held, rfl⟩

/-- Nothing is left behind what is accepted, and it has passed its check. -/
theorem decodeAll_checked {α : Type} {reader : Reader α} {trailing : Nat → Error}
    {check : α → Result Unit} {bytes : Bytes} {value : α} (done : decodeAll (do
      let value ← reader
      atEnd trailing
      lift (check value)
      return value) bytes = .ok value) :
    ∃ last, reader (start bytes) = (.ok value, last) ∧ last.rest = [] ∧ check value = .ok () := by
  obtain ⟨read, middle, fields, ran⟩ := bind_eq_ok.mp (Prod.ext done rfl)
  obtain ⟨_, ended, trailing, ran⟩ := bind_eq_ok.mp ran
  obtain ⟨_, checked, valid, same⟩ := bind_eq_ok.mp ran
  obtain ⟨rfl, rfl⟩ := pure_eq_ok.mp same
  obtain ⟨held, _, got, empty⟩ := bind_eq_ok.mp trailing
  obtain ⟨rfl, rfl⟩ := get_eq_ok.mp got
  exact ⟨_, fields, (ensure_left empty).1, (lift_eq_ok.mp valid).1⟩

/-- A boolean has one byte, and only two of them are accepted. -/
theorem putBool_of_le {byte : UInt8} (small : byte ≤ 1) : putBool (byte = 1) = byte := by
  have below : byte.toNat ≤ 1 := UInt8.le_iff_toNat_le.mp small
  have either : byte.toNat = 0 ∨ byte.toNat = 1 := by omega
  rcases either with zero | one
  · obtain rfl : byte = 0 := UInt8.toNat_inj.mp zero
    rfl
  · obtain rfl : byte = 1 := UInt8.toNat_inj.mp one
    rfl

theorem putBool_le (value : Bool) : putBool value ≤ 1 ∧ decide (putBool value = 1) = value := by
  cases value <;> decide

end ParamsWire

open ParamsWire

namespace QamLloydMaxParams

def magic : Bytes := [86, 76, 81, 76]

def version : UInt16 := 1

def bytes (params : QamLloydMaxParams) : Bytes :=
  magic ++ (putU16 version ++ (putU32 params.dimension ++ (putU32 params.numPairs ++
    (putU32 params.blockSize ++ (putU64 params.rotationSeed ++ ([params.ampBits] ++
    ([params.phaseBits] ++ ([putBool params.renormalizeAtDecode] ++ ([0] ++
    (putU32 (UInt32.ofNat params.sigmaPerPair.length) ++ (params.sigmaPerPair.flatMap putU32 ++
    params.calibrationId.1)))))))))))

def encodeBytes (params : QamLloydMaxParams) : Result Bytes := do
  params.validate
  return params.bytes

def truncated (count pos : Nat) : Error :=
  .format s!"QamLloydMaxParams: truncated, need {count} bytes at offset {pos}"

def readFields : Reader QamLloydMaxParams := do
  let found ← takeBytes (truncated 4) 4
  lift (Outcome.ensure (found = magic) (.format
    s!"QamLloydMaxParams magic mismatch: expected VLQL, got {found}"))
  let wire ← readU16 truncated
  lift (Outcome.ensure (wire = version) (.format
    s!"QamLloydMaxParams version mismatch: expected {version}, got {wire}"))
  let dimension ← readU32 truncated
  let numPairs ← readU32 truncated
  let blockSize ← readU32 truncated
  let rotationSeed ← readU64 truncated
  let ampBits ← readU8 truncated
  let phaseBits ← readU8 truncated
  let renormByte ← readU8 truncated
  lift (Outcome.ensure (renormByte ≤ 1) (.format
    s!"QamLloydMaxParams renormalize_at_decode must be 0 or 1, got {renormByte}"))
  let reserved ← readU8 truncated
  lift (Outcome.ensure (reserved = 0) (.format
    s!"QamLloydMaxParams reserved byte must be 0, got {reserved}"))
  let sigmaCount ← readU32 truncated
  lift (Outcome.ensure (sigmaCount = numPairs) (.format
    s!"QamLloydMaxParams sigma_count ({sigmaCount}) must equal num_pairs ({numPairs})"))
  let sigmaPerPair ← takeMany (readU32 truncated) sigmaCount.toNat
  let calibrationId ← readArray32 truncated
  return { dimension, numPairs, blockSize, rotationSeed, ampBits, phaseBits
           renormalizeAtDecode := renormByte = 1, sigmaPerPair, calibrationId }

def decode (bytes : Bytes) : Result QamLloydMaxParams := decodeAll (do
  let params ← readFields
  atEnd fun left => .format s!"QamLloydMaxParams: {left} trailing bytes"
  lift params.validate
  return params) bytes

variable {params : QamLloydMaxParams}

theorem validate_counts (valid : params.validate = .ok ()) :
    params.sigmaPerPair.length = params.numPairs.toNat := by
  simp only [validate, Outcome.bind_eq_ok, Outcome.ensure_eq_ok] at valid
  obtain ⟨_, _, _, _, _, _, _, _, _, _, _, _, _, _, _, _, _, counted, _⟩ := valid
  exact counted

theorem reads_fields (counted : params.sigmaPerPair.length = params.numPairs.toNat) :
    Reads readFields params.bytes params := by
  obtain ⟨small, renormalize⟩ := putBool_le params.renormalizeAtDecode
  have count : UInt32.ofNat params.sigmaPerPair.length = params.numPairs := by
    rw [counted, UInt32.ofNat_toNat]
  have sigmas : Reads (takeMany (readU32 truncated) params.numPairs.toNat)
      (params.sigmaPerPair.flatMap putU32) params.sigmaPerPair := by
    rw [← counted]
    exact reads_takeMany fun sigma _ => reads_u32 sigma
  unfold readFields bytes
  refine (reads_takeBytes (truncated 4) magic).bind (Reads.ensure rfl ?_)
  refine (reads_u16 version).bind (Reads.ensure rfl ?_)
  refine (reads_u32 _).bind ((reads_u32 _).bind ((reads_u32 _).bind ((reads_u64 _).bind ?_)))
  refine (reads_u8 _).bind ((reads_u8 _).bind ((reads_u8 _).bind (Reads.ensure small ?_)))
  refine (reads_u8 0).bind (Reads.ensure rfl ((reads_u32 _).bind (Reads.ensure count ?_)))
  rw [count]
  refine sigmas.bind ?_
  rw [← List.append_nil params.calibrationId.1]
  refine (reads_array32 _).bind ?_
  rw [renormalize]
  exact reads_pure params

/-- Accepted parameters are read back from what is written. -/
theorem decode_encodeBytes (valid : params.validate = .ok ()) :
    params.encodeBytes = .ok params.bytes ∧ decode params.bytes = .ok params := by
  refine ⟨?_, ?_⟩
  · rw [encodeBytes, valid]
    rfl
  · refine Finishes.decodeAll ?_
    rw [← List.append_nil params.bytes]
    exact Finishes.bind (reads_fields (validate_counts valid))
      (finishes_atEnd (Finishes.lift valid (finishes_pure params)))

theorem leaves_fields {cursor after : Cursor} (done : readFields cursor = (.ok params, after)) :
    cursor.rest = params.bytes ++ after.rest := by
  obtain ⟨found, c1, magicRead, done⟩ := bind_eq_ok.mp done
  obtain ⟨_, c2, isMagic, done⟩ := bind_eq_ok.mp done
  obtain ⟨rfl, rfl⟩ := ensure_left isMagic
  obtain ⟨wire, c3, versionRead, done⟩ := bind_eq_ok.mp done
  obtain ⟨_, c4, isVersion, done⟩ := bind_eq_ok.mp done
  obtain ⟨rfl, rfl⟩ := ensure_left isVersion
  obtain ⟨dimension, c5, dimensionRead, done⟩ := bind_eq_ok.mp done
  obtain ⟨numPairs, c6, pairsRead, done⟩ := bind_eq_ok.mp done
  obtain ⟨blockSize, c7, blockRead, done⟩ := bind_eq_ok.mp done
  obtain ⟨rotationSeed, c8, seedRead, done⟩ := bind_eq_ok.mp done
  obtain ⟨ampBits, c9, ampRead, done⟩ := bind_eq_ok.mp done
  obtain ⟨phaseBits, c10, phaseRead, done⟩ := bind_eq_ok.mp done
  obtain ⟨renormByte, c11, renormRead, done⟩ := bind_eq_ok.mp done
  obtain ⟨_, c12, isBool, done⟩ := bind_eq_ok.mp done
  obtain ⟨small, rfl⟩ := ensure_left isBool
  obtain ⟨reserved, c13, reservedRead, done⟩ := bind_eq_ok.mp done
  obtain ⟨_, c14, isZero, done⟩ := bind_eq_ok.mp done
  obtain ⟨rfl, rfl⟩ := ensure_left isZero
  obtain ⟨sigmaCount, c15, countRead, done⟩ := bind_eq_ok.mp done
  obtain ⟨_, c16, isCount, done⟩ := bind_eq_ok.mp done
  obtain ⟨rfl, rfl⟩ := ensure_left isCount
  obtain ⟨sigmas, c17, sigmasRead, done⟩ := bind_eq_ok.mp done
  obtain ⟨calibrationId, c18, idRead, done⟩ := bind_eq_ok.mp done
  obtain ⟨rfl, rfl⟩ := pure_eq_ok.mp done
  obtain ⟨counted, sigmasLeft⟩ := leaves_takeMany leaves_u32 sigmasRead
  have count : UInt32.ofNat sigmas.length = sigmaCount := by rw [counted, UInt32.ofNat_toNat]
  rw [(leaves_takeBytes _ _ magicRead).2, leaves_u16 _ _ _ versionRead,
    leaves_u32 _ _ _ dimensionRead, leaves_u32 _ _ _ pairsRead, leaves_u32 _ _ _ blockRead,
    leaves_u64 _ _ _ seedRead, leaves_u8 _ _ _ ampRead, leaves_u8 _ _ _ phaseRead,
    leaves_u8 _ _ _ renormRead, leaves_u8 _ _ _ reservedRead, leaves_u32 _ _ _ countRead,
    sigmasLeft, leaves_array32 _ _ _ idRead]
  simp only [bytes, count, putBool_of_le small, List.append_assoc]

/-- Nothing but what is written is accepted. -/
theorem encodeBytes_decode {blob : Bytes} (done : decode blob = .ok params) :
    params.encodeBytes = .ok blob := by
  obtain ⟨last, fields, nothing, valid⟩ := decodeAll_checked done
  have whole := leaves_fields fields
  rw [nothing, List.append_nil] at whole
  rw [encodeBytes, valid]
  exact congrArg Outcome.ok whole.symm

end QamLloydMaxParams

namespace UpqDesignSource

def toWire : UpqDesignSource → UInt8
  | .empirical => 0
  | .rayleigh => 1

def fromWire (byte : UInt8) : Result UpqDesignSource :=
  if byte = 0 then return .empirical
  else if byte = 1 then return .rayleigh
  else .err (.format s!"UpqParams: invalid design_source byte {byte} (expected 0 or 1)")

theorem fromWire_toWire (source : UpqDesignSource) : fromWire source.toWire = .ok source := by
  cases source <;> rfl

theorem toWire_fromWire {byte : UInt8} {source : UpqDesignSource}
    (done : fromWire byte = .ok source) : source.toWire = byte := by
  unfold fromWire at done
  split at done
  · rename_i zero
    obtain rfl := Outcome.ok.inj done
    exact zero.symm
  · split at done
    · rename_i one
      obtain rfl := Outcome.ok.inj done
      exact one.symm
    · cases done

end UpqDesignSource

namespace UpqParams

def magic : Bytes := [86, 76, 85, 80]

def version : UInt16 := 1

def headBytes : Nat := 4 + 2 + 4 + 4 + 4 + 8 + 4 + 2 + 1 + 1

def putPhases (phases : UInt32) : Bytes := putU16 phases.toUInt16

def bytes (params : UpqParams) : Bytes :=
  magic ++ (putU16 version ++ (putU32 params.dimension ++ (putU32 params.numPairs ++
    (putU32 params.blockSize ++ (putU64 params.rotationSeed ++ (putU32 params.cells ++
    (putU16 (UInt16.ofNat params.ringRadii.length) ++ ([params.designSource.toWire] ++
    ([putBool params.renormalizeAtDecode] ++ (params.ringRadii.flatMap putU32 ++
    (params.ringPhases.flatMap putPhases ++ (putU32 (UInt32.ofNat params.sigmaPerPair.length) ++
    (params.sigmaPerPair.flatMap putU32 ++ params.calibrationId.1)))))))))))))

@[simp] theorem putPhases_length (phases : UInt32) : (putPhases phases).length = 2 :=
  putLittleEndian_length 2 _

def encodeBytes (params : UpqParams) : Result Bytes := do
  params.validate
  return params.bytes

/-- The room is checked before a group of reads, so none of them comes out short. -/
def short (count pos : Nat) : Error :=
  .format s!"UpqParams: truncated body (need {count} bytes at offset {pos}, have 0)"

def need (count : Nat) : Reader Unit := do
  let cursor ← Command.get
  lift (Outcome.ensure (count ≤ cursor.rest.length) (.format
    s!"UpqParams: truncated body (need {count} bytes at offset {cursor.pos}, have {cursor.rest.length})"))

def readPhases : Reader UInt32 := do
  let phases ← readU16 short
  return phases.toUInt32

def readFields : Reader UpqParams := do
  let found ← takeBytes (short 4) 4
  lift (Outcome.ensure (found = magic) (.format "UpqParams: bad magic (expected VLUP)"))
  let wire ← readU16 short
  lift (Outcome.ensure (wire = version) (.format
    s!"UpqParams: unsupported version {wire} (expected {version})"))
  let dimension ← readU32 short
  let numPairs ← readU32 short
  let blockSize ← readU32 short
  let rotationSeed ← readU64 short
  let cells ← readU32 short
  let numRings ← readU16 short
  let sourceByte ← readU8 short
  let designSource ← lift (UpqDesignSource.fromWire sourceByte)
  let renormByte ← readU8 short
  lift (Outcome.ensure (renormByte ≤ 1) (.format
    s!"UpqParams: invalid renormalize_at_decode byte {renormByte}"))
  need (4 * numRings.toNat)
  let ringRadii ← takeMany (readU32 short) numRings.toNat
  need (2 * numRings.toNat)
  let ringPhases ← takeMany readPhases numRings.toNat
  need 4
  let sigmaCount ← readU32 short
  lift (Outcome.ensure (sigmaCount = numPairs) (.format
    s!"UpqParams: sigma_count {sigmaCount} != num_pairs {numPairs}"))
  need (4 * sigmaCount.toNat)
  let sigmaPerPair ← takeMany (readU32 short) sigmaCount.toNat
  need blake3Len
  let calibrationId ← readArray32 short
  return { dimension, numPairs, blockSize, rotationSeed, cells, designSource
           renormalizeAtDecode := renormByte = 1, ringRadii, ringPhases, sigmaPerPair
           calibrationId }

def decode (bytes : Bytes) : Result UpqParams := do
  Outcome.ensure (headBytes ≤ bytes.length) (.format
    s!"UpqParams: truncated header ({bytes.length} < {headBytes} bytes)")
  decodeAll (do
    let params ← readFields
    atEnd fun left => .format s!"UpqParams: {left} trailing bytes after params"
    lift params.validate
    return params) bytes

/-! ### No count is cut short -/

variable {params : UpqParams}

theorem checkPhases_least {cells : UInt32} {place : Nat} {phases : List UInt32}
    (checked : checkPhases cells place phases = .ok ()) : ∀ phase ∈ phases, 4 ≤ phase.toNat := by
  induction phases generalizing place with
  | nil => exact fun _ member => absurd member List.not_mem_nil
  | cons phase phases ih =>
      obtain ⟨_, held, rest⟩ := Outcome.bind_eq_ok.mp checked
      have least : minRingPhases ≤ phase := (Outcome.ensure_eq_ok.mp held).2.1
      intro other member
      rcases List.mem_cons.mp member with rfl | later
      · exact UInt32.le_iff_toNat_le.mp least
      · exact ih rest other later

/-- With two rings of at least four phases, none has all the cells. -/
theorem phase_lt {phases : List UInt32} {limit : Nat} (several : 2 ≤ phases.length)
    (least : ∀ phase ∈ phases, 4 ≤ phase.toNat) (total : (phases.map UInt32.toNat).sum ≤ limit) :
    ∀ phase ∈ phases, phase.toNat < limit := by
  intro phase member
  obtain ⟨front, back, rfl⟩ := List.append_of_mem member
  simp only [List.map_append, List.map_cons, List.sum_append, List.sum_cons] at total
  simp only [List.length_append, List.length_cons] at several
  rcases front with _ | ⟨first, front⟩
  · rcases back with _ | ⟨next, back⟩
    · simp at several
    · have some := least next (by simp)
      simp only [List.map_cons, List.sum_cons] at total
      omega
  · have some := least first (by simp)
    simp only [List.map_cons, List.sum_cons] at total
    omega

structure Counts (params : UpqParams) : Prop where
  rings : params.ringRadii.length < 2 ^ 16
  phases : params.ringPhases.length = params.ringRadii.length
  narrow : ∀ phase ∈ params.ringPhases, phase.toNat < 2 ^ 16
  sigmas : params.sigmaPerPair.length = params.numPairs.toNat

theorem validate_counts (valid : params.validate = .ok ()) : params.Counts := by
  simp only [validate, Outcome.bind_eq_ok, Outcome.ensure_eq_ok] at valid
  obtain ⟨_, _, _, _, _, _, _, ⟨_, _, most⟩, _, ⟨several, rings⟩, _, phases, _, _, _, checked, _,
    total, _, sigmas, _⟩ := valid
  have limit : params.cells.toNat ≤ 2 ^ 16 := UInt32.le_iff_toNat_le.mp most
  refine ⟨rings, phases, ?_, sigmas⟩
  exact phase_lt (by omega) (checkPhases_least checked) (Nat.le_trans total limit)

/-! ### Round trips -/

theorem reads_need {α : Type} {count : Nat} {next : Unit → Reader α} {bytes : Bytes} {last : α}
    (room : count ≤ bytes.length) (later : Reads (next ()) bytes last) :
    Reads (need count >>= next) bytes last := by
  intro pos rest reserved
  have enough : count ≤ (bytes ++ rest).length := by
    rw [List.length_append]
    omega
  have passed : need count ⟨pos, bytes ++ rest, reserved⟩ =
      (.ok (), ⟨pos, bytes ++ rest, reserved⟩) :=
    congrArg (·, _) (Outcome.ensure_true _ enough)
  rw [bind_of_ok passed]
  exact later pos rest reserved

theorem reads_phases {phases : UInt32} (narrow : phases.toNat < 2 ^ 16) :
    Reads readPhases (putPhases phases) phases := by
  have read := (@reads_u16 short phases.toUInt16).map UInt16.toUInt32
  have same : phases.toUInt16.toUInt32 = phases := by
    refine UInt32.toNat_inj.mp ?_
    rw [UInt16.toNat_toUInt32, UInt32.toNat_toUInt16, Nat.mod_eq_of_lt narrow]
  rwa [same] at read

theorem reads_fields (counts : params.Counts) : Reads readFields params.bytes params := by
  obtain ⟨small, renormalize⟩ := putBool_le params.renormalizeAtDecode
  have rings : (UInt16.ofNat params.ringRadii.length).toNat = params.ringRadii.length :=
    UInt16.toNat_ofNat_of_lt' counts.rings
  have sigmaCount : UInt32.ofNat params.sigmaPerPair.length = params.numPairs := by
    rw [counts.sigmas, UInt32.ofNat_toNat]
  have radii : Reads (takeMany (readU32 short) params.ringRadii.length)
      (params.ringRadii.flatMap putU32) params.ringRadii :=
    reads_takeMany fun radius _ => reads_u32 radius
  have phases : Reads (takeMany readPhases params.ringRadii.length)
      (params.ringPhases.flatMap putPhases) params.ringPhases := by
    rw [← counts.phases]
    exact reads_takeMany fun phase member => reads_phases (counts.narrow phase member)
  have sigmas : Reads (takeMany (readU32 short) params.numPairs.toNat)
      (params.sigmaPerPair.flatMap putU32) params.sigmaPerPair := by
    rw [← counts.sigmas]
    exact reads_takeMany fun sigma _ => reads_u32 sigma
  have radiiLength : (params.ringRadii.flatMap putU32).length = 4 * params.ringRadii.length := by
    rw [length_flatMap_uniform fun value _ => putU32_length value, Nat.mul_comm]
  have phasesLength : (params.ringPhases.flatMap putPhases).length =
      2 * params.ringRadii.length := by
    rw [length_flatMap_uniform fun value _ => putPhases_length value, counts.phases, Nat.mul_comm]
  have sigmasLength : (params.sigmaPerPair.flatMap putU32).length = 4 * params.numPairs.toNat := by
    rw [length_flatMap_uniform fun value _ => putU32_length value, counts.sigmas, Nat.mul_comm]
  have idLength := params.calibrationId.2
  unfold readFields bytes
  refine (reads_takeBytes (short 4) magic).bind (Reads.ensure rfl ?_)
  refine (reads_u16 version).bind (Reads.ensure rfl ?_)
  refine (reads_u32 _).bind ((reads_u32 _).bind ((reads_u32 _).bind ((reads_u64 _).bind ?_)))
  refine (reads_u32 _).bind ((reads_u16 _).bind ((reads_u8 _).bind ?_))
  refine Reads.lift (UpqDesignSource.fromWire_toWire _) ?_
  refine (reads_u8 _).bind (Reads.ensure small ?_)
  rw [rings, sigmaCount]
  refine reads_need (by rw [List.length_append]; omega) (radii.bind ?_)
  refine reads_need (by rw [List.length_append]; omega) (phases.bind ?_)
  refine reads_need (by rw [List.length_append, putU32_length]; omega) ?_
  refine (reads_u32 _).bind (Reads.ensure rfl ?_)
  refine reads_need (by rw [List.length_append]; omega) (sigmas.bind ?_)
  refine reads_need (Nat.le_of_eq idLength.symm) ?_
  rw [← List.append_nil params.calibrationId.1]
  refine (reads_array32 _).bind ?_
  rw [renormalize]
  exact reads_pure params

/-- Accepted parameters are read back from what is written. -/
theorem decode_encodeBytes (valid : params.validate = .ok ()) :
    params.encodeBytes = .ok params.bytes ∧ decode params.bytes = .ok params := by
  refine ⟨?_, ?_⟩
  · rw [encodeBytes, valid]
    rfl
  · have head : headBytes ≤ params.bytes.length := by
      simp [headBytes, bytes, magic, putU16, putU32, putU64]
      omega
    rw [decode, Outcome.ensure_true _ head, Outcome.ok_bind]
    refine Finishes.decodeAll ?_
    rw [← List.append_nil params.bytes]
    exact Finishes.bind (reads_fields (validate_counts valid))
      (finishes_atEnd (Finishes.lift valid (finishes_pure params)))

theorem need_left {count : Nat} {cursor after : Cursor} {value : Unit}
    (done : need count cursor = (.ok value, after)) : cursor = after := by
  obtain ⟨held, _, got, checked⟩ := bind_eq_ok.mp done
  obtain ⟨rfl, rfl⟩ := get_eq_ok.mp got
  exact (ensure_left checked).2

theorem leaves_phases : Leaves readPhases putPhases := by
  intro cursor value after done
  obtain ⟨narrow, middle, read, same⟩ := bind_eq_ok.mp done
  obtain ⟨rfl, rfl⟩ := pure_eq_ok.mp same
  rw [leaves_u16 _ _ _ read, putPhases, UInt16.toUInt16_toUInt32]

theorem leaves_fields {cursor after : Cursor} (done : readFields cursor = (.ok params, after)) :
    cursor.rest = params.bytes ++ after.rest := by
  obtain ⟨found, c1, magicRead, done⟩ := bind_eq_ok.mp done
  obtain ⟨_, c2, isMagic, done⟩ := bind_eq_ok.mp done
  obtain ⟨rfl, rfl⟩ := ensure_left isMagic
  obtain ⟨wire, c3, versionRead, done⟩ := bind_eq_ok.mp done
  obtain ⟨_, c4, isVersion, done⟩ := bind_eq_ok.mp done
  obtain ⟨rfl, rfl⟩ := ensure_left isVersion
  obtain ⟨dimension, c5, dimensionRead, done⟩ := bind_eq_ok.mp done
  obtain ⟨numPairs, c6, pairsRead, done⟩ := bind_eq_ok.mp done
  obtain ⟨blockSize, c7, blockRead, done⟩ := bind_eq_ok.mp done
  obtain ⟨rotationSeed, c8, seedRead, done⟩ := bind_eq_ok.mp done
  obtain ⟨cells, c9, cellsRead, done⟩ := bind_eq_ok.mp done
  obtain ⟨numRings, c10, ringsRead, done⟩ := bind_eq_ok.mp done
  obtain ⟨sourceByte, c11, sourceRead, done⟩ := bind_eq_ok.mp done
  obtain ⟨designSource, c12, sourced, done⟩ := bind_eq_ok.mp done
  obtain ⟨isSource, rfl⟩ := lift_eq_ok.mp sourced
  obtain ⟨renormByte, c13, renormRead, done⟩ := bind_eq_ok.mp done
  obtain ⟨_, c14, isBool, done⟩ := bind_eq_ok.mp done
  obtain ⟨small, rfl⟩ := ensure_left isBool
  obtain ⟨_, c15, radiiFit, done⟩ := bind_eq_ok.mp done
  obtain rfl := need_left radiiFit
  obtain ⟨ringRadii, c16, radiiRead, done⟩ := bind_eq_ok.mp done
  obtain ⟨_, c17, phasesFit, done⟩ := bind_eq_ok.mp done
  obtain rfl := need_left phasesFit
  obtain ⟨ringPhases, c18, phasesRead, done⟩ := bind_eq_ok.mp done
  obtain ⟨_, c19, countFits, done⟩ := bind_eq_ok.mp done
  obtain rfl := need_left countFits
  obtain ⟨sigmaCount, c20, countRead, done⟩ := bind_eq_ok.mp done
  obtain ⟨_, c21, isCount, done⟩ := bind_eq_ok.mp done
  obtain ⟨rfl, rfl⟩ := ensure_left isCount
  obtain ⟨_, c22, sigmasFit, done⟩ := bind_eq_ok.mp done
  obtain rfl := need_left sigmasFit
  obtain ⟨sigmas, c23, sigmasRead, done⟩ := bind_eq_ok.mp done
  obtain ⟨_, c24, idFits, done⟩ := bind_eq_ok.mp done
  obtain rfl := need_left idFits
  obtain ⟨calibrationId, c25, idRead, done⟩ := bind_eq_ok.mp done
  obtain ⟨rfl, rfl⟩ := pure_eq_ok.mp done
  obtain ⟨radiiCounted, radiiLeft⟩ := leaves_takeMany leaves_u32 radiiRead
  obtain ⟨phasesCounted, phasesLeft⟩ := leaves_takeMany leaves_phases phasesRead
  obtain ⟨sigmasCounted, sigmasLeft⟩ := leaves_takeMany leaves_u32 sigmasRead
  have rings : UInt16.ofNat ringRadii.length = numRings := by rw [radiiCounted, UInt16.ofNat_toNat]
  have count : UInt32.ofNat sigmas.length = sigmaCount := by rw [sigmasCounted, UInt32.ofNat_toNat]
  rw [(leaves_takeBytes _ _ magicRead).2, leaves_u16 _ _ _ versionRead,
    leaves_u32 _ _ _ dimensionRead, leaves_u32 _ _ _ pairsRead, leaves_u32 _ _ _ blockRead,
    leaves_u64 _ _ _ seedRead, leaves_u32 _ _ _ cellsRead, leaves_u16 _ _ _ ringsRead,
    leaves_u8 _ _ _ sourceRead, leaves_u8 _ _ _ renormRead, radiiLeft, phasesLeft,
    leaves_u32 _ _ _ countRead, sigmasLeft, leaves_array32 _ _ _ idRead]
  simp only [bytes, rings, count, UpqDesignSource.toWire_fromWire isSource, putBool_of_le small,
    List.append_assoc]

/-- Nothing but what is written is accepted. -/
theorem encodeBytes_decode {blob : Bytes} (done : decode blob = .ok params) :
    params.encodeBytes = .ok blob := by
  obtain ⟨_, _, done⟩ := Outcome.bind_eq_ok.mp done
  obtain ⟨last, fields, nothing, valid⟩ := decodeAll_checked done
  have whole := leaves_fields fields
  rw [nothing, List.append_nil] at whole
  rw [encodeBytes, valid]
  exact congrArg Outcome.ok whole.symm

end UpqParams

/-- Both kinds of parameters survive their bytes, bit for bit, and no count is cut short. -/
theorem params_roundTrip :
    (∀ params : QamLloydMaxParams, params.validate = .ok () →
      params.sigmaPerPair.length < 2 ^ 32 ∧
        ∃ blob, params.encodeBytes = .ok blob ∧ QamLloydMaxParams.decode blob = .ok params) ∧
      (∀ blob params, QamLloydMaxParams.decode blob = .ok params →
        params.encodeBytes = .ok blob) ∧
      (∀ params : UpqParams, params.validate = .ok () →
        (params.ringRadii.length < 2 ^ 16 ∧ params.ringPhases.length < 2 ^ 16 ∧
          (∀ phases ∈ params.ringPhases, phases.toNat < 2 ^ 16) ∧
          params.sigmaPerPair.length < 2 ^ 32) ∧
        ∃ blob, params.encodeBytes = .ok blob ∧ UpqParams.decode blob = .ok params) ∧
      ∀ blob params, UpqParams.decode blob = .ok params → params.encodeBytes = .ok blob := by
  refine ⟨fun params valid => ⟨?_, _, QamLloydMaxParams.decode_encodeBytes valid⟩,
    fun _ _ done => QamLloydMaxParams.encodeBytes_decode done,
    fun params valid => ⟨?_, _, UpqParams.decode_encodeBytes valid⟩,
    fun _ _ done => UpqParams.encodeBytes_decode done⟩
  · rw [QamLloydMaxParams.validate_counts valid]
    exact params.numPairs.toNat_lt
  · have counts := UpqParams.validate_counts valid
    refine ⟨counts.rings, ?_, counts.narrow, ?_⟩
    · rw [counts.phases]
      exact counts.rings
    · rw [counts.sigmas]
      exact params.numPairs.toNat_lt

theorem params_roundTrip_small :
    let params : UpqParams :=
      { dimension := 2, numPairs := 1, blockSize := 2, rotationSeed := 7, cells := 8
        designSource := .rayleigh, renormalizeAtDecode := true, ringRadii := [0x3F000000, 0x3F800000]
        ringPhases := [4, 4], sigmaPerPair := [0x3F800000]
        calibrationId := ⟨List.replicate 32 171, rfl⟩ }
    ∃ blob, params.encodeBytes = .ok blob ∧ UpqParams.decode blob = .ok params :=
  (params_roundTrip.2.2.1 _ rfl).2

end Valise
