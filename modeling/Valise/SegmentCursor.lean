import Valise.FrameColumns
import Valise.Library.Cursor

/-!
What the codecs of the segments share: their cursor over the bytes of a segment, the numbers, blobs
and references that it reads, and the writers of these.
-/

namespace Valise

open ByteLists Commands Command Cursors Outcomes Wire

namespace SegmentCodec

abbrev Reader (α : Type) := Decoder Error α

/-! ### Reading -/

def truncated (segment : String) (count pos : Nat) : Error :=
  .format s!"{segment} truncated: need {count} bytes at offset {pos}"

def readArray (segment : String) (count : Nat) : Reader Bytes :=
  takeBytes (truncated segment count) count

def readU8 (segment : String) : Reader UInt8 := takeByte (truncated segment 1)

def readU16 (segment : String) : Reader UInt16 := do
  let value ← takeNumber (truncated segment 2) 2
  return UInt16.ofNat value

def readU32 (segment : String) : Reader UInt32 := do
  let value ← takeNumber (truncated segment 4) 4
  return UInt32.ofNat value

def readU64 (segment : String) : Reader UInt64 := do
  let value ← takeNumber (truncated segment 8) 8
  return UInt64.ofNat value

def readI64 (segment : String) : Reader Int64 := do
  let value ← readU64 segment
  return value.toInt64

/-- The checksum of a reference. -/
def readChecksum (segment : String) : Reader Checksum := do
  let bytes ← readArray segment blake3Len
  if fits : bytes.length = blake3Len then return ⟨bytes, fits⟩
  else lift (.err (truncated segment blake3Len 0))

/-- A number in groups of seven bits. The codecs report a number that is too long in two ways. -/
def readGroups (segment tooLong : String) : Reader Nat :=
  takeBase128 (truncated segment 1) (.format tooLong) 10 0 0

def readUvarint (segment : String) : Reader Nat := readGroups segment s!"{segment} varint too long"

/-- The way back from an unsigned number to the signed one. -/
def unzigzag (value : Nat) : Int :=
  if value % 2 = 0 then (value / 2 : Nat) else -(value / 2 : Nat) - 1

def readIvarint (segment : String) : Reader Int := do
  let value ← readUvarint segment
  return unzigzag value

def blobTruncated (segment : String) (declared left : Nat) : Error :=
  .format s!"{segment} blob truncated: declared {declared} but only {left} bytes left"

def readBlob (segment : String) : Reader Bytes := do
  let length ← readU32 segment
  let cursor ← Command.get
  takeBytes (fun _ => blobTruncated segment length.toNat cursor.rest.length) length.toNat

def readSegmentRef (segment : String) : Reader SegmentRef := do
  let segmentId ← readU64 segment
  let offset ← readU64 segment
  let length ← readU64 segment
  let checksum ← readChecksum segment
  return ⟨segmentId, offset, length, checksum⟩

def readOptionalSegmentRef (segment flagName : String) : Reader (Option SegmentRef) := do
  let flag ← readU8 segment
  if flag = 0 then return none
  else if flag = 1 then do
    let ref ← readSegmentRef segment
    return some ref
  else lift (.err (.format s!"{segment} {flagName} must be 0 or 1, got {flag}"))

/-! ### Writing -/

def writeU16 (value : UInt16) : Bytes := putLittleEndian 2 value.toNat
def writeU32 (value : UInt32) : Bytes := putLittleEndian 4 value.toNat
def writeU64 (value : UInt64) : Bytes := putLittleEndian 8 value.toNat
def writeI64 (value : Int64) : Bytes := writeU64 value.toUInt64
def writeUvarint (value : Nat) : Bytes := putBase128 10 value
def writeIvarint (value : Int) : Bytes := writeUvarint (zigzag value)

def writeSegmentRef (ref : SegmentRef) : Bytes :=
  writeU64 ref.segmentId ++ writeU64 ref.offset ++ writeU64 ref.length ++ ref.checksum.1

def writeOptionalSegmentRef : Option SegmentRef → Bytes
  | some ref => 1 :: writeSegmentRef ref
  | none => [0]

/-- A blob of at most `u32` bytes behind its length. -/
def lengthPrefixed (segment : String) (blob : Bytes) : Result Bytes := do
  writeBlob segment blob.length
  return putLittleEndian 4 blob.length ++ blob

/-! ### Reading back what was written -/

variable (segment : String)

theorem reads_u8 (value : UInt8) : Reads (readU8 segment) [value] value :=
  reads_takeByte _ value

theorem reads_u16 (value : UInt16) : Reads (readU16 segment) (writeU16 value) value := by
  have read := (reads_takeNumber (truncated segment 2) 2 value.toNat
    (by simpa using value.toNat_lt)).map UInt16.ofNat
  rwa [UInt16.ofNat_toNat] at read

theorem reads_u32 (value : UInt32) : Reads (readU32 segment) (writeU32 value) value := by
  have read := (reads_takeNumber (truncated segment 4) 4 value.toNat
    (by simpa using value.toNat_lt)).map UInt32.ofNat
  rwa [UInt32.ofNat_toNat] at read

/-- A count of items reads back as itself. -/
theorem reads_count {count : Nat} (few : count < 2 ^ 32) :
    (UInt32.ofNat count).toNat = count ∧
      Reads (readU32 segment) (putLittleEndian 4 count) (UInt32.ofNat count) := by
  have same : (UInt32.ofNat count).toNat = count := by
    simpa using few
  have read := reads_u32 segment (UInt32.ofNat count)
  rw [writeU32, same] at read
  exact ⟨same, read⟩

theorem reads_u64 (value : UInt64) : Reads (readU64 segment) (writeU64 value) value := by
  have read := (reads_takeNumber (truncated segment 8) 8 value.toNat
    (by simpa using value.toNat_lt)).map UInt64.ofNat
  rwa [UInt64.ofNat_toNat] at read

theorem reads_i64 (value : Int64) : Reads (readI64 segment) (writeI64 value) value := by
  have read := (reads_u64 segment value.toUInt64).map UInt64.toInt64
  rwa [Int64.toInt64_toUInt64] at read

theorem reads_checksum (value : Checksum) : Reads (readChecksum segment) value.1 value := by
  obtain ⟨bytes, fits⟩ := value
  have read := reads_takeBytes (truncated segment blake3Len) bytes
  rw [fits] at read
  intro pos rest reserved
  obtain ⟨now, done⟩ := read pos rest reserved
  refine ⟨now, ?_⟩
  rw [readChecksum, readArray, bind_of_ok done, dif_pos fits]
  rfl

theorem reads_uvarint {value : Nat} (fits : value < 2 ^ 64) :
    Reads (readUvarint segment) (writeUvarint value) value := by
  have read : Reads (readUvarint segment) (writeUvarint value) (0 + value * 2 ^ 0) :=
    reads_takeBase128 _ _ 0 (by decide) (by omega) (by omega)
  rwa [Nat.pow_zero, Nat.mul_one, Nat.zero_add] at read

theorem unzigzag_zigzag (value : Int) : unzigzag (zigzag value) = value := by
  unfold zigzag unzigzag
  split
  · rw [if_pos (by omega)]
    omega
  · rw [if_neg (by omega)]
    omega

theorem zigzag_lt {value : Int} (word : Columns.InWord value) : zigzag value < 2 ^ 64 := by
  obtain ⟨low, high⟩ := word
  unfold zigzag
  split
  · omega
  · omega

theorem reads_ivarint {value : Int} (word : Columns.InWord value) :
    Reads (readIvarint segment) (writeIvarint value) value := by
  have read := (reads_uvarint segment (zigzag_lt word)).map unzigzag
  rwa [unzigzag_zigzag] at read

theorem reads_blob {blob written : Bytes} (encoded : lengthPrefixed segment blob = .ok written) :
    Reads (readBlob segment) written blob := by
  simp only [lengthPrefixed, writeBlob, Outcome.bind_eq_ok, Outcome.ensure_eq_ok, Outcome.pure_eq,
    Outcome.ok.injEq] at encoded
  obtain ⟨_, short, rfl⟩ := encoded
  obtain ⟨length, prefixed⟩ := reads_count segment short
  refine prefixed.bind ?_
  intro pos rest reserved
  rw [bind_of_ok (get_eq_ok.mpr ⟨Eq.refl _, Eq.refl _⟩), length]
  exact reads_takeBytes _ blob pos rest reserved

theorem reads_segmentRef (ref : SegmentRef) :
    Reads (readSegmentRef segment) (writeSegmentRef ref) ref := by
  have checksum := (reads_checksum segment ref.checksum).map fun found =>
    SegmentRef.mk ref.segmentId ref.offset ref.length found
  rw [writeSegmentRef, List.append_assoc, List.append_assoc]
  exact (reads_u64 segment _).bind ((reads_u64 segment _).bind ((reads_u64 segment _).bind checksum))

theorem reads_optionalSegmentRef (flagName : String) (ref : Option SegmentRef) :
    Reads (readOptionalSegmentRef segment flagName) (writeOptionalSegmentRef ref) ref := by
  cases ref with
  | none => exact (reads_u8 segment 0).bind (reads_pure none)
  | some ref => exact (reads_u8 segment 1).bind ((reads_segmentRef segment ref).map some)

end SegmentCodec

end Valise
