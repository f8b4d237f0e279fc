import Valise.CatalogRows
import Valise.Library.Command
import Valise.TocIo

/-!
The reads of an open file that go to the bytes of a segment: the header is decoded and compared
with the registry, and the wire bytes are hashed once for each handle.
-/

namespace Valise

open ByteLists Commands Command Outcomes

def SegmentType.ofDiscriminant : Nat → Result SegmentType
  | 0x0001 => .ok .payload
  | 0x0002 => .ok .frameCatalog
  | 0x0003 => .ok .collectionCatalog
  | 0x0004 => .ok .textSpaceCatalog
  | 0x0005 => .ok .analyzerCatalog
  | 0x0006 => .ok .fieldSchemaCatalog
  | 0x0007 => .ok .retrievalProfileCatalog
  | 0x0008 => .ok .embeddingSpaceCatalog
  | 0x0009 => .ok .codecCatalog
  | 0x000A => .ok .vectorCatalog
  | 0x000C => .ok .fusionProfileCatalog
  | 0x0010 => .ok .termDictionary
  | 0x0011 => .ok .postings
  | 0x0012 => .ok .positions
  | 0x0013 => .ok .docStats
  | 0x0014 => .ok .tokenSet
  | 0x0015 => .ok .minHashSignature
  | 0x0016 => .ok .forwardIndex
  | 0x0017 => .ok .rawText
  | 0x0018 => .ok .rawTextDictionary
  | 0x0019 => .ok .metadata
  | 0x0020 => .ok .vectorData
  | 0x0022 => .ok .collectionFilter
  | 0x0023 => .ok .codecParams
  | 0x0030 => .ok .timeIndex
  | 0x00FE => .ok .segmentRegistry
  | 0x00FF => .ok .extension
  | value => .err (.format s!"unknown segment type: {value}")

def Compression.ofDiscriminant : Nat → Result Compression
  | 0 => .ok .none
  | 1 => .ok .zstd
  | 2 => .ok .lz4
  | value => .err (.format s!"unknown compression code: {value}")

/-- No decoder reads LZ4. -/
def Compression.ensureDecodable : Compression → Result Unit
  | .lz4 => .err (.unsupported
      "segment is LZ4-compressed; this build only decodes zstd (wire code 2 is reserved but unimplemented)")
  | _ => .ok ()

namespace SegmentHeader

def validateHeader (header : SegmentHeader) : Result Unit :=
  Outcome.ensure (¬(header.compression = .none ∧ header.uncompressedLength ≠ header.payloadLength))
    (.format
      s!"uncompressed length must equal payload length when compression is None: {header.uncompressedLength} != {header.payloadLength}")

/-- The checksum field, where the header is long enough to have it. -/
def checksumField (bytes : Bytes) : Result Checksum :=
  if whole : (slice bytes 44 blake3Len).length = blake3Len then .ok ⟨slice bytes 44 blake3Len, whole⟩
  else .err (.format "segment checksum truncated")

def decode (bytes : Bytes) : Result SegmentHeader := do
  Outcome.ensure (slice bytes 0 4 = segmentMagic) (.format "segment magic mismatch")
  Outcome.ensure (getLittleEndian (slice bytes 26 2) = 0)
    (.format "segment reserved field must be zero")
  Outcome.ensure (getLittleEndian (slice bytes 4 2) = Valise.segmentVersion.toNat)
    (.format s!"unsupported segment version: {getLittleEndian (slice bytes 4 2)}")
  let payloadChecksum ← checksumField bytes
  let segmentType ← SegmentType.ofDiscriminant (getLittleEndian (slice bytes 6 2))
  let compression ← Compression.ofDiscriminant (getLittleEndian (slice bytes 24 2))
  let header : SegmentHeader := {
    segmentVersion := UInt16.ofNat (getLittleEndian (slice bytes 4 2))
    segmentType
    segmentId := UInt64.ofNat (getLittleEndian (slice bytes 8 8))
    flags := UInt32.ofNat (getLittleEndian (slice bytes 16 4))
    itemCount := UInt32.ofNat (getLittleEndian (slice bytes 20 4))
    compression
    uncompressedLength := UInt64.ofNat (getLittleEndian (slice bytes 28 8))
    payloadLength := UInt64.ofNat (getLittleEndian (slice bytes 36 8))
    payloadChecksum }
  header.validateHeader
  return header

end SegmentHeader

/-! ### What a written header decodes to -/

@[simp] theorem SegmentType.ofDiscriminant_discriminant (segmentType : SegmentType) :
    SegmentType.ofDiscriminant segmentType.discriminant = .ok segmentType := by
  cases segmentType <;> rfl

@[simp] theorem Compression.ofDiscriminant_discriminant (compression : Compression) :
    Compression.ofDiscriminant compression.discriminant = .ok compression := by
  cases compression <;> rfl

namespace SegmentHeader

theorem slice_encode (header : SegmentHeader) :
    slice header.encode 0 4 = segmentMagic ∧
      slice header.encode 4 2 = putLittleEndian 2 header.segmentVersion.toNat ∧
      slice header.encode 6 2 = putLittleEndian 2 header.segmentType.discriminant ∧
      slice header.encode 8 8 = putLittleEndian 8 header.segmentId.toNat ∧
      slice header.encode 16 4 = putLittleEndian 4 header.flags.toNat ∧
      slice header.encode 20 4 = putLittleEndian 4 header.itemCount.toNat ∧
      slice header.encode 24 2 = putLittleEndian 2 header.compression.discriminant ∧
      slice header.encode 26 2 = putLittleEndian 2 0 ∧
      slice header.encode 28 8 = putLittleEndian 8 header.uncompressedLength.toNat ∧
      slice header.encode 36 8 = putLittleEndian 8 header.payloadLength.toNat ∧
      slice header.encode 44 32 = header.payloadChecksum.1 := by
  have digest := header.payloadChecksum.2
  simp only [blake3Len] at digest
  simp [slice, encode, segmentMagic, List.drop_append, List.take_append, digest,
    drop_putLittleEndian]

theorem decode_encode {header : SegmentHeader} (current : header.segmentVersion = 1)
    (valid : header.validateHeader = .ok ()) : decode header.encode = .ok header := by
  obtain ⟨magic, version, segmentType, segmentId, flags, itemCount, compression, reserved,
    uncompressed, payload, checksum⟩ := header.slice_encode
  have typeBound : header.segmentType.discriminant < 256 ^ 2 := by
    cases header.segmentType <;> decide
  have compressionBound : header.compression.discriminant < 256 ^ 2 := by
    cases header.compression <;> decide
  have digest : checksumField header.encode = .ok header.payloadChecksum := by
    unfold checksumField
    simp only [blake3Len, checksum]
    exact dif_pos header.payloadChecksum.2
  have versionOne : getLittleEndian (slice header.encode 4 2) = 1 := by
    rw [version, current]
    rfl
  have fields : decode header.encode = (do header.validateHeader; return header) := by
    unfold decode
    simp only [magic, versionOne, segmentType, segmentId, flags, itemCount, compression, reserved,
      uncompressed, payload, digest, getLittleEndian_put 2 _ typeBound,
      getLittleEndian_put 2 _ compressionBound, getLittleEndian_put 2 0 (by decide),
      getLittleEndian_put 8 _ (UInt64.toNat_lt header.segmentId),
      getLittleEndian_put 8 _ (UInt64.toNat_lt header.uncompressedLength),
      getLittleEndian_put 8 _ (UInt64.toNat_lt header.payloadLength),
      getLittleEndian_put 4 _ (UInt32.toNat_lt header.flags),
      getLittleEndian_put 4 _ (UInt32.toNat_lt header.itemCount),
      SegmentType.ofDiscriminant_discriminant, Compression.ofDiscriminant_discriminant,
      Outcome.ok_bind, Outcome.ensure_true _ trivial, UInt64.ofNat_toNat, UInt32.ofNat_toNat]
    cases header
    subst current
    rfl
  rw [fields, valid]
  rfl

/-- The decoded compression code is the one at bytes 24 and 25. -/
theorem decode_compression {bytes : Bytes} {header : SegmentHeader}
    (decoded : decode bytes = .ok header) :
    Compression.ofDiscriminant (getLittleEndian (slice bytes 24 2)) = .ok header.compression := by
  simp only [decode, Outcome.bind_eq_ok, Outcome.pure_eq, Outcome.ok.injEq] at decoded
  obtain ⟨-, -, -, -, -, -, _, -, _, -, compression, named, -, -, rfl⟩ := decoded
  exact named

end SegmentHeader

/-- What the registry keeps of a segment. -/
structure RegisteredSegment where
  root : SegmentRef
  compression : Compression

/-- A reference into a metadata segment, with the checksum of the bytes it names. -/
structure ChecksummedRef where
  ref : MetadataRef
  checksum : Checksum

structure FrameRefs where
  frameId : FrameId
  payloadEncoding : PayloadEncoding
  payloadRef : Option PayloadRef
  uriRef : Option ChecksummedRef

/-- The file behind its header region, how long it was when it was last mapped, and the catalog as
the open decoded it. -/
structure OpenFile where
  data : Bytes
  mapped : Nat
  registry : List RegisteredSegment
  frames : List FrameRefs
  vectors : List VectorDesc
  embeddingSpaces : List EmbeddingSpaceDesc
  /-- How many bytes the live codecs take for one vector. -/
  codecs : List (CodecId × Nat)

/-- The segments whose wire bytes have been hashed, shared by a handle and its snapshots. -/
abbrev Reader (α : Type) := Command (List SegmentId) Error α

def zeroChecksum : Checksum := ⟨List.replicate 32 0, by simp [blake3Len]⟩

/-- The end of a range, unless it overflows. -/
def refEnd (bytesOffset bytesLength : Nat) : Result Nat := do
  Outcome.ensure (bytesOffset + bytesLength < 2 ^ 64) (.format "payload ref range overflow")
  return bytesOffset + bytesLength

def sliceRef (bytes : Bytes) (ref : PayloadRef) : Result Bytes := do
  let stop ← refEnd ref.bytesOffset ref.bytesLength
  Outcome.ensure (stop ≤ bytes.length) (.integrity "payload ref exceeds segment length")
  return slice bytes ref.bytesOffset ref.bytesLength

section Reads

variable (blake3 : Bytes → Checksum) (decompress : Bytes → Option Bytes)

def hashWireBytes (segmentId : SegmentId) (expected : Checksum) (wire : Bytes) : Reader Unit := do
  lift (Outcome.ensure (blake3 wire = expected) (.integrity
    "payload segment wire bytes checksum mismatch"))
  Command.modify fun verified => segmentId :: verified

/-- The all-zero checksum stands for none at all. -/
def verifyPayloadWireBytes (segmentId : SegmentId) (expected : Checksum) (wire : Bytes) :
    Reader Unit := do
  let verified ← Command.get
  if expected = zeroChecksum ∨ segmentId ∈ verified then return ()
  else hashWireBytes blake3 segmentId expected wire

def decodeAll (wire : Bytes) : Result Bytes :=
  match decompress wire with
  | none => .err (.format "zstd decode failed")
  | some bytes => .ok bytes

def decodeWhole (header : SegmentHeader) (wire : Bytes) : Result Bytes := do
  let decompressed ← decodeAll decompress wire
  Outcome.ensure (decompressed.length = header.uncompressedLength.toNat) (.integrity
    s!"zstd decompressed length {decompressed.length} does not match header.uncompressed_length {header.uncompressedLength}")
  return decompressed

/-! ### Through the file -/

def checkPayloadHeader (header : SegmentHeader) (segment : SegmentRef) (ref : PayloadRef)
    (fileLength : Nat) : Result Unit := do
  Outcome.ensure (header.segmentId = ref.segmentId) (.integrity "payload segment id mismatch")
  Outcome.ensure (header.segmentType = .payload) (.integrity
    "payload ref points to non-payload segment")
  Outcome.ensure (segment.checksum = zeroChecksum ∨ segment.checksum = header.payloadChecksum)
    (.integrity "payload segment checksum mismatch")
  Outcome.ensure (segment.length = 0 ∨ segmentHeaderSize ≤ segment.length.toNat) (.integrity
    "payload segment ref shorter than header")
  Outcome.ensure (segment.length = 0 ∨
      header.payloadLength.toNat = segment.length.toNat - segmentHeaderSize) (.integrity
    "payload segment length disagrees with registry")
  Outcome.ensure
    (segment.offset.toNat + segmentHeaderSize + header.payloadLength.toNat < 2 ^ 64)
    (.format "payload segment extent overflow")
  Outcome.ensure
    (segment.offset.toNat + segmentHeaderSize + header.payloadLength.toNat ≤ fileLength)
    (.integrity "payload segment length exceeds file size")
  header.compression.ensureDecodable

/-- The wire bytes as the header says where they stand. -/
def readWire (data : Bytes) (header : SegmentHeader) (segment : SegmentRef) : Result Bytes :=
  readExact data (segment.offset.toNat + segmentHeaderSize) header.payloadLength.toNat

def readCompressedPayload (data : Bytes) (header : SegmentHeader) (segment : SegmentRef)
    (ref : PayloadRef) : Reader Bytes := do
  let stop ← lift (refEnd ref.bytesOffset ref.bytesLength)
  lift (Outcome.ensure (stop ≤ header.uncompressedLength.toNat) (.integrity
    "payload ref exceeds segment uncompressed length"))
  let compressed ← lift (readWire data header segment)
  verifyPayloadWireBytes blake3 header.segmentId header.payloadChecksum compressed
  let decompressed ← lift (decodeWhole decompress header compressed)
  return slice decompressed ref.bytesOffset ref.bytesLength

/-- The first touch of a segment reads and hashes all of it. -/
def readWholePayload (data : Bytes) (header : SegmentHeader) (segment : SegmentRef)
    (ref : PayloadRef) : Reader Bytes := do
  let wire ← lift (readWire data header segment)
  verifyPayloadWireBytes blake3 header.segmentId header.payloadChecksum wire
  return slice wire ref.bytesOffset ref.bytesLength

def readPlainPayload (data : Bytes) (header : SegmentHeader) (segment : SegmentRef)
    (ref : PayloadRef) : Reader Bytes := do
  let stop ← lift (refEnd ref.bytesOffset ref.bytesLength)
  lift (Outcome.ensure (stop ≤ header.payloadLength.toNat) (.integrity
    "payload ref exceeds segment length"))
  let verified ← Command.get
  if header.segmentId ∈ verified then
    lift (readExact data (segment.offset.toNat + segmentHeaderSize + ref.bytesOffset)
      ref.bytesLength)
  else readWholePayload blake3 data header segment ref

/-- The header says how the wire bytes are read. -/
def readPayloadRef (data : Bytes) (segment : SegmentRef) (ref : PayloadRef) : Reader Bytes := do
  let headerBytes ← lift (readExact data segment.offset.toNat segmentHeaderSize)
  let header ← lift (SegmentHeader.decode headerBytes)
  lift (checkPayloadHeader header segment ref (fileLen data))
  if header.compression = .zstd then readCompressedPayload blake3 decompress data header segment ref
  else readPlainPayload blake3 data header segment ref

def SegmentHeader.validatePayload (header : SegmentHeader) (payload : Bytes) : Result Unit := do
  header.validateHeader
  Outcome.ensure (header.payloadLength.toNat = payload.length) (.integrity
    s!"segment payload length mismatch: expected {header.payloadLength}, got {payload.length}")
  Outcome.ensure (header.payloadChecksum = blake3 payload) (.integrity
    "segment payload checksum mismatch")

def checkSegmentRoot (header : SegmentHeader) (root : SegmentRef) (expected : SegmentType) :
    Result Unit := do
  Outcome.ensure (header.segmentId = root.segmentId) (.integrity "segment id mismatch")
  Outcome.ensure (header.payloadChecksum = root.checksum) (.integrity
    "segment root checksum mismatch")
  Outcome.ensure (root.length.toNat = segmentHeaderSize + header.payloadLength.toNat) (.integrity
    "segment root length mismatch")
  Outcome.ensure (header.segmentType = expected) (.integrity "segment type mismatch")

def readSegmentPayloadTyped (data : Bytes) (root : SegmentRef) (expected : SegmentType) :
    Result Bytes := do
  let headerBytes ← readExact data root.offset.toNat segmentHeaderSize
  let header ← SegmentHeader.decode headerBytes
  checkSegmentRoot header root expected
  let payload ← readWire data header root
  header.validatePayload blake3 payload
  header.compression.ensureDecodable
  if header.compression = .zstd then decodeWhole decompress header payload else return payload

/-! ### Through the map -/

def checkMappedHeader (header : SegmentHeader) (segment : SegmentRef) (expected : SegmentType) :
    Result Unit := do
  Outcome.ensure (header.segmentType = expected) (.integrity
    s!"mmap_segment_payload: segment {segment.segmentId} type mismatch")
  Outcome.ensure (header.segmentId = segment.segmentId) (.integrity "segment id mismatch")
  Outcome.ensure (header.payloadChecksum = segment.checksum) (.integrity
    "mmap_segment_payload: segment header checksum disagrees with registry")
  Outcome.ensure (segment.length.toNat - segmentHeaderSize = header.payloadLength.toNat)
    (.integrity "mmap_segment_payload: payload length mismatch")

def mmapSegmentPayload (data : Bytes) (segment : SegmentRef) (expected : SegmentType) :
    Result Bytes := do
  Outcome.ensure (segment.offset.toNat + segment.length.toNat < 2 ^ 64) (.format
    "segment range overflow")
  Outcome.ensure (segment.offset.toNat + segment.length.toNat ≤ fileLen data) (.integrity
    s!"mmap_segment_payload: segment {segment.segmentId} past mmap end ({fileLen data})")
  Outcome.ensure (segmentHeaderSize ≤ segment.length.toNat) (.format
    "segment shorter than its header")
  let headerBytes ← readExact data segment.offset.toNat segmentHeaderSize
  let header ← SegmentHeader.decode headerBytes
  checkMappedHeader header segment expected
  readExact data (segment.offset.toNat + segmentHeaderSize)
    (segment.length.toNat - segmentHeaderSize)

/-- The wire bytes of a mapped segment, hashed before they are used. -/
def verifiedSegmentPayload (data : Bytes) (segment : SegmentRef) (expected : SegmentType) :
    Reader Bytes := do
  let wire ← lift (mmapSegmentPayload data segment expected)
  verifyPayloadWireBytes blake3 segment.segmentId segment.checksum wire
  return wire

end Reads

/-! ### The vectors of a segment -/

-- "VLVD"
def vectorDataMagic : Bytes := [86, 76, 86, 68]
def vectorDataVersion : Nat := 1

def vectorDataHeader (space : EmbeddingSpaceId) (codec : CodecId) (itemCount : Nat) : Bytes :=
  vectorDataMagic ++ putLittleEndian 2 vectorDataVersion ++ putLittleEndian 4 space.toNat ++
    putLittleEndian 4 codec.toNat ++ putLittleEndian 4 itemCount ++ putLittleEndian 4 0 ++
    putLittleEndian 4 vectorDataHeaderBytes ++
    putLittleEndian 4 (vectorDataHeaderBytes + itemCount * vectorIdBytes) ++ putLittleEndian 4 0

/-- What the writer of a segment leaves: the identifiers, then the base bytes, in order. -/
def vectorDataPayload (space : EmbeddingSpaceId) (codec : CodecId)
    (items : List (VectorId × Bytes)) : Bytes :=
  vectorDataHeader space codec items.length ++
    ((items.flatMap fun item => putLittleEndian vectorIdBytes item.1.toNat) ++
      items.flatMap Prod.snd)

structure VectorDataSegmentReader where
  payload : Bytes
  itemCount : Nat
  baseBytesPerVector : Nat
  idsOffset : Nat
  baseOffset : Nat

namespace VectorDataSegmentReader

def «open» (payload : Bytes) (baseBytesPerVector : Nat) : Result VectorDataSegmentReader := do
  Outcome.ensure (vectorDataHeaderBytes ≤ payload.length) (.format
    s!"VectorDataSegment payload truncated (need {vectorDataHeaderBytes} bytes for header, got {payload.length})")
  Outcome.ensure (slice payload 0 4 = vectorDataMagic) (.format
    "VectorDataSegment magic mismatch")
  Outcome.ensure (getLittleEndian (slice payload 4 2) = vectorDataVersion) (.format
    s!"VectorDataSegment version mismatch: expected {vectorDataVersion}, got {getLittleEndian (slice payload 4 2)}")
  let itemCount := getLittleEndian (slice payload 14 4)
  let idsOffset := getLittleEndian (slice payload 22 4)
  let baseOffset := getLittleEndian (slice payload 26 4)
  Outcome.ensure (getLittleEndian (slice payload 18 4) = 0) (.format
    "VectorDataSegment flags reserved (must be 0)")
  Outcome.ensure (getLittleEndian (slice payload 30 4) = 0) (.format
    "VectorDataSegment residual_block_offset reserved (must be 0)")
  Outcome.ensure (idsOffset = vectorDataHeaderBytes) (.format
    s!"VectorDataSegment ids_block_offset mismatch: expected {vectorDataHeaderBytes}, got {idsOffset}")
  Outcome.ensure (baseOffset = vectorDataHeaderBytes + itemCount * vectorIdBytes) (.format
    s!"VectorDataSegment base_block_offset mismatch: expected {vectorDataHeaderBytes + itemCount * vectorIdBytes}, got {baseOffset}")
  Outcome.ensure (payload.length =
      vectorDataHeaderBytes + itemCount * vectorIdBytes + itemCount * baseBytesPerVector) (.format
    s!"VectorDataSegment payload length mismatch: got {payload.length}")
  return ⟨payload, itemCount, baseBytesPerVector, idsOffset, baseOffset⟩

def checkOrdinal (reader : VectorDataSegmentReader) (ordinal : Nat) : Result Unit :=
  Outcome.ensure (ordinal < reader.itemCount) (.format
    s!"VectorDataSegment ordinal {ordinal} out of range (item_count = {reader.itemCount})")

def vectorId (reader : VectorDataSegmentReader) (ordinal : Nat) : Result VectorId := do
  reader.checkOrdinal ordinal
  return UInt64.ofNat (getLittleEndian
    (slice reader.payload (reader.idsOffset + ordinal * vectorIdBytes) vectorIdBytes))

def base (reader : VectorDataSegmentReader) (ordinal : Nat) : Result Bytes := do
  reader.checkOrdinal ordinal
  return slice reader.payload (reader.baseOffset + ordinal * reader.baseBytesPerVector)
    reader.baseBytesPerVector

end VectorDataSegmentReader

/-! ### The calls of a handle and of a snapshot -/

namespace OpenFile

def segment? (file : OpenFile) (segmentId : SegmentId) : Option RegisteredSegment :=
  file.registry.find? fun entry => entry.root.segmentId = segmentId

def frame? (file : OpenFile) (frameId : FrameId) : Option FrameRefs :=
  file.frames.find? fun frame => frame.frameId = frameId

def legacyOffsetSegmentRef (segmentId : SegmentId) : SegmentRef :=
  ⟨segmentId, segmentId, 0, zeroChecksum⟩

/-- The mapped bytes, behind the header region. -/
def map (file : OpenFile) : Bytes := file.data.take (file.mapped - headerSize)

def Covers (file : OpenFile) (segment : SegmentRef) : Prop :=
  segment.offset.toNat + segment.length.toNat ≤ fileLen file.map

instance (file : OpenFile) (segment : SegmentRef) : Decidable (file.Covers segment) :=
  inferInstanceAs (Decidable (_ ≤ _))

def frameFull (file : OpenFile) (frameId : FrameId) : Result FrameRefs :=
  match file.frame? frameId with
  | none => .err (.format s!"frame_full: unknown frame_id {frameId}")
  | some frame => .ok frame

/-- The reference a payload read follows. -/
def payloadRefOf (file : OpenFile) (frameId : FrameId) : Result PayloadRef := do
  let frame ← file.frameFull frameId
  Outcome.ensure (frame.payloadEncoding = .raw) (.unsupported
    "compressed frame payloads are not implemented in v0.1-alpha")
  match frame.payloadRef with
  | none => .err (.format "frame has no materialized payload")
  | some ref => .ok ref

section Calls

variable (blake3 : Bytes → Checksum) (decompress : Bytes → Option Bytes)

def readMappedPayload (file : OpenFile) (segment : SegmentRef) (ref : PayloadRef) :
    Reader Bytes := do
  let wire ← verifiedSegmentPayload blake3 file.map segment .payload
  lift (sliceRef wire ref)

/-- The registry's compression code chooses the path; a segment it does not list has none. -/
def readPayload (file : OpenFile) (frameId : FrameId) : Reader Bytes := do
  let ref ← lift (file.payloadRefOf frameId)
  match file.segment? ref.segmentId with
  | none =>
      let segment := legacyOffsetSegmentRef ref.segmentId
      if file.Covers segment then file.readMappedPayload blake3 segment ref
      else readPayloadRef blake3 decompress file.data segment ref
  | some entry =>
      if entry.compression = .none ∧ file.Covers entry.root then
        file.readMappedPayload blake3 entry.root ref
      else readPayloadRef blake3 decompress file.data entry.root ref

/-- The code at bytes 24 and 25 of the mapped header. -/
def peekCompression (file : OpenFile) (segment : SegmentRef) : Result Compression := do
  let compression ← Compression.ofDiscriminant
    (getLittleEndian (slice file.map (segment.offset.toNat - headerSize + 24) 2))
  compression.ensureDecodable
  return compression

/-- A snapshot takes the compression code from the mapped header. -/
def sliceSnapshot (file : OpenFile) (segment : SegmentRef) (ref : PayloadRef) (wire : Bytes) :
    Result Bytes := do
  let compression ← file.peekCompression segment
  if compression = .zstd then do
    let _ ← refEnd ref.bytesOffset ref.bytesLength
    let decompressed ← decodeAll decompress wire
    sliceRef decompressed ref
  else sliceRef wire ref

def snapshotReadPayload (file : OpenFile) (frameId : FrameId) : Reader Bytes := do
  let ref ← lift (file.payloadRefOf frameId)
  match file.segment? ref.segmentId with
  | none => lift (.err (.integrity
      s!"read_payload: data segment {ref.segmentId} not in snapshot's registry"))
  | some entry => do
      let wire ← verifiedSegmentPayload blake3 file.map entry.root .payload
      lift (file.sliceSnapshot decompress entry.root ref wire)

def metadataPayload (file : OpenFile) (segment : SegmentRef) : Result Bytes :=
  if file.Covers segment then mmapSegmentPayload file.map segment .metadata
  else readSegmentPayloadTyped blake3 decompress file.data segment .metadata

/-- The bytes of a key have a checksum of their own. -/
def readMetadataRef (file : OpenFile) (key : ChecksummedRef) : Result Bytes :=
  match file.segment? key.ref.segmentId with
  | none => .err (.integrity
      s!"read_metadata_ref: segment {key.ref.segmentId} missing from registry")
  | some entry => do
      let payload ← file.metadataPayload blake3 decompress entry.root
      Outcome.ensure (key.ref.bytesOffset + key.ref.bytesLength ≤ payload.length) (.integrity
        s!"read_metadata_ref: range out of segment payload len {payload.length}")
      let bytes := slice payload key.ref.bytesOffset key.ref.bytesLength
      Outcome.ensure (blake3 bytes = key.checksum) (.integrity
        "read_metadata_ref: metadata checksum mismatch")
      return bytes

def readFrameUri (file : OpenFile) (frameId : FrameId) : Result (Option Bytes) := do
  let frame ← file.frameFull frameId
  match frame.uriRef with
  | none => return none
  | some key => do
      let bytes ← file.readMetadataRef blake3 decompress key
      return some bytes

def vector? (file : OpenFile) (vectorId : VectorId) : Option VectorDesc :=
  file.vectors.find? fun vector => vector.vectorId = vectorId

/-- An active row, the segment it points to and how many bytes its codec takes. -/
def locateVector (file : OpenFile) (vectorId : VectorId) :
    Result (VectorDesc × SegmentRef × Nat) := do
  match file.vector? vectorId with
  | none => .err (.format s!"read_vector: unknown vector_id {vectorId}")
  | some vector => do
      Outcome.ensure (vector.status = .active) (.format
        s!"read_vector: vector {vectorId} is tombstoned")
      match file.embeddingSpaces.find? fun space =>
          space.embeddingSpaceId = vector.embeddingSpaceId with
      | none => .err (.integrity
          s!"read_vector: unknown embedding_space_id {vector.embeddingSpaceId}")
      | some space =>
          match space.primaryCodecId with
          | none => .err (.unsupported
              "read_vector: f8 spaces lack a primary codec; raw read lands in Phase 4")
          | some codecId =>
              match file.segment? vector.dataSegmentId with
              | none => .err (.integrity
                  s!"read_vector: data segment {vector.dataSegmentId} not in registry")
              | some entry =>
                  match file.codecs.find? fun codec => codec.1 = codecId with
                  | none => .err (.integrity s!"read_vector: codec {codecId} not in cache")
                  | some codec => .ok (vector, entry.root, codec.2)

def readBase (vector : VectorDesc) (payload : Bytes) (baseBytesPerVector : Nat) :
    Result Bytes := do
  let reader ← VectorDataSegmentReader.open payload baseBytesPerVector
  let storedId ← reader.vectorId vector.ordinalInSegment
  Outcome.ensure (storedId = vector.vectorId) (.integrity
    s!"read_vector: ordinal {vector.ordinalInSegment} maps to vector {storedId} but catalog says {vector.vectorId}")
  reader.base vector.ordinalInSegment

def readVector (file : OpenFile) (vectorId : VectorId) : Reader Bytes := do
  let (vector, segment, baseBytesPerVector) ← lift (file.locateVector vectorId)
  let payload ← verifiedSegmentPayload blake3 file.map segment .vectorData
  lift (readBase vector payload baseBytesPerVector)

end Calls

end OpenFile

theorem vectorDataHeader_length (space : EmbeddingSpaceId) (codec : CodecId) (itemCount : Nat) :
    (vectorDataHeader space codec itemCount).length = vectorDataHeaderBytes := by
  simp [vectorDataHeader, vectorDataMagic, vectorDataHeaderBytes]

theorem slice_vectorDataPayload_count (space : EmbeddingSpaceId) (codec : CodecId)
    (items : List (VectorId × Bytes)) :
    slice (vectorDataPayload space codec items) 14 4 = putLittleEndian 4 items.length := by
  simp [slice, vectorDataPayload, vectorDataHeader, vectorDataMagic, List.drop_append,
    drop_putLittleEndian]

/-- The base bytes of an ordinal follow those of the ordinals before it. -/
theorem slice_vectorDataPayload_base {space : EmbeddingSpaceId} {codec : CodecId}
    {items : List (VectorId × Bytes)} {width ordinal : Nat} {item : VectorId × Bytes}
    (uniform : ∀ item ∈ items, item.2.length = width) (found : items[ordinal]? = some item) :
    slice (vectorDataPayload space codec items)
      (vectorDataHeaderBytes + items.length * vectorIdBytes + ordinal * width) width = item.2 := by
  have heading := vectorDataHeader_length space codec items.length
  have ids : (items.flatMap fun item => putLittleEndian vectorIdBytes item.1.toNat).length =
      items.length * vectorIdBytes :=
    length_flatMap_uniform fun _ _ => putLittleEndian_length _ _
  rw [← heading, ← ids, vectorDataPayload, Nat.add_assoc, slice_append_right, slice_append_right]
  have piece := slice_flatMap uniform found []
  rwa [List.append_nil] at piece

theorem vectorDataPayload_length {space : EmbeddingSpaceId} {codec : CodecId}
    {items : List (VectorId × Bytes)} {width : Nat}
    (uniform : ∀ item ∈ items, item.2.length = width) :
    (vectorDataPayload space codec items).length =
      vectorDataHeaderBytes + items.length * vectorIdBytes + items.length * width := by
  have ids : (items.flatMap fun item => putLittleEndian vectorIdBytes item.1.toNat).length =
      items.length * vectorIdBytes :=
    length_flatMap_uniform fun _ _ => putLittleEndian_length _ _
  have bases : (items.flatMap Prod.snd).length = items.length * width :=
    length_flatMap_uniform uniform
  rw [vectorDataPayload, List.length_append, List.length_append, vectorDataHeader_length, ids,
    bases, Nat.add_assoc]

/-- Whatever width the reader expects, what it returns is what was written. -/
theorem OpenFile.readBase_written {vector : VectorDesc} {space : EmbeddingSpaceId}
    {codec : CodecId} {items : List (VectorId × Bytes)} {width expected : Nat}
    {item : VectorId × Bytes} {bytes : Bytes}
    (uniform : ∀ item ∈ items, item.2.length = width) (few : items.length < 2 ^ 32)
    (found : items[vector.ordinalInSegment]? = some item)
    (read : readBase vector (vectorDataPayload space codec items) expected = .ok bytes) :
    bytes = item.2 := by
  have count : getLittleEndian (slice (vectorDataPayload space codec items) 14 4) =
      items.length := by
    rw [slice_vectorDataPayload_count, getLittleEndian_put 4 _ few]
  simp only [readBase, VectorDataSegmentReader.open, VectorDataSegmentReader.vectorId,
    VectorDataSegmentReader.base, VectorDataSegmentReader.checkOrdinal, count,
    Outcome.bind_eq_ok, Outcome.pure_eq, Outcome.ok.injEq, Outcome.ensure_eq_ok] at read
  obtain ⟨_, ⟨_, -, _, -, _, -, _, -, _, -, _, -, _, based, _, whole, rfl⟩, -, -, -, -, -, -,
    rfl⟩ := read
  have present : 0 < items.length := by
    have inside := (List.getElem?_eq_some_iff.mp found).1
    omega
  rw [vectorDataPayload_length uniform, Nat.add_left_cancel_iff,
    Nat.mul_left_cancel_iff present] at whole
  subst whole
  simp only [based]
  exact slice_vectorDataPayload_base uniform found

/-- The calls that read the bytes of a segment. -/
inductive Read where
  | payload (frameId : FrameId)
  | snapshotPayload (frameId : FrameId)
  | frameUri (frameId : FrameId)
  | vector (vectorId : VectorId)
deriving DecidableEq

section Serve

variable (blake3 : Bytes → Checksum) (decompress : Bytes → Option Bytes) (file : OpenFile)

/-- A frame without a key answers with none. -/
def OpenFile.serve : Read → Reader (Option Bytes)
  | .payload frameId => do
      let bytes ← file.readPayload blake3 decompress frameId
      return some bytes
  | .snapshotPayload frameId => do
      let bytes ← file.snapshotReadPayload blake3 decompress frameId
      return some bytes
  | .frameUri frameId => lift (file.readFrameUri blake3 decompress frameId)
  | .vector vectorId => do
      let bytes ← file.readVector blake3 vectorId
      return some bytes

/-- Reads one after another on one handle and its snapshots; a failed one does not end the list. -/
def OpenFile.serveAll : List Read → List SegmentId → List (Read × Result (Option Bytes))
  | [], _ => []
  | read :: rest, verified =>
      (read, (file.serve blake3 decompress read verified).1) ::
        serveAll rest (file.serve blake3 decompress read verified).2

end Serve

end Valise
