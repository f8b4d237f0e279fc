import Valise.SegmentReads

/-!
Segments as the writer leaves them, and what the readers make of them: a payload comes back from a
plain segment through the map, and from a compressed one through the file.
-/

namespace Valise

open ByteLists Commands Command Outcomes

def wireOf (compress : Bytes → Bytes) : Compression → Bytes → Bytes
  | .zstd, content => compress content
  | .none, content => content
  | .lz4, content => content

/-- The wire bytes where the registry places them. -/
def wireAt (data : Bytes) (segment : SegmentRef) : Bytes :=
  slice data (segment.offset.toNat + segmentHeaderSize - headerSize)
    (segment.length.toNat - segmentHeaderSize)

def headerAt (data : Bytes) (segment : SegmentRef) : Bytes :=
  slice data (segment.offset.toNat - headerSize) segmentHeaderSize

section Written

variable (blake3 : Bytes → Checksum) (compress : Bytes → Bytes)

/-- A segment of the file that was written with the given content. -/
structure RegisteredSegment.Holds (entry : RegisteredSegment) (data : Bytes)
    (segmentType : SegmentType) (content : Bytes) : Prop where
  behindHeader : headerSize ≤ entry.root.offset.toNat
  inside : entry.root.offset.toNat + entry.root.length.toNat ≤ fileLen data
  addressed : entry.root.offset.toNat + entry.root.length.toNat < 2 ^ 64
  contentFits : content.length < 2 ^ 64
  compressed : entry.compression = .none ∨ entry.compression = .zstd
  length : entry.root.length.toNat =
    segmentHeaderSize + (wireOf compress entry.compression content).length
  hashed : entry.root.checksum = blake3 (wireOf compress entry.compression content)
  header : ∃ itemCount, headerAt data entry.root =
    (SegmentHeader.new blake3 segmentType entry.root.segmentId itemCount entry.compression
      (UInt64.ofNat content.length) (wireOf compress entry.compression content)).encode
  wire : wireAt data entry.root = wireOf compress entry.compression content

end Written

/-- The header is one that the registry does not contradict. -/
structure SegmentHeader.Agrees (header : SegmentHeader) (segment : SegmentRef)
    (segmentType : SegmentType) : Prop where
  segmentType : header.segmentType = segmentType
  segmentId : header.segmentId = segment.segmentId
  checksum : header.payloadChecksum = segment.checksum
  length : header.payloadLength.toNat = segment.length.toNat - segmentHeaderSize

/-- A range of the wire bytes when they are read under a compression code. -/
def rangeUnder (decompress : Bytes → Option Bytes) (compression : Compression) (wire : Bytes)
    (ref : PayloadRef) : Option Bytes :=
  match compression with
  | .none => (sliceRef wire ref).toOption
  | .zstd => do
      let content ← decompress wire
      (sliceRef content ref).toOption
  | .lz4 => none

section Checks

variable {decompress : Bytes → Option Bytes} {file : OpenFile} {entry : RegisteredSegment}
  {segmentId : SegmentId}

theorem segment?_registered (found : file.segment? segmentId = some entry) :
    entry ∈ file.registry ∧ entry.root.segmentId = segmentId := by
  refine ⟨List.mem_of_find?_eq_some found, ?_⟩
  have named := List.find?_some found
  simpa using named

theorem sliceRef_ok {bytes result : Bytes} {ref : PayloadRef} :
    sliceRef bytes ref = .ok result ↔ ref.bytesOffset + ref.bytesLength < 2 ^ 64 ∧
      ref.bytesOffset + ref.bytesLength ≤ bytes.length ∧
      result = slice bytes ref.bytesOffset ref.bytesLength := by
  unfold sliceRef refEnd
  constructor
  · intro sliced
    simp only [Outcome.bind_eq_ok, Outcome.ensure_eq_ok, Outcome.pure_eq, Outcome.ok.injEq] at sliced
    obtain ⟨_, ⟨-, addressed, rfl⟩, -, inside, rfl⟩ := sliced
    exact ⟨addressed, inside, rfl⟩
  · rintro ⟨addressed, inside, rfl⟩
    rw [Outcome.ensure_true _ addressed, Outcome.ok_bind, Outcome.pure_eq, Outcome.ok_bind,
      Outcome.ensure_true _ inside]
    rfl

theorem rangeUnder_zstd {wire bytes : Bytes} {ref : PayloadRef} :
    rangeUnder decompress .zstd wire ref = some bytes ↔
      ∃ content, decompress wire = some content ∧ sliceRef content ref = .ok bytes := by
  simp only [rangeUnder, Option.bind_eq_bind, Option.bind_eq_some_iff, Outcome.toOption_eq_some]

theorem rangeUnder_none {wire bytes : Bytes} {ref : PayloadRef} :
    rangeUnder decompress .none wire ref = some bytes ↔ sliceRef wire ref = .ok bytes :=
  Outcome.toOption_eq_some

theorem decodeAll_ok {wire content : Bytes} :
    decodeAll decompress wire = .ok content ↔ decompress wire = some content := by
  unfold decodeAll
  split
  · next packed => simp [packed]
  · next packed => simp [packed]

theorem mmapSegmentPayload_ok {data : Bytes} {segment : SegmentRef} {segmentType : SegmentType}
    {wire : Bytes} (read : mmapSegmentPayload data segment segmentType = .ok wire) :
    wire = wireAt data segment ∧
      ∃ header, SegmentHeader.decode (headerAt data segment) = .ok header ∧
        header.Agrees segment segmentType := by
  simp only [mmapSegmentPayload, checkMappedHeader, Outcome.bind_eq_ok, Outcome.ensure_eq_ok,
    readExact_ok] at read
  obtain ⟨-, overflow, -, inside, -, long, _, ⟨low, high, same⟩, header, decoded, _,
    ⟨-, typed, -, named, -, hashed, sized⟩, behind, last, whole⟩ := read
  rw [same] at decoded
  exact ⟨whole, header, decoded, typed, named, hashed, sized.symm⟩

theorem peekCompression_ok {header : SegmentHeader} {compression : Compression}
    (decoded : SegmentHeader.decode (headerAt file.map entry.root) = .ok header) :
    file.peekCompression entry.root = .ok compression ↔
      header.compression = compression ∧ compression ≠ .lz4 := by
  have named := SegmentHeader.decode_compression decoded
  rw [headerAt, slice_slice _ _ _ _ _ (by decide)] at named
  rw [OpenFile.peekCompression, named, Outcome.ok_bind]
  constructor
  · intro peeked
    obtain ⟨_, decodable, same⟩ := Outcome.bind_eq_ok.mp peeked
    obtain rfl := Outcome.ok.inj same
    refine ⟨rfl, fun unread => ?_⟩
    rw [unread] at decodable
    cases decodable
  · rintro ⟨rfl, decodable⟩
    have passes : header.compression.ensureDecodable = .ok () := by
      cases code : header.compression with
      | none => rfl
      | zstd => rfl
      | lz4 => exact absurd code decodable
    rw [passes]
    rfl

theorem sliceSnapshot_ok {ref : PayloadRef} {bytes wire : Bytes} {header : SegmentHeader}
    (decoded : SegmentHeader.decode (headerAt file.map entry.root) = .ok header) :
    file.sliceSnapshot decompress entry.root ref wire = .ok bytes ↔
      rangeUnder decompress header.compression wire ref = some bytes := by
  rw [OpenFile.sliceSnapshot, Outcome.bind_eq_ok]
  cases code : header.compression with
  | none =>
      rw [rangeUnder_none]
      constructor
      · rintro ⟨compression, peeked, sliced⟩
        obtain ⟨same, -⟩ := (peekCompression_ok decoded).mp peeked
        rw [← same, code] at sliced
        exact sliced
      · intro sliced
        exact ⟨.none, (peekCompression_ok decoded).mpr ⟨code, by decide⟩, sliced⟩
  | zstd =>
      rw [rangeUnder_zstd]
      constructor
      · rintro ⟨compression, peeked, sliced⟩
        obtain ⟨same, -⟩ := (peekCompression_ok decoded).mp peeked
        rw [← same, code, if_pos rfl] at sliced
        obtain ⟨_, -, content, unpacked, sliced⟩ := by
          simpa only [Outcome.bind_eq_ok] using sliced
        exact ⟨content, decodeAll_ok.mp unpacked, sliced⟩
      · rintro ⟨content, unpacked, sliced⟩
        refine ⟨.zstd, (peekCompression_ok decoded).mpr ⟨code, by decide⟩, ?_⟩
        obtain ⟨addressed, -, -⟩ := sliceRef_ok.mp sliced
        rw [if_pos rfl, refEnd, Outcome.ensure_true _ addressed, decodeAll_ok.mpr unpacked]
        exact sliced
  | lz4 =>
      constructor
      · rintro ⟨compression, peeked, -⟩
        obtain ⟨same, decodable⟩ := (peekCompression_ok decoded).mp peeked
        exact absurd (same.symm.trans code) decodable
      · intro none
        cases none

theorem mmapSegmentPayload_serves {data : Bytes} {segment : SegmentRef} {segmentType : SegmentType}
    {header : SegmentHeader} (behind : headerSize ≤ segment.offset.toNat)
    (addressed : segment.offset.toNat + segment.length.toNat < 2 ^ 64)
    (long : segmentHeaderSize ≤ segment.length.toNat)
    (inside : segment.offset.toNat + segment.length.toNat ≤ fileLen data)
    (decoded : SegmentHeader.decode (headerAt data segment) = .ok header)
    (agrees : header.Agrees segment segmentType) :
    mmapSegmentPayload data segment segmentType = .ok (wireAt data segment) := by
  have headerRead : readExact data segment.offset.toNat segmentHeaderSize =
      .ok (headerAt data segment) :=
    readExact_ok.mpr ⟨behind, by omega, by rw [headerAt]⟩
  have wireRead : readExact data (segment.offset.toNat + segmentHeaderSize)
      (segment.length.toNat - segmentHeaderSize) = .ok (wireAt data segment) :=
    readExact_ok.mpr ⟨by omega, by omega, by rw [wireAt]⟩
  rw [mmapSegmentPayload, Outcome.ensure_true _ addressed, Outcome.ok_bind,
    Outcome.ensure_true _ inside, Outcome.ok_bind, Outcome.ensure_true _ long, Outcome.ok_bind,
    headerRead, Outcome.ok_bind, decoded, Outcome.ok_bind, checkMappedHeader,
    Outcome.ensure_true _ agrees.segmentType, Outcome.ok_bind,
    Outcome.ensure_true _ agrees.segmentId, Outcome.ok_bind,
    Outcome.ensure_true _ agrees.checksum, Outcome.ok_bind,
    Outcome.ensure_true _ agrees.length.symm, Outcome.ok_bind, wireRead]

/-- A range read on its own is the range of the wire bytes. -/
theorem slice_wireAt {data : Bytes} {segment : SegmentRef} {ref : PayloadRef}
    (behind : headerSize ≤ segment.offset.toNat)
    (inside : ref.bytesOffset + ref.bytesLength ≤ segment.length.toNat - segmentHeaderSize) :
    slice (wireAt data segment) ref.bytesOffset ref.bytesLength =
      slice data (segment.offset.toNat + segmentHeaderSize + ref.bytesOffset - headerSize)
        ref.bytesLength := by
  have moved : segment.offset.toNat + segmentHeaderSize - headerSize + ref.bytesOffset =
      segment.offset.toNat + segmentHeaderSize + ref.bytesOffset - headerSize := by omega
  rw [wireAt, slice_slice _ _ _ _ _ inside, moved]

theorem payloadRefOf_ok {file : OpenFile} {frameId : FrameId} {ref : PayloadRef} :
    file.payloadRefOf frameId = .ok ref ↔ ∃ frame, file.frame? frameId = some frame ∧
      frame.payloadEncoding = .raw ∧ frame.payloadRef = some ref := by
  unfold OpenFile.payloadRefOf OpenFile.frameFull
  cases file.frame? frameId with
  | none => simp
  | some frame =>
      by_cases raw : frame.payloadEncoding = .raw
      · rw [Outcome.ok_bind, Outcome.ensure_true _ raw, Outcome.ok_bind]
        cases refers : frame.payloadRef with
        | none => simp [refers]
        | some found => simp [raw, refers]
      · rw [Outcome.ok_bind, Outcome.ensure_false _ raw]
        simp [raw]

end Checks

/-! ### A written payload is read back -/

namespace RegisteredSegment.Holds

variable {blake3 : Bytes → Checksum} {compress : Bytes → Bytes} {entry : RegisteredSegment}
  {data : Bytes} {segmentType : SegmentType} {content : Bytes}

theorem long (holds : entry.Holds blake3 compress data segmentType content) :
    segmentHeaderSize ≤ entry.root.length.toNat := by
  rw [holds.length]
  exact Nat.le_add_right _ _

theorem length_ne_zero (holds : entry.Holds blake3 compress data segmentType content) :
    entry.root.length ≠ 0 := by
  intro empty
  have sized := holds.length
  rw [empty] at sized
  simp only [UInt64.toNat_zero, segmentHeaderSize] at sized
  omega

/-- The header that was written decodes, and it says how the content was compressed. -/
theorem decoded (holds : entry.Holds blake3 compress data segmentType content) :
    ∃ header, SegmentHeader.decode (headerAt data entry.root) = .ok header ∧
      header.Agrees entry.root segmentType ∧ header.compression = entry.compression ∧
      header.uncompressedLength.toNat = content.length := by
  obtain ⟨itemCount, written⟩ := holds.header
  have sized := holds.length
  have addressed := holds.addressed
  have contentFits := holds.contentFits
  have wireFits : (wireOf compress entry.compression content).length < 2 ^ 64 := by omega
  have valid : (SegmentHeader.new blake3 segmentType entry.root.segmentId itemCount entry.compression
      (UInt64.ofNat content.length)
      (wireOf compress entry.compression content)).validateHeader = .ok () := by
    refine Outcome.ensure_true _ ?_
    rintro ⟨plain, different⟩
    change entry.compression = .none at plain
    simp only [SegmentHeader.new, plain, wireOf, ne_eq, not_true_eq_false] at different
  have payloadLength : (UInt64.ofNat (wireOf compress entry.compression content).length).toNat =
      entry.root.length.toNat - segmentHeaderSize := by
    rw [UInt64.toNat_ofNat']
    omega
  have uncompressedLength : (UInt64.ofNat content.length).toNat = content.length := by
    rw [UInt64.toNat_ofNat']
    omega
  exact ⟨_, written ▸ SegmentHeader.decode_encode rfl valid,
    ⟨rfl, rfl, holds.hashed.symm, payloadLength⟩, rfl, uncompressedLength⟩

/-- What stands in the mapped part of the file stands there in the map too. -/
theorem mapped {file : OpenFile} (holds : entry.Holds blake3 compress file.data segmentType content)
    (covers : file.Covers entry.root) : entry.Holds blake3 compress file.map segmentType content := by
  have behind := holds.behindHeader
  have long := holds.long
  have headerInside : entry.root.offset.toNat - headerSize + segmentHeaderSize ≤
      file.map.length := by
    unfold OpenFile.Covers fileLen at covers
    omega
  have wireInside : entry.root.offset.toNat + segmentHeaderSize - headerSize +
      (entry.root.length.toNat - segmentHeaderSize) ≤ file.map.length := by
    unfold OpenFile.Covers fileLen at covers
    omega
  have sameHeader : headerAt file.map entry.root = headerAt file.data entry.root :=
    slice_take file.data (file.mapped - headerSize) _ _ headerInside
  have sameWire : wireAt file.map entry.root = wireAt file.data entry.root :=
    slice_take file.data (file.mapped - headerSize) _ _ wireInside
  refine ⟨behind, covers, holds.addressed, holds.contentFits, holds.compressed, holds.length,
    holds.hashed, ?_, ?_⟩
  · rw [sameHeader]
    exact holds.header
  · rw [sameWire]
    exact holds.wire

end RegisteredSegment.Holds

section ReadBack

variable {blake3 : Bytes → Checksum} {compress : Bytes → Bytes}
  {decompress : Bytes → Option Bytes} {file : OpenFile} {entry : RegisteredSegment}
  {segmentType : SegmentType} {content : Bytes}

theorem verifyPayloadWireBytes_passes {expected : Checksum} {wire : Bytes}
    (hashes : blake3 wire = expected) (segmentId : SegmentId) (verified : List SegmentId) :
    ∃ after, verifyPayloadWireBytes blake3 segmentId expected wire verified = (.ok (), after) := by
  rw [verifyPayloadWireBytes, bind_of_ok (get_apply _)]
  split
  · exact ⟨verified, pure_apply _ _⟩
  · refine ⟨segmentId :: verified, ?_⟩
    rw [hashWireBytes, Outcome.ensure_true _ hashes, bind_of_ok (lift_apply _ _), modify_apply]

theorem verifiedSegmentPayload_serves {data : Bytes}
    (holds : entry.Holds blake3 compress data segmentType content) (verified : List SegmentId) :
    ∃ after, verifiedSegmentPayload blake3 data entry.root segmentType verified =
      (.ok (wireOf compress entry.compression content), after) := by
  obtain ⟨header, decoded, agrees, -, -⟩ := holds.decoded
  have mapped := mmapSegmentPayload_serves holds.behindHeader holds.addressed holds.long
    holds.inside decoded agrees
  rw [holds.wire] at mapped
  obtain ⟨after, passes⟩ :=
    verifyPayloadWireBytes_passes holds.hashed.symm entry.root.segmentId verified
  refine ⟨after, ?_⟩
  rw [verifiedSegmentPayload, mapped, bind_of_ok (lift_apply _ _), bind_of_ok passes, pure_apply]

variable {ref : PayloadRef} (inside : ref.bytesOffset + ref.bytesLength ≤ content.length)
include inside

theorem sliceRef_inside (fits : content.length < 2 ^ 64) :
    sliceRef content ref = .ok (slice content ref.bytesOffset ref.bytesLength) :=
  sliceRef_ok.mpr ⟨by omega, inside, rfl⟩

theorem readMappedPayload_serves
    (holds : entry.Holds blake3 compress file.data .payload content)
    (plain : entry.compression = .none) (covers : file.Covers entry.root)
    (verified : List SegmentId) :
    ∃ after, file.readMappedPayload blake3 entry.root ref verified =
      (.ok (slice content ref.bytesOffset ref.bytesLength), after) := by
  obtain ⟨after, served⟩ := verifiedSegmentPayload_serves (holds.mapped covers) verified
  refine ⟨after, ?_⟩
  rw [plain] at served
  rw [OpenFile.readMappedPayload, bind_of_ok served, wireOf,
    sliceRef_inside inside holds.contentFits, lift_apply]

omit inside in
theorem checkPayloadHeader_passes {data : Bytes} {header : SegmentHeader}
    (holds : entry.Holds blake3 compress data .payload content)
    (agrees : header.Agrees entry.root .payload) (same : header.compression = entry.compression)
    (named : entry.root.segmentId = ref.segmentId) :
    checkPayloadHeader header entry.root ref (fileLen data) = .ok () := by
  have long := holds.long
  have sized := agrees.length
  have addressed := holds.addressed
  have within := holds.inside
  rw [checkPayloadHeader, Outcome.ensure_true _ (agrees.segmentId.trans named), Outcome.ok_bind,
    Outcome.ensure_true _ agrees.segmentType, Outcome.ok_bind,
    Outcome.ensure_true _ (.inr agrees.checksum.symm), Outcome.ok_bind,
    Outcome.ensure_true _ (.inr long), Outcome.ok_bind, Outcome.ensure_true _ (.inr sized),
    Outcome.ok_bind, Outcome.ensure_true _ (by omega), Outcome.ok_bind,
    Outcome.ensure_true _ (by omega), Outcome.ok_bind, same]
  rcases holds.compressed with plain | packed
  · rw [plain]
    rfl
  · rw [packed]
    rfl

omit inside in
theorem readWire_serves {data : Bytes} {header : SegmentHeader}
    (holds : entry.Holds blake3 compress data segmentType content)
    (agrees : header.Agrees entry.root segmentType) :
    readWire data header entry.root = .ok (wireOf compress entry.compression content) := by
  have behind := holds.behindHeader
  have long := holds.long
  have within := holds.inside
  rw [readWire, agrees.length, ← holds.wire]
  exact readExact_ok.mpr ⟨by omega, by omega, by rw [wireAt]⟩

theorem readCompressedPayload_serves {data : Bytes} {header : SegmentHeader}
    (roundTrip : decompress (compress content) = some content)
    (holds : entry.Holds blake3 compress data .payload content)
    (packed : entry.compression = .zstd) (agrees : header.Agrees entry.root .payload)
    (sized : header.uncompressedLength.toNat = content.length) (verified : List SegmentId) :
    ∃ after, readCompressedPayload blake3 decompress data header entry.root ref verified =
      (.ok (slice content ref.bytesOffset ref.bytesLength), after) := by
  have fits := holds.contentFits
  have hashed := holds.hashed
  have wireRead := readWire_serves holds agrees
  rw [packed, wireOf] at hashed wireRead
  obtain ⟨after, passes⟩ := verifyPayloadWireBytes_passes (hashed.symm.trans agrees.checksum.symm)
    header.segmentId verified
  refine ⟨after, ?_⟩
  have ranged : refEnd ref.bytesOffset ref.bytesLength =
      .ok (ref.bytesOffset + ref.bytesLength) := by
    rw [refEnd, Outcome.ensure_true _ (by omega)]
    rfl
  have unpacked : decodeWhole decompress header (compress content) = .ok content := by
    rw [decodeWhole, decodeAll_ok.mpr roundTrip, Outcome.ok_bind,
      Outcome.ensure_true _ sized.symm]
    rfl
  rw [readCompressedPayload, ranged, bind_of_ok (lift_apply _ _),
    Outcome.ensure_true _ (by rwa [sized]), bind_of_ok (lift_apply _ _), wireRead,
    bind_of_ok (lift_apply _ _), bind_of_ok passes, unpacked, bind_of_ok (lift_apply _ _), pure_apply]

theorem readPlainPayload_serves {data : Bytes} {header : SegmentHeader}
    (holds : entry.Holds blake3 compress data .payload content)
    (plain : entry.compression = .none) (agrees : header.Agrees entry.root .payload)
    (verified : List SegmentId) :
    ∃ after, readPlainPayload blake3 data header entry.root ref verified =
      (.ok (slice content ref.bytesOffset ref.bytesLength), after) := by
  have fits := holds.contentFits
  have behind := holds.behindHeader
  have within := holds.inside
  have hashed := holds.hashed
  have wire := holds.wire
  have sized := holds.length
  have wireRead := readWire_serves holds agrees
  rw [plain, wireOf] at hashed wireRead wire sized
  have ranged : refEnd ref.bytesOffset ref.bytesLength =
      .ok (ref.bytesOffset + ref.bytesLength) := by
    rw [refEnd, Outcome.ensure_true _ (by omega)]
    rfl
  have payloadLength := agrees.length
  rw [readPlainPayload, ranged, bind_of_ok (lift_apply _ _), Outcome.ensure_true _ (by omega),
    bind_of_ok (lift_apply _ _), bind_of_ok (get_apply _)]
  split
  · refine ⟨verified, ?_⟩
    have range := @slice_wireAt data entry.root ref behind (by omega)
    rw [wire] at range
    rw [lift_apply, readExact_ok.mpr ⟨by omega, by omega, range⟩]
  · obtain ⟨after, passes⟩ := verifyPayloadWireBytes_passes
      (hashed.symm.trans agrees.checksum.symm) header.segmentId verified
    refine ⟨after, ?_⟩
    rw [readWholePayload, wireRead, bind_of_ok (lift_apply _ _), bind_of_ok passes, pure_apply]

theorem readPayloadRef_serves {data : Bytes}
    (roundTrip : decompress (compress content) = some content)
    (holds : entry.Holds blake3 compress data .payload content)
    (named : entry.root.segmentId = ref.segmentId) (verified : List SegmentId) :
    ∃ after, readPayloadRef blake3 decompress data entry.root ref verified =
      (.ok (slice content ref.bytesOffset ref.bytesLength), after) := by
  obtain ⟨header, decoded, agrees, same, sized⟩ := holds.decoded
  have long := holds.long
  have within := holds.inside
  have headerRead : readExact data entry.root.offset.toNat segmentHeaderSize =
      .ok (headerAt data entry.root) :=
    readExact_ok.mpr ⟨holds.behindHeader, by omega, by rw [headerAt]⟩
  rw [readPayloadRef, headerRead, bind_of_ok (lift_apply _ _), decoded, bind_of_ok (lift_apply _ _),
    checkPayloadHeader_passes holds agrees same named, bind_of_ok (lift_apply _ _), same]
  rcases holds.compressed with plain | packed
  · rw [if_neg (by rw [plain]; decide)]
    exact readPlainPayload_serves inside holds plain agrees verified
  · rw [if_pos packed]
    exact readCompressedPayload_serves inside roundTrip holds packed agrees sized verified

variable {frame : FrameRefs} {frameId : FrameId} (framed : file.frame? frameId = some frame)
  (raw : frame.payloadEncoding = .raw) (refers : frame.payloadRef = some ref)
  (found : file.segment? ref.segmentId = some entry)
  (holds : entry.Holds blake3 compress file.data .payload content)
  (roundTrip : decompress (compress content) = some content)

include framed raw refers found holds roundTrip

/-- However much of the file is mapped, and whatever has been verified, the handle reads the bytes
of the range. -/
theorem readPayload_serves (verified : List SegmentId) :
    ∃ after, file.readPayload blake3 decompress frameId verified =
      (.ok (slice content ref.bytesOffset ref.bytesLength), after) := by
  have named : file.payloadRefOf frameId = .ok ref := payloadRefOf_ok.mpr ⟨frame, framed, raw, refers⟩
  rw [OpenFile.readPayload, named, bind_of_ok (lift_apply _ _), found]
  dsimp only
  split
  · next mapped => exact readMappedPayload_serves inside holds mapped.1 mapped.2 verified
  · exact readPayloadRef_serves inside roundTrip holds (segment?_registered found).2 verified

/-- So does a snapshot, of a segment that its map covers. -/
theorem snapshotReadPayload_serves (covers : file.Covers entry.root) (verified : List SegmentId) :
    ∃ after, file.snapshotReadPayload blake3 decompress frameId verified =
      (.ok (slice content ref.bytesOffset ref.bytesLength), after) := by
  have named : file.payloadRefOf frameId = .ok ref := payloadRefOf_ok.mpr ⟨frame, framed, raw, refers⟩
  have onMap := holds.mapped covers
  obtain ⟨header, decoded, -, same, -⟩ := onMap.decoded
  obtain ⟨after, served⟩ := verifiedSegmentPayload_serves onMap verified
  refine ⟨after, ?_⟩
  have sliced : file.sliceSnapshot decompress entry.root ref
      (wireOf compress entry.compression content) =
      .ok (slice content ref.bytesOffset ref.bytesLength) := by
    refine (sliceSnapshot_ok decoded).mpr ?_
    rw [same]
    rcases holds.compressed with plain | packed
    · rw [plain]
      exact rangeUnder_none.mpr (sliceRef_inside inside holds.contentFits)
    · rw [packed]
      exact rangeUnder_zstd.mpr ⟨content, roundTrip, sliceRef_inside inside holds.contentFits⟩
  rw [OpenFile.snapshotReadPayload, named, bind_of_ok (lift_apply _ _), found]
  change (verifiedSegmentPayload blake3 file.map entry.root .payload >>= _) verified = _
  rw [bind_of_ok served, sliced, lift_apply]

end ReadBack

/-! ### A written vector is read back -/

section Vectors

variable {space : EmbeddingSpaceId} {codec : CodecId} {items : List (VectorId × Bytes)}
  {width ordinal : Nat} {item : VectorId × Bytes}

theorem slice_vectorDataPayload_header (space : EmbeddingSpaceId) (codec : CodecId)
    (items : List (VectorId × Bytes)) :
    slice (vectorDataPayload space codec items) 0 4 = vectorDataMagic ∧
      slice (vectorDataPayload space codec items) 4 2 = putLittleEndian 2 vectorDataVersion ∧
      slice (vectorDataPayload space codec items) 18 4 = putLittleEndian 4 0 ∧
      slice (vectorDataPayload space codec items) 22 4 = putLittleEndian 4 vectorDataHeaderBytes ∧
      slice (vectorDataPayload space codec items) 26 4 =
        putLittleEndian 4 (vectorDataHeaderBytes + items.length * vectorIdBytes) ∧
      slice (vectorDataPayload space codec items) 30 4 = putLittleEndian 4 0 := by
  simp [slice, vectorDataPayload, vectorDataHeader, vectorDataMagic, List.drop_append,
    List.take_append, drop_putLittleEndian]

theorem slice_vectorDataPayload_id (found : items[ordinal]? = some item) :
    slice (vectorDataPayload space codec items) (vectorDataHeaderBytes + ordinal * vectorIdBytes)
      vectorIdBytes = putLittleEndian vectorIdBytes item.1.toNat := by
  have heading := vectorDataHeader_length space codec items.length
  rw [← heading, vectorDataPayload, slice_append_right]
  exact slice_flatMap (fun _ _ => putLittleEndian_length _ _) found _

/-- The reader opens what the writer finished, and finds each vector at its ordinal. -/
theorem vectorDataReader_reads (uniform : ∀ item ∈ items, item.2.length = width)
    (short : vectorDataHeaderBytes + items.length * vectorIdBytes < 2 ^ 32)
    (found : items[ordinal]? = some item) :
    ∃ reader, VectorDataSegmentReader.open (vectorDataPayload space codec items) width = .ok reader ∧
      reader.vectorId ordinal = .ok item.1 ∧ reader.base ordinal = .ok item.2 := by
  obtain ⟨magic, version, flags, ids, base, residual⟩ :=
    slice_vectorDataPayload_header space codec items
  have few : items.length < 2 ^ 32 := by
    unfold vectorIdBytes at short
    omega
  have count : getLittleEndian (slice (vectorDataPayload space codec items) 14 4) =
      items.length := by
    rw [slice_vectorDataPayload_count, getLittleEndian_put 4 _ few]
  have inside := (List.getElem?_eq_some_iff.mp found).1
  have whole := @vectorDataPayload_length space codec items width uniform
  have heading : vectorDataHeaderBytes ≤ (vectorDataPayload space codec items).length := by omega
  have versionRead : getLittleEndian (slice (vectorDataPayload space codec items) 4 2) =
      vectorDataVersion := by
    rw [version, getLittleEndian_put 2 _ (by decide)]
  have idsRead : getLittleEndian (slice (vectorDataPayload space codec items) 22 4) =
      vectorDataHeaderBytes := by
    rw [ids, getLittleEndian_put 4 _ (by decide)]
  have baseRead : getLittleEndian (slice (vectorDataPayload space codec items) 26 4) =
      vectorDataHeaderBytes + items.length * vectorIdBytes := by
    rw [base, getLittleEndian_put 4 _ short]
  have zeroRead : getLittleEndian (putLittleEndian 4 0) = 0 := by decide
  refine ⟨⟨vectorDataPayload space codec items, items.length, width, vectorDataHeaderBytes,
    vectorDataHeaderBytes + items.length * vectorIdBytes⟩, ?_, ?_, ?_⟩
  · rw [VectorDataSegmentReader.open, Outcome.ensure_true _ heading, Outcome.ok_bind,
      Outcome.ensure_true _ magic, Outcome.ok_bind, Outcome.ensure_true _ versionRead,
      Outcome.ok_bind]
    simp only [count, idsRead, baseRead, flags, residual, zeroRead, whole, Outcome.ok_bind,
      Outcome.ensure_true _ trivial, Outcome.pure_eq]
  · rw [VectorDataSegmentReader.vectorId, VectorDataSegmentReader.checkOrdinal,
      Outcome.ensure_true _ inside, Outcome.ok_bind, slice_vectorDataPayload_id found,
      getLittleEndian_put vectorIdBytes _ (UInt64.toNat_lt item.1), UInt64.ofNat_toNat]
    rfl
  · rw [VectorDataSegmentReader.base, VectorDataSegmentReader.checkOrdinal,
      Outcome.ensure_true _ inside, Outcome.ok_bind, slice_vectorDataPayload_base uniform found]
    rfl

end Vectors

end Valise
