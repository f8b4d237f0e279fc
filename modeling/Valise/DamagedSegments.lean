import Valise.WrittenSegments

/-!
Reads of a committed file after bytes of its data segments have changed. The hash covers the wire
bytes of a segment and not its header, so a read is right as long as the header's compression code
is not mistaken for another.
-/

namespace Valise

open ByteLists Commands Command Outcomes

section Committed

variable (blake3 : Bytes → Checksum) (compress : Bytes → Bytes)

/-- A file after a commit, with what its segments were written from. -/
structure CommittedFile extends OpenFile where
  whole : mapped = fileLen data
  content : SegmentId → Bytes
  vectorItems : SegmentId → List (VectorId × Bytes)
  payloads : ∀ frame ∈ frames, ∀ ref, frame.payloadRef = some ref →
    ∃ entry, toOpenFile.segment? ref.segmentId = some entry ∧
      entry.Holds blake3 compress data .payload (content ref.segmentId) ∧
      ref.bytesOffset + ref.bytesLength ≤ (content ref.segmentId).length
  keys : ∀ frame ∈ frames, ∀ key, frame.uriRef = some key →
    ∃ entry, toOpenFile.segment? key.ref.segmentId = some entry ∧ entry.compression = .none ∧
      entry.Holds blake3 compress data .metadata (content key.ref.segmentId) ∧
      key.ref.bytesOffset + key.ref.bytesLength ≤ (content key.ref.segmentId).length ∧
      key.checksum = blake3
        (slice (content key.ref.segmentId) key.ref.bytesOffset key.ref.bytesLength)
  stored : ∀ vector ∈ vectors, vector.status = .active →
    ∃ entry space codec width base,
      toOpenFile.segment? vector.dataSegmentId = some entry ∧ entry.compression = .none ∧
      entry.Holds blake3 compress data .vectorData (content vector.dataSegmentId) ∧
      content vector.dataSegmentId =
        vectorDataPayload space codec (vectorItems vector.dataSegmentId) ∧
      (vectorItems vector.dataSegmentId).length < 2 ^ 32 ∧
      (∀ item ∈ vectorItems vector.dataSegmentId, item.2.length = width) ∧
      (vectorItems vector.dataSegmentId)[vector.ordinalInSegment]? = some (vector.vectorId, base)

end Committed

namespace CommittedFile

variable {blake3 : Bytes → Checksum} {compress : Bytes → Bytes}

def payloadOf (committed : CommittedFile blake3 compress) (ref : PayloadRef) : Bytes :=
  slice (committed.content ref.segmentId) ref.bytesOffset ref.bytesLength

def keyOf (committed : CommittedFile blake3 compress) (key : ChecksummedRef) : Bytes :=
  slice (committed.content key.ref.segmentId) key.ref.bytesOffset key.ref.bytesLength

/-- What was committed under the name that a read asks for. -/
def answer (committed : CommittedFile blake3 compress) : Read → Option (Option Bytes)
  | .payload frameId => do
      let frame ← committed.frame? frameId
      let ref ← frame.payloadRef
      return some (committed.payloadOf ref)
  | .snapshotPayload frameId => do
      let frame ← committed.frame? frameId
      let ref ← frame.payloadRef
      return some (committed.payloadOf ref)
  | .frameUri frameId => do
      let frame ← committed.frame? frameId
      return frame.uriRef.map committed.keyOf
  | .vector vectorId => do
      let vector ← committed.vector? vectorId
      let item ← (committed.vectorItems vector.dataSegmentId)[vector.ordinalInSegment]?
      return some item.2

/-- The file as it is opened after the bytes changed. -/
def withData (committed : CommittedFile blake3 compress) (damaged : Bytes) : OpenFile :=
  { committed.toOpenFile with data := damaged, mapped := fileLen damaged }

def wire (committed : CommittedFile blake3 compress) (entry : RegisteredSegment) : Bytes :=
  wireOf compress entry.compression (committed.content entry.root.segmentId)

/-- The strings whose checksums the catalog and the registry keep. -/
def Hashed (committed : CommittedFile blake3 compress) (string : Bytes) : Prop :=
  (∃ entry ∈ committed.registry, string = committed.wire entry) ∨
    ∃ frame ∈ committed.frames, ∃ key, frame.uriRef = some key ∧ string = committed.keyOf key

/-- No part of the changed file has the checksum of another string that was committed, and no
committed string has the checksum that stands for none. -/
structure CollisionFree (committed : CommittedFile blake3 compress) (damaged : Bytes) : Prop where
  same : ∀ string, committed.Hashed string → ∀ offset width,
    blake3 (slice damaged offset width) = blake3 string → slice damaged offset width = string
  real : ∀ string, committed.Hashed string → blake3 string ≠ zeroChecksum

end CommittedFile

/-- Where a payload segment has its wire bytes and a header that agrees with the registry but for
another compression code, no frame's range reads as other bytes under that code. -/
def CompressionHarmless {blake3 : Bytes → Checksum} {compress : Bytes → Bytes}
    (decompress : Bytes → Option Bytes) (committed : CommittedFile blake3 compress)
    (damaged : Bytes) : Prop :=
  ∀ frame ∈ committed.frames, committed.frame? frame.frameId = some frame →
    frame.payloadEncoding = .raw → ∀ ref, frame.payloadRef = some ref →
    ∀ entry, committed.segment? ref.segmentId = some entry →
    ∀ header, SegmentHeader.decode (headerAt damaged entry.root) = .ok header →
    header.Agrees entry.root .payload → wireAt damaged entry.root = committed.wire entry →
    header.compression ≠ entry.compression →
    ∀ bytes, rangeUnder decompress header.compression (committed.wire entry) ref = some bytes →
      bytes = committed.payloadOf ref

/-! ### Hashing a segment once -/

/-- Every segment in the set had wire bytes with the registry's checksum. -/
def Checked (blake3 : Bytes → Checksum) (file : OpenFile) (verified : List SegmentId) : Prop :=
  ∀ segmentId ∈ verified, ∀ entry, file.segment? segmentId = some entry →
    blake3 (wireAt file.data entry.root) = entry.root.checksum

section Steps

variable {blake3 : Bytes → Checksum} {decompress : Bytes → Option Bytes} {file : OpenFile}
  {entry : RegisteredSegment} {segmentId : SegmentId}

theorem Checked.add {verified : List SegmentId} (checked : Checked blake3 file verified)
    (found : file.segment? segmentId = some entry)
    (hashes : blake3 (wireAt file.data entry.root) = entry.root.checksum) :
    Checked blake3 file (segmentId :: verified) := by
  intro other inside otherEntry otherFound
  rcases List.mem_cons.mp inside with rfl | earlier
  · obtain rfl := Option.some.inj (found.symm.trans otherFound)
    exact hashes
  · exact checked other earlier otherEntry otherFound

/-- The wire bytes are hashed now, or they were when the segment entered the set. -/
theorem verifyPayloadWireBytes_meets (found : file.segment? segmentId = some entry)
    (real : entry.root.checksum ≠ zeroChecksum) :
    Meets (Checked blake3 file)
      (verifyPayloadWireBytes blake3 segmentId entry.root.checksum (wireAt file.data entry.root))
      (fun _ verified => Checked blake3 file verified ∧
        blake3 (wireAt file.data entry.root) = entry.root.checksum)
      (Checked blake3 file) := by
  unfold verifyPayloadWireBytes
  refine meets_get_bind fun verified checked => ?_
  split
  · next skipped =>
    refine meets_pure () ?_
    rintro _ rfl
    rcases skipped with sentinel | known
    · exact absurd sentinel real
    · exact ⟨checked, checked segmentId known entry found⟩
  · refine meets_bind (m := fun _ state => state = verified ∧
      blake3 (wireAt file.data entry.root) = entry.root.checksum) ?_ fun _ => ?_
    · refine meets_lift (fun _ state hashed same => ⟨same, ?_⟩) ?_
      · exact Outcome.ensure_eq_ok.mp hashed
      · rintro _ rfl
        exact checked
    · refine meets_modify ?_
      rintro _ ⟨rfl, hashes⟩
      exact ⟨checked.add found hashes, hashes⟩

/-! ### Reads through a map of the whole file -/

theorem verifiedSegmentPayload_meets (whole : file.map = file.data) {segmentType : SegmentType}
    (found : file.segment? segmentId = some entry) (real : entry.root.checksum ≠ zeroChecksum) :
    Meets (Checked blake3 file) (verifiedSegmentPayload blake3 file.map entry.root segmentType)
      (fun wire verified => Checked blake3 file verified ∧ wire = wireAt file.data entry.root ∧
        blake3 wire = entry.root.checksum ∧
        ∃ header, SegmentHeader.decode (headerAt file.data entry.root) = .ok header ∧
          header.Agrees entry.root segmentType)
      (Checked blake3 file) := by
  have named := (segment?_registered found).2
  rw [whole]
  unfold verifiedSegmentPayload
  refine meets_lift_bind (fun wire read => ?_) fun _ checked => checked
  obtain ⟨rfl, header⟩ := mmapSegmentPayload_ok read
  rw [named]
  refine meets_bind (verifyPayloadWireBytes_meets found real) fun _ => meets_pure _ ?_
  rintro verified ⟨checked, hashes⟩
  exact ⟨checked, rfl, hashes, header⟩

/-- The answer of a read that takes the wire bytes as they stand. -/
def ServedPlain (blake3 : Bytes → Checksum) (file : OpenFile) (entry : RegisteredSegment)
    (ref : PayloadRef) (bytes : Bytes) : Prop :=
  blake3 (wireAt file.data entry.root) = entry.root.checksum ∧
    sliceRef (wireAt file.data entry.root) ref = .ok bytes

/-- The answer of a read that takes the compression code from the header. -/
def ServedByHeader (blake3 : Bytes → Checksum) (decompress : Bytes → Option Bytes)
    (file : OpenFile) (entry : RegisteredSegment) (ref : PayloadRef) (bytes : Bytes) : Prop :=
  blake3 (wireAt file.data entry.root) = entry.root.checksum ∧
    ∃ header, SegmentHeader.decode (headerAt file.data entry.root) = .ok header ∧
      header.Agrees entry.root .payload ∧
      rangeUnder decompress header.compression (wireAt file.data entry.root) ref = some bytes

theorem readMappedPayload_meets (whole : file.map = file.data) {ref : PayloadRef}
    (found : file.segment? segmentId = some entry) (real : entry.root.checksum ≠ zeroChecksum) :
    Meets (Checked blake3 file) (file.readMappedPayload blake3 entry.root ref)
      (fun bytes verified => Checked blake3 file verified ∧
        ServedPlain blake3 file entry ref bytes)
      (Checked blake3 file) := by
  unfold OpenFile.readMappedPayload
  refine meets_bind (verifiedSegmentPayload_meets whole found real) fun wire => ?_
  refine meets_lift ?_ fun _ met => met.1
  rintro bytes verified sliced ⟨checked, rfl, hashes, -⟩
  exact ⟨checked, hashes, sliced⟩

/-! ### Reads through the file -/

theorem checkPayloadHeader_ok {header : SegmentHeader} {segment : SegmentRef} {ref : PayloadRef}
    {fileLength : Nat} (real : segment.checksum ≠ zeroChecksum) (sized : segment.length ≠ 0)
    (named : segment.segmentId = ref.segmentId)
    (checked : checkPayloadHeader header segment ref fileLength = .ok ()) :
    header.Agrees segment .payload ∧ header.compression ≠ .lz4 ∧
      segment.offset.toNat + segmentHeaderSize + header.payloadLength.toNat ≤ fileLength := by
  simp only [checkPayloadHeader, Outcome.bind_eq_ok, Outcome.ensure_eq_ok] at checked
  obtain ⟨-, segmentId, -, segmentType, -, checksum, -, -, -, length, -, -, -, inside,
    decodable⟩ := checked
  refine ⟨⟨segmentType, segmentId.trans named.symm, ?_, length.resolve_left sized⟩, ?_, inside⟩
  · exact (checksum.resolve_left real).symm
  · intro unread
    rw [unread] at decodable
    cases decodable

theorem readWire_ok {data : Bytes} {header : SegmentHeader} {segment : SegmentRef} {wire : Bytes}
    {segmentType : SegmentType} (agrees : header.Agrees segment segmentType)
    (read : readWire data header segment = .ok wire) : wire = wireAt data segment := by
  obtain ⟨-, -, whole⟩ := readExact_ok.mp read
  rw [whole, agrees.length, wireAt]

theorem readCompressedPayload_meets {header : SegmentHeader} {ref : PayloadRef}
    (found : file.segment? entry.root.segmentId = some entry)
    (real : entry.root.checksum ≠ zeroChecksum) (agrees : header.Agrees entry.root .payload) :
    Meets (Checked blake3 file)
      (readCompressedPayload blake3 decompress file.data header entry.root ref)
      (fun bytes verified => Checked blake3 file verified ∧
        blake3 (wireAt file.data entry.root) = entry.root.checksum ∧
        rangeUnder decompress .zstd (wireAt file.data entry.root) ref = some bytes)
      (Checked blake3 file) := by
  unfold readCompressedPayload
  refine meets_lift_bind (fun stop ranged => ?_) fun _ checked => checked
  refine meets_lift_bind (fun _ inside => ?_) fun _ checked => checked
  refine meets_lift_bind (fun wire read => ?_) fun _ checked => checked
  obtain rfl := readWire_ok agrees read
  rw [agrees.segmentId, agrees.checksum]
  refine meets_bind (verifyPayloadWireBytes_meets found real) fun _ => ?_
  refine meets_lift_bind (fun decompressed decoded => ?_) fun _ met => met.1
  refine meets_pure _ ?_
  rintro verified ⟨checked, hashes⟩
  refine ⟨checked, hashes, ?_⟩
  simp only [refEnd, decodeWhole, decodeAll_ok, Outcome.bind_eq_ok, Outcome.ensure_eq_ok,
    Outcome.pure_eq, Outcome.ok.injEq] at ranged inside decoded
  obtain ⟨-, addressed, rfl⟩ := ranged
  obtain ⟨content, unpacked, -, whole, rfl⟩ := decoded
  have sliced : sliceRef content ref = .ok (slice content ref.bytesOffset ref.bytesLength) :=
    sliceRef_ok.mpr ⟨addressed, by omega, rfl⟩
  exact rangeUnder_zstd.mpr ⟨content, unpacked, sliced⟩

theorem wireAt_length {data : Bytes} {segment : SegmentRef} {width : Nat}
    (behind : headerSize ≤ segment.offset.toNat)
    (sized : width = segment.length.toNat - segmentHeaderSize)
    (inside : segment.offset.toNat + segmentHeaderSize + width ≤ fileLen data) :
    (wireAt data segment).length = width := by
  unfold fileLen at inside
  rw [wireAt, slice_length, sized]
  omega

theorem readPlainPayload_meets {header : SegmentHeader} {ref : PayloadRef}
    (found : file.segment? entry.root.segmentId = some entry)
    (real : entry.root.checksum ≠ zeroChecksum) (agrees : header.Agrees entry.root .payload)
    (behind : headerSize ≤ entry.root.offset.toNat)
    (inside : entry.root.offset.toNat + segmentHeaderSize + header.payloadLength.toNat ≤
      fileLen file.data) :
    Meets (Checked blake3 file) (readPlainPayload blake3 file.data header entry.root ref)
      (fun bytes verified => Checked blake3 file verified ∧
        ServedPlain blake3 file entry ref bytes)
      (Checked blake3 file) := by
  unfold readPlainPayload
  refine meets_lift_bind (fun stop ranged => ?_) fun _ checked => checked
  refine meets_lift_bind (fun _ short => ?_) fun _ checked => checked
  simp only [refEnd, Outcome.bind_eq_ok, Outcome.ensure_eq_ok, Outcome.pure_eq,
    Outcome.ok.injEq] at ranged short
  obtain ⟨-, addressed, ends⟩ := ranged
  rw [← ends] at short
  have sliced : sliceRef (wireAt file.data entry.root) ref =
      .ok (slice (wireAt file.data entry.root) ref.bytesOffset ref.bytesLength) := by
    refine sliceRef_ok.mpr ⟨addressed, ?_, rfl⟩
    rwa [wireAt_length behind agrees.length inside]
  refine meets_get_bind fun verified checked => ?_
  split
  · next known =>
    refine meets_lift ?_ ?_
    · rintro bytes _ read rfl
      obtain ⟨-, -, rfl⟩ := readExact_ok.mp read
      refine ⟨checked, checked _ known entry ?_, ?_⟩
      · rwa [agrees.segmentId]
      · rw [sliced, slice_wireAt behind (by rwa [← agrees.length])]
    · rintro _ rfl
      exact checked
  · unfold readWholePayload
    refine meets_lift_bind (fun wire read => ?_) ?_
    · obtain rfl := readWire_ok agrees read
      rw [agrees.segmentId, agrees.checksum]
      refine meets_bind ((verifyPayloadWireBytes_meets found real).weaken ?_
        (fun _ _ met => met) fun _ kept => kept) fun _ => meets_pure _ ?_
      · rintro _ rfl
        exact checked
      · rintro _ ⟨kept, hashes⟩
        exact ⟨kept, hashes, sliced⟩
    · rintro _ rfl
      exact checked

theorem readPayloadRef_meets {ref : PayloadRef} (found : file.segment? ref.segmentId = some entry)
    (real : entry.root.checksum ≠ zeroChecksum) (sized : entry.root.length ≠ 0) :
    Meets (Checked blake3 file) (readPayloadRef blake3 decompress file.data entry.root ref)
      (fun bytes verified => Checked blake3 file verified ∧
        ServedByHeader blake3 decompress file entry ref bytes)
      (Checked blake3 file) := by
  have named := (segment?_registered found).2
  have foundSelf : file.segment? entry.root.segmentId = some entry := by rw [named, found]
  unfold readPayloadRef
  refine meets_lift_bind (fun headerBytes read => ?_) fun _ checked => checked
  obtain ⟨behind, -, whole⟩ := readExact_ok.mp read
  refine meets_lift_bind (fun header decoded => ?_) fun _ checked => checked
  rw [whole] at decoded
  refine meets_lift_bind (fun _ verified => ?_) fun _ checked => checked
  obtain ⟨agrees, decodable, inside⟩ := checkPayloadHeader_ok real sized named verified
  split
  · next packed =>
    refine (readCompressedPayload_meets foundSelf real agrees).weaken (fun _ met => met) ?_
      fun _ kept => kept
    rintro bytes state ⟨kept, hashes, served⟩
    refine ⟨kept, hashes, header, decoded, agrees, ?_⟩
    rwa [packed]
  · next unpacked =>
    refine (readPlainPayload_meets foundSelf real agrees behind inside).weaken (fun _ met => met) ?_
      fun _ kept => kept
    rintro bytes state ⟨kept, hashes, served⟩
    refine ⟨kept, hashes, header, decoded, agrees, ?_⟩
    have plain : header.compression = .none := by
      cases code : header.compression with
      | none => rfl
      | zstd => exact absurd code unpacked
      | lz4 => exact absurd code decodable
    rw [plain]
    exact rangeUnder_none.mpr served

theorem snapshotReadPayload_meets (whole : file.map = file.data) {ref : PayloadRef}
    (found : file.segment? ref.segmentId = some entry)
    (real : entry.root.checksum ≠ zeroChecksum) :
    Meets (Checked blake3 file)
      (do
        let wire ← verifiedSegmentPayload blake3 file.map entry.root .payload
        lift (file.sliceSnapshot decompress entry.root ref wire))
      (fun bytes verified => Checked blake3 file verified ∧
        ServedByHeader blake3 decompress file entry ref bytes)
      (Checked blake3 file) := by
  have read := @verifiedSegmentPayload_meets blake3 file entry _ whole .payload found real
  refine meets_bind read fun wire => ?_
  generalize answer : file.sliceSnapshot decompress entry.root ref wire = result
  refine meets_lift ?_ fun _ met => met.1
  rintro bytes verified rfl ⟨checked, same, hashes, header, decoded, agrees⟩
  rw [same] at answer hashes
  exact ⟨checked, hashes, header, decoded, agrees, (sliceSnapshot_ok (by rwa [whole])).mp answer⟩

end Steps

/-! ### What a changed file answers -/

section Answers

variable {blake3 : Bytes → Checksum} {compress : Bytes → Bytes} {decompress : Bytes → Option Bytes}
  {committed : CommittedFile blake3 compress} {damaged : Bytes} {entry : RegisteredSegment}
  {segmentId : SegmentId}

theorem CommittedFile.withData_map (committed : CommittedFile blake3 compress) (damaged : Bytes) :
    (committed.withData damaged).map = (committed.withData damaged).data := by
  rw [OpenFile.map, withData, fileLen, Nat.add_sub_cancel_left, List.take_length]

theorem CommittedFile.CollisionFree.wire (collisionFree : committed.CollisionFree damaged)
    {segmentType : SegmentType} (found : committed.segment? segmentId = some entry)
    (holds : entry.Holds blake3 compress committed.data segmentType (committed.content segmentId))
    (hashes : blake3 (wireAt damaged entry.root) = entry.root.checksum) :
    wireAt damaged entry.root = committed.wire entry := by
  obtain ⟨listed, rfl⟩ := segment?_registered found
  rw [holds.hashed] at hashes
  exact collisionFree.same _ (Or.inl ⟨entry, listed, rfl⟩) _ _ hashes

theorem CommittedFile.CollisionFree.real_checksum (collisionFree : committed.CollisionFree damaged)
    {segmentType : SegmentType} (found : committed.segment? segmentId = some entry)
    (holds : entry.Holds blake3 compress committed.data segmentType
      (committed.content segmentId)) : entry.root.checksum ≠ zeroChecksum := by
  obtain ⟨listed, rfl⟩ := segment?_registered found
  rw [holds.hashed]
  exact collisionFree.real _ (Or.inl ⟨entry, listed, rfl⟩)

theorem servedPlain_committed (collisionFree : committed.CollisionFree damaged) {ref : PayloadRef}
    (found : committed.segment? ref.segmentId = some entry)
    (holds : entry.Holds blake3 compress committed.data .payload (committed.content ref.segmentId))
    (plain : entry.compression = .none) {bytes : Bytes}
    (served : ServedPlain blake3 (committed.withData damaged) entry ref bytes) :
    bytes = committed.payloadOf ref := by
  obtain ⟨hashes, sliced⟩ := served
  have intact := collisionFree.wire found holds hashes
  change wireAt (committed.withData damaged).data entry.root = committed.wire entry at intact
  rw [intact, CommittedFile.wire, plain, (segment?_registered found).2] at sliced
  exact (sliceRef_ok.mp sliced).2.2

/-- Read under the registry's code, or under another that is harmless, a range is what was
committed. -/
theorem servedByHeader_committed (roundTrip : ∀ content, decompress (compress content) = some content)
    (collisionFree : committed.CollisionFree damaged)
    (harmless : CompressionHarmless decompress committed damaged) {frame : FrameRefs}
    {frameId : FrameId} (frameFound : committed.frame? frameId = some frame)
    (raw : frame.payloadEncoding = .raw) {ref : PayloadRef} (refers : frame.payloadRef = some ref)
    (found : committed.segment? ref.segmentId = some entry)
    (holds : entry.Holds blake3 compress committed.data .payload (committed.content ref.segmentId))
    {bytes : Bytes}
    (served : ServedByHeader blake3 decompress (committed.withData damaged) entry ref bytes) :
    bytes = committed.payloadOf ref := by
  obtain ⟨hashes, header, decoded, agrees, ranged⟩ := served
  have intact := collisionFree.wire found holds hashes
  change wireAt (committed.withData damaged).data entry.root = committed.wire entry at intact
  rw [intact] at ranged
  by_cases same : header.compression = entry.compression
  · rw [CommittedFile.wire, same, (segment?_registered found).2] at ranged
    rcases holds.compressed with plain | packed
    · rw [plain] at ranged
      exact (sliceRef_ok.mp (rangeUnder_none.mp ranged)).2.2
    · rw [packed] at ranged
      obtain ⟨content, unpacked, sliced⟩ := rangeUnder_zstd.mp ranged
      obtain rfl := Option.some.inj ((roundTrip _).symm.trans unpacked)
      exact (sliceRef_ok.mp sliced).2.2
  · have named : frame.frameId = frameId := by simpa using List.find?_some frameFound
    exact harmless frame (List.mem_of_find?_eq_some frameFound) (by rw [named, frameFound]) raw ref
      refers entry found header decoded agrees intact same bytes ranged

theorem locateVector_ok {file : OpenFile} {vectorId : VectorId} {vector : VectorDesc}
    {segment : SegmentRef} {width : Nat}
    (located : file.locateVector vectorId = .ok (vector, segment, width)) :
    file.vector? vectorId = some vector ∧ vector.status = .active ∧
      ∃ entry, file.segment? vector.dataSegmentId = some entry ∧ entry.root = segment := by
  unfold OpenFile.locateVector at located
  split at located
  · cases located
  · next row found =>
    obtain ⟨_, active, located⟩ := Outcome.bind_eq_ok.mp located
    rw [Outcome.ensure_eq_ok] at active
    split at located
    · cases located
    · split at located
      · cases located
      · split at located
        · cases located
        · next entry registered =>
          split at located
          · cases located
          · obtain ⟨rfl, rfl, -⟩ := by simpa using located
            exact ⟨found, active, entry, registered, rfl⟩

variable (roundTrip : ∀ content, decompress (compress content) = some content)
  (collisionFree : committed.CollisionFree damaged)
  (harmless : CompressionHarmless decompress committed damaged)

theorem RegisteredSegment.Holds.covered {segmentType : SegmentType} {content : Bytes}
    (holds : entry.Holds blake3 compress committed.data segmentType content)
    (sized : damaged.length = committed.data.length) :
    (committed.withData damaged).Covers entry.root := by
  have inside := holds.inside
  unfold fileLen at inside
  rw [OpenFile.Covers, CommittedFile.withData_map, fileLen]
  change _ ≤ headerSize + damaged.length
  rwa [sized]

include roundTrip collisionFree harmless

theorem readPayload_committed (frameId : FrameId) :
    Meets (Checked blake3 (committed.withData damaged))
      ((committed.withData damaged).readPayload blake3 decompress frameId)
      (fun bytes verified => Checked blake3 (committed.withData damaged) verified ∧
        ∃ frame ref, committed.frame? frameId = some frame ∧ frame.payloadRef = some ref ∧
          bytes = committed.payloadOf ref)
      (Checked blake3 (committed.withData damaged)) := by
  unfold OpenFile.readPayload
  refine meets_lift_bind (fun ref named => ?_) fun _ checked => checked
  obtain ⟨frame, frameFound, raw, refers⟩ := payloadRefOf_ok.mp named
  obtain ⟨entry, found, holds, -⟩ :=
    committed.payloads frame (List.mem_of_find?_eq_some frameFound) ref refers
  have real := collisionFree.real_checksum found holds
  change (committed.withData damaged).segment? ref.segmentId = some entry at found
  rw [found]
  dsimp only
  split
  · next plain =>
    refine (readMappedPayload_meets (committed.withData_map damaged) found real).weaken (fun _ met => met) ?_ fun _ kept => kept
    rintro bytes verified ⟨checked, served⟩
    exact ⟨checked, frame, ref, frameFound, refers,
      servedPlain_committed collisionFree found holds plain.1 served⟩
  · refine (readPayloadRef_meets found real holds.length_ne_zero).weaken (fun _ met => met) ?_
      fun _ kept => kept
    rintro bytes verified ⟨checked, served⟩
    exact ⟨checked, frame, ref, frameFound, refers, servedByHeader_committed roundTrip
      collisionFree harmless frameFound raw refers found holds served⟩

theorem snapshotReadPayload_committed (frameId : FrameId) :
    Meets (Checked blake3 (committed.withData damaged))
      ((committed.withData damaged).snapshotReadPayload blake3 decompress frameId)
      (fun bytes verified => Checked blake3 (committed.withData damaged) verified ∧
        ∃ frame ref, committed.frame? frameId = some frame ∧ frame.payloadRef = some ref ∧
          bytes = committed.payloadOf ref)
      (Checked blake3 (committed.withData damaged)) := by
  unfold OpenFile.snapshotReadPayload
  refine meets_lift_bind (fun ref named => ?_) fun _ checked => checked
  obtain ⟨frame, frameFound, raw, refers⟩ := payloadRefOf_ok.mp named
  obtain ⟨entry, found, holds, -⟩ :=
    committed.payloads frame (List.mem_of_find?_eq_some frameFound) ref refers
  have real := collisionFree.real_checksum found holds
  change (committed.withData damaged).segment? ref.segmentId = some entry at found
  rw [found]
  refine (snapshotReadPayload_meets (committed.withData_map damaged) found real).weaken (fun _ met => met) ?_ fun _ kept => kept
  rintro bytes verified ⟨checked, served⟩
  exact ⟨checked, frame, ref, frameFound, refers, servedByHeader_committed roundTrip
    collisionFree harmless frameFound raw refers found holds served⟩

omit roundTrip harmless in
theorem readFrameUri_committed (sized : damaged.length = committed.data.length)
    {frameId : FrameId} {key : Option Bytes}
    (read : (committed.withData damaged).readFrameUri blake3 decompress frameId = .ok key) :
    ∃ frame, committed.frame? frameId = some frame ∧ key = frame.uriRef.map committed.keyOf := by
  obtain ⟨frame, framed, keyed⟩ := Outcome.bind_eq_ok.mp read
  have frameFound : committed.frame? frameId = some frame := by
    have same : (committed.withData damaged).frame? frameId = committed.frame? frameId := rfl
    unfold OpenFile.frameFull at framed
    rw [same] at framed
    split at framed
    · cases framed
    · next found => rw [found, Outcome.ok.inj framed]
  refine ⟨frame, frameFound, ?_⟩
  cases refers : frame.uriRef with
  | none =>
      rw [refers] at keyed
      exact (Outcome.ok.inj keyed).symm
  | some ref =>
      rw [refers] at keyed
      obtain ⟨bytes, metadata, same⟩ := Outcome.bind_eq_ok.mp keyed
      obtain ⟨entry, found, plain, holds, inside, hashed⟩ :=
        committed.keys frame (List.mem_of_find?_eq_some frameFound) ref refers
      have covered := holds.covered sized
      change (committed.withData damaged).segment? ref.ref.segmentId = some entry at found
      rw [OpenFile.readMetadataRef, found] at metadata
      simp only [OpenFile.metadataPayload, if_pos covered, Outcome.bind_eq_ok,
        Outcome.ensure_eq_ok, Outcome.pure_eq, Outcome.ok.injEq] at metadata
      obtain ⟨payload, mapped, -, ranged, -, checked, rfl⟩ := metadata
      rw [CommittedFile.withData_map] at mapped
      obtain ⟨rfl, -⟩ := mmapSegmentPayload_ok mapped
      have fits : ref.ref.bytesOffset + ref.ref.bytesLength ≤
          entry.root.length.toNat - segmentHeaderSize :=
        Nat.le_trans ranged (List.length_take_le _ _)
      rw [wireAt, slice_slice _ _ _ _ _ fits, hashed] at checked
      have right := collisionFree.same (committed.keyOf ref)
        (Or.inr ⟨frame, List.mem_of_find?_eq_some frameFound, ref, refers, rfl⟩) _ _ checked
      rw [wireAt, slice_slice _ _ _ _ _ fits] at same
      rw [← Outcome.ok.inj same, Option.map_some, ← right]
      rfl

omit roundTrip harmless in
theorem readVector_committed (vectorId : VectorId) :
    Meets (Checked blake3 (committed.withData damaged))
      ((committed.withData damaged).readVector blake3 vectorId)
      (fun bytes verified => Checked blake3 (committed.withData damaged) verified ∧
        committed.answer (.vector vectorId) = some (some bytes))
      (Checked blake3 (committed.withData damaged)) := by
  unfold OpenFile.readVector
  refine meets_lift_bind (fun located found => ?_) fun _ checked => checked
  obtain ⟨vector, segment, expected⟩ := located
  obtain ⟨vectorFound, active, entry, registered, rfl⟩ := locateVector_ok found
  have named : vector.vectorId = vectorId := by simpa using List.find?_some vectorFound
  obtain ⟨written, space, codec, width, base, listed, plain, holds, laidOut, few, uniform,
    placed⟩ := committed.stored vector (List.mem_of_find?_eq_some vectorFound) active
  change (committed.withData damaged).segment? vector.dataSegmentId = some written at listed
  obtain rfl := Option.some.inj (registered.symm.trans listed)
  have real := collisionFree.real_checksum listed holds
  refine meets_bind (verifiedSegmentPayload_meets (committed.withData_map damaged) registered real)
    fun wire => ?_
  refine meets_lift ?_ fun _ met => met.1
  rintro bytes verified read ⟨checked, rfl, hashes, -⟩
  refine ⟨checked, ?_⟩
  have intact := collisionFree.wire listed holds hashes
  change wireAt (committed.withData damaged).data entry.root = committed.wire entry at intact
  rw [intact, CommittedFile.wire, plain, (segment?_registered listed).2, wireOf, laidOut] at read
  have same := OpenFile.readBase_written uniform few placed read
  change committed.vector? vectorId = some vector at vectorFound
  simp only [CommittedFile.answer, vectorFound, placed, same, Option.bind_eq_bind,
    Option.bind_some, Option.pure_def]

theorem serve_committed (sized : damaged.length = committed.data.length) (read : Read) :
    Meets (Checked blake3 (committed.withData damaged))
      ((committed.withData damaged).serve blake3 decompress read)
      (fun answer verified => Checked blake3 (committed.withData damaged) verified ∧
        committed.answer read = some answer)
      (Checked blake3 (committed.withData damaged)) := by
  cases read with
  | payload frameId =>
      refine meets_bind (readPayload_committed roundTrip collisionFree harmless frameId) fun _ =>
        meets_pure _ ?_
      rintro verified ⟨checked, frame, ref, found, refers, rfl⟩
      refine ⟨checked, ?_⟩
      simp [CommittedFile.answer, found, refers]
  | snapshotPayload frameId =>
      refine meets_bind (snapshotReadPayload_committed roundTrip collisionFree harmless frameId)
        fun _ => meets_pure _ ?_
      rintro verified ⟨checked, frame, ref, found, refers, rfl⟩
      refine ⟨checked, ?_⟩
      simp [CommittedFile.answer, found, refers]
  | frameUri frameId =>
      refine meets_lift (fun key verified answered checked => ⟨checked, ?_⟩) fun _ kept => kept
      obtain ⟨frame, found, rfl⟩ := readFrameUri_committed collisionFree sized answered
      simp [CommittedFile.answer, found]
  | vector vectorId =>
      refine meets_bind (readVector_committed collisionFree vectorId) fun _ => meets_pure _ ?_
      rintro verified ⟨checked, answered⟩
      exact ⟨checked, answered⟩

theorem serveAll_committed (sized : damaged.length = committed.data.length) (reads : List Read)
    {verified : List SegmentId} (checked : Checked blake3 (committed.withData damaged) verified) :
    ∀ served ∈ (committed.withData damaged).serveAll blake3 decompress reads verified,
      ∀ answer, served.2 = .ok answer → committed.answer served.1 = some answer := by
  induction reads generalizing verified with
  | nil => simp [OpenFile.serveAll]
  | cons read rest ih =>
      have meets := serve_committed roundTrip collisionFree harmless sized read
      have after : Checked blake3 (committed.withData damaged)
          ((committed.withData damaged).serve blake3 decompress read verified).2 :=
        (meets.weaken (fun _ met => met) (fun _ _ met => met.1) fun _ kept => kept).final checked
      intro served inside answer answered
      rcases List.mem_cons.mp inside with rfl | later
      · exact (meets.ok checked (Prod.ext answered rfl)).2
      · exact ih after served later answer answered

end Answers

/-! ### Exactly the damage that is served -/

section Served

variable {blake3 : Bytes → Checksum} {compress : Bytes → Bytes} {decompress : Bytes → Option Bytes}
  {committed : CommittedFile blake3 compress} {damaged : Bytes} {entry : RegisteredSegment}

/-- Whatever the reads and their order, an answer that is not an error is what was committed. -/
def NeverServesDamaged (decompress : Bytes → Option Bytes)
    (committed : CommittedFile blake3 compress) (damaged : Bytes) : Prop :=
  ∀ reads, ∀ served ∈ (committed.withData damaged).serveAll blake3 decompress reads [],
    ∀ answer, served.2 = .ok answer → committed.answer served.1 = some answer

/-- A snapshot that has verified nothing serves the range under the header's own code. -/
theorem snapshot_serves (sized : damaged.length = committed.data.length) {frame : FrameRefs}
    (frameFound : committed.frame? frame.frameId = some frame)
    (raw : frame.payloadEncoding = .raw) {ref : PayloadRef} (refers : frame.payloadRef = some ref)
    (found : committed.segment? ref.segmentId = some entry)
    (holds : entry.Holds blake3 compress committed.data .payload (committed.content ref.segmentId))
    (real : entry.root.checksum ≠ zeroChecksum) {header : SegmentHeader}
    (decoded : SegmentHeader.decode (headerAt damaged entry.root) = .ok header)
    (agrees : header.Agrees entry.root .payload)
    (intact : wireAt damaged entry.root = committed.wire entry) {bytes : Bytes}
    (ranged : rangeUnder decompress header.compression (committed.wire entry) ref = some bytes) :
    ((committed.withData damaged).serve blake3 decompress (.snapshotPayload frame.frameId) []).1 =
      .ok (some bytes) := by
  have named : (committed.withData damaged).payloadRefOf frame.frameId = .ok ref :=
    payloadRefOf_ok.mpr ⟨frame, frameFound, raw, refers⟩
  change (committed.withData damaged).segment? ref.segmentId = some entry at found
  have inside : entry.root.offset.toNat + entry.root.length.toNat ≤ fileLen damaged := by
    have covered := holds.covered sized
    rwa [OpenFile.Covers, CommittedFile.withData_map] at covered
  have mapped := mmapSegmentPayload_serves holds.behindHeader holds.addressed holds.long inside
    decoded agrees
  have hashes : blake3 (wireAt damaged entry.root) = entry.root.checksum := by
    rw [intact, holds.hashed, CommittedFile.wire, (segment?_registered found).2]
  have opened : SegmentHeader.decode (headerAt (committed.withData damaged).map entry.root) =
      .ok header := by
    rw [CommittedFile.withData_map]
    exact decoded
  have sliced : (committed.withData damaged).sliceSnapshot decompress entry.root ref
      (wireAt damaged entry.root) = .ok bytes := by
    rw [intact]
    exact (sliceSnapshot_ok opened).mpr ranged
  have hashed : hashWireBytes blake3 entry.root.segmentId entry.root.checksum
      (wireAt damaged entry.root) [] = (.ok (), [entry.root.segmentId]) := by
    rw [hashWireBytes, Outcome.ensure_true _ hashes, bind_of_ok (lift_apply _ _), modify_apply]
  have verified : verifyPayloadWireBytes blake3 entry.root.segmentId entry.root.checksum
      (wireAt damaged entry.root) [] = (.ok (), [entry.root.segmentId]) := by
    rw [verifyPayloadWireBytes, bind_of_ok (get_apply _), if_neg ?_, hashed]
    rintro (sentinel | known)
    · exact real sentinel
    · exact absurd known List.not_mem_nil
  have served : verifiedSegmentPayload blake3 damaged entry.root .payload [] =
      (.ok (wireAt damaged entry.root), [entry.root.segmentId]) := by
    rw [verifiedSegmentPayload, mapped, bind_of_ok (lift_apply _ _), bind_of_ok verified,
      pure_apply]
  have answered : (committed.withData damaged).snapshotReadPayload blake3 decompress frame.frameId
      [] = (.ok bytes, [entry.root.segmentId]) := by
    rw [OpenFile.snapshotReadPayload, named, bind_of_ok (lift_apply _ _), found]
    change (verifiedSegmentPayload blake3 (committed.withData damaged).map entry.root .payload >>= _)
      [] = _
    rw [CommittedFile.withData_map]
    change (verifiedSegmentPayload blake3 damaged entry.root .payload >>= _) [] = _
    rw [bind_of_ok served, sliced, lift_apply]
  rw [OpenFile.serve, bind_of_ok answered, pure_apply]

theorem neverServesDamaged_iff
    (roundTrip : ∀ content, decompress (compress content) = some content)
    (sized : damaged.length = committed.data.length)
    (collisionFree : committed.CollisionFree damaged) :
    NeverServesDamaged decompress committed damaged ↔
      CompressionHarmless decompress committed damaged := by
  constructor
  · intro never frame listed frameFound raw ref refers entry found header decoded agrees intact _
      bytes ranged
    obtain ⟨written, writtenFound, holds, -⟩ := committed.payloads frame listed ref refers
    obtain rfl := Option.some.inj (found.symm.trans writtenFound)
    have served := snapshot_serves sized frameFound raw refers found holds
      (collisionFree.real_checksum found holds) decoded agrees intact ranged
    have answered := never [.snapshotPayload frame.frameId] _ List.mem_cons_self (some bytes) served
    simp only [CommittedFile.answer, frameFound, refers, Option.bind_eq_bind, Option.bind_some,
      Option.pure_def, Option.some.injEq] at answered
    exact answered.symm
  · intro harmless reads served inside
    exact serveAll_committed roundTrip collisionFree harmless sized reads (fun _ none =>
      absurd none List.not_mem_nil) served inside

end Served

/-! ### A header that hides the compression -/

/-- A hash that is its input, as long as that is short. -/
def shortHash (bytes : Bytes) : Checksum :=
  ⟨if bytes.length < 31 then
      (1 :: UInt8.ofNat bytes.length :: bytes ++ List.replicate (30 - bytes.length) 0).take blake3Len
    else List.replicate blake3Len 2, by
    split
    · simp [blake3Len]
      omega
    · simp⟩

theorem shortHash_injective {string other : Bytes} (short : string.length < 31)
    (same : shortHash other = shortHash string) : other = string := by
  have values := congrArg Subtype.val same
  simp only [shortHash, if_pos short] at values
  split at values
  · next otherShort =>
    rw [List.take_of_length_le (by simp [blake3Len]; omega),
      List.take_of_length_le (by simp [blake3Len]; omega)] at values
    simp only [List.cons_append, List.cons.injEq, true_and] at values
    obtain ⟨lengths, padded⟩ := values
    have sized : other.length = string.length := by
      have numbers := congrArg UInt8.toNat lengths
      simp only [UInt8.toNat_ofNat'] at numbers
      omega
    exact List.append_inj_left padded sized
  · simp [blake3Len, List.replicate_succ] at values

theorem shortHash_ne_zero (string : Bytes) : shortHash string ≠ zeroChecksum := by
  intro same
  have values := congrArg Subtype.val same
  simp only [shortHash, zeroChecksum] at values
  split at values
  · simp [blake3Len, List.replicate_succ] at values
  · simp [blake3Len, List.replicate_succ] at values

-- The magic number of a zstd frame, then the bytes as they are.
def storedFrame (content : Bytes) : Bytes := 0x28 :: 0xB5 :: 0x2F :: 0xFD :: content

def openStoredFrame : Bytes → Option Bytes
  | 0x28 :: 0xB5 :: 0x2F :: 0xFD :: content => some content
  | _ => none

def greeting : Bytes := [104, 105]

def greetingHeader : SegmentHeader :=
  .new shortHash .payload 1 1 .zstd 2 (storedFrame greeting)

def greetingSegment : RegisteredSegment where
  root := ⟨1, 4096, 82, shortHash (storedFrame greeting)⟩
  compression := .zstd

/-- One frame, whose payload is in one compressed segment. -/
def greetingFile : CommittedFile shortHash storedFrame where
  data := greetingHeader.encode ++ storedFrame greeting
  mapped := 4178
  whole := by decide
  registry := [greetingSegment]
  frames := [⟨1, .raw, some ⟨1, 0, 2⟩, none⟩]
  vectors := []
  embeddingSpaces := []
  codecs := []
  content := fun _ => greeting
  vectorItems := fun _ => []
  payloads := by
    intro frame listed ref refers
    obtain rfl := List.mem_singleton.mp listed
    obtain rfl := Option.some.inj refers
    refine ⟨greetingSegment, rfl, ?_, by decide⟩
    exact {
      behindHeader := by decide
      inside := by decide
      addressed := by decide
      contentFits := by decide
      compressed := Or.inr rfl
      length := by decide
      hashed := rfl
      header := ⟨1, by decide⟩
      wire := by decide }
  keys := by
    intro frame listed key refers
    obtain rfl := List.mem_singleton.mp listed
    cases refers
  stored := fun _ none => absurd none List.not_mem_nil

/-- The same bytes under a header that names no compression and its own payload length. -/
def plainHeader : SegmentHeader := .new shortHash .payload 1 1 .none 6 (storedFrame greeting)

def mislabelled : Bytes := plainHeader.encode ++ storedFrame greeting

theorem greetingFile_collisionFree : greetingFile.CollisionFree mislabelled where
  same := by
    intro string hashed offset width same
    refine shortHash_injective ?_ same
    rcases hashed with ⟨entry, listed, rfl⟩ | ⟨frame, listed, key, refers, -⟩
    · obtain rfl := List.mem_singleton.mp listed
      decide
    · obtain rfl := List.mem_singleton.mp listed
      cases refers
  real := fun string _ => shortHash_ne_zero string

theorem mislabelled_neverServesDamaged_iff :
    NeverServesDamaged openStoredFrame greetingFile mislabelled ↔
      CompressionHarmless openStoredFrame greetingFile mislabelled :=
  neverServesDamaged_iff (fun _ => rfl) (by decide) greetingFile_collisionFree

/-- The snapshot answers with the magic number of the compressed frame. -/
theorem mislabelled_serves_wire_bytes :
    ¬NeverServesDamaged openStoredFrame greetingFile mislabelled := by
  intro never
  have answered := never [.snapshotPayload 1] (.snapshotPayload 1, .ok (some [0x28, 0xB5]))
    (by decide +kernel) (some [0x28, 0xB5]) rfl
  revert answered
  decide +kernel

end Valise
