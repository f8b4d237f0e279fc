import Valise.CatalogRows

/-!
The bytes of a catalog delta: the records of one table, each behind a header of its own, and then
the root of the delta before it. The root is found by two routes, with the records and without.
-/

namespace Valise

open ByteLists Outcomes Wire

namespace CatalogCodec

/-- The kinds of tables on the wire: those with rows, and one for the allocator. -/
inductive WireTable where
  | rows (kind : CatalogTableKind)
  | idAllocator
deriving DecidableEq

namespace WireTable

def toWire : WireTable → Nat
  | rows .segment => 0
  | rows .collection => 1
  | rows .frame => 2
  | rows .textSpace => 3
  | rows .analyzer => 4
  | rows .fieldSchema => 5
  | rows .retrievalProfile => 6
  | rows .embeddingSpace => 7
  | rows .codec => 8
  | rows .vector => 9
  | idAllocator => 10
  | rows .fusionProfile => 12

def tryFrom : Nat → Result WireTable
  | 0 => .ok (rows .segment)
  | 1 => .ok (rows .collection)
  | 2 => .ok (rows .frame)
  | 3 => .ok (rows .textSpace)
  | 4 => .ok (rows .analyzer)
  | 5 => .ok (rows .fieldSchema)
  | 6 => .ok (rows .retrievalProfile)
  | 7 => .ok (rows .embeddingSpace)
  | 8 => .ok (rows .codec)
  | 9 => .ok (rows .vector)
  | 10 => .ok idAllocator
  | 12 => .ok (rows .fusionProfile)
  | value => .err (.format s!"unknown catalog table kind: {value}")

def name : WireTable → String
  | rows .segment => "Segment"
  | rows .collection => "Collection"
  | rows .frame => "Frame"
  | rows .textSpace => "TextSpace"
  | rows .analyzer => "Analyzer"
  | rows .fieldSchema => "FieldSchema"
  | rows .retrievalProfile => "RetrievalProfile"
  | rows .embeddingSpace => "EmbeddingSpace"
  | rows .codec => "Codec"
  | rows .vector => "Vector"
  | idAllocator => "IdAllocator"
  | rows .fusionProfile => "FusionProfile"

theorem tryFrom_toWire (table : WireTable) : tryFrom table.toWire = .ok table := by
  cases table with
  | rows kind => cases kind <;> rfl
  | idAllocator => rfl

theorem toWire_lt (table : WireTable) : table.toWire < 2 ^ 16 := by
  cases table with
  | rows kind => cases kind <;> decide
  | idAllocator => decide

end WireTable

-- "VLCC"
def catalogMagic : Bytes := [86, 76, 67, 67]
def catalogRecordVersion : Nat := 1
def catalogHeaderLen : Nat := 12
def catalogRecordHeaderLen : Nat := 8

def readU16 (bytes : Bytes) (offset : Nat) : Result Nat :=
  if offset + 2 ≤ bytes.length then .ok (getLittleEndian (slice bytes offset 2))
  else .err (.format "catalog u16 field truncated")

def readU32 (bytes : Bytes) (offset : Nat) : Result Nat :=
  if offset + 4 ≤ bytes.length then .ok (getLittleEndian (slice bytes offset 4))
  else .err (.format "catalog u32 field truncated")

/-- A start past the end aborts. -/
def sliceFrom (bytes : Bytes) (offset : Nat) : Result Bytes :=
  if offset ≤ bytes.length then .ok (bytes.drop offset) else .panic

/-! ### Encoding -/

section Encoding

variable {R : Type} (record : Codec R) (table : WireTable)

def encodeHeader (payloadLen : Nat) : Bytes :=
  putLittleEndian 2 catalogRecordVersion ++ (putLittleEndian 2 table.toWire ++
    putLittleEndian 4 payloadLen)

def encodeCatalogRecord (value : R) : Result Bytes := do
  let payload := record.encode value
  Outcome.ensure (payload.length < 2 ^ 32) (.format "catalog record too large")
  return encodeHeader table payload.length ++ payload

def encodeEach : List R → Result Bytes
  | [] => return []
  | value :: rest => do
      let first ← encodeCatalogRecord record table value
      let later ← encodeEach rest
      return first ++ later

def encodeCatalogRecords (records : List R) : Result Bytes := do
  Outcome.ensure (records.length < 2 ^ 32) (.format "too many catalog records")
  let encoded ← encodeEach record table records
  return catalogMagic ++ (putLittleEndian 2 table.toWire ++
    (putLittleEndian 2 catalogRecordVersion ++ (putLittleEndian 4 records.length ++ encoded)))

def encodeCatalogDelta (previousRoot : Option SegmentRef) (records : List R) : Result Bytes := do
  let out ← encodeCatalogRecords record table records
  let previous := rootCodec.encode previousRoot
  Outcome.ensure (previous.length < 2 ^ 32) (.format "catalog previous root too large")
  return out ++ (putLittleEndian 4 previous.length ++ previous)

end Encoding

/-! ### Decoding -/

section Decoding

structure Envelope where
  table : WireTable
  payload : Bytes
deriving DecidableEq

def decodeCatalogRecordEnvelope (bytes : Bytes) : Result (Envelope × Nat) := do
  Outcome.ensure (catalogRecordHeaderLen ≤ bytes.length)
    (.format "catalog record header truncated")
  let version ← readU16 bytes 0
  Outcome.ensure (version = catalogRecordVersion)
    (.format s!"unsupported catalog record version: {version}")
  let tag ← readU16 bytes 2
  let table ← WireTable.tryFrom tag
  let payloadLen ← readU32 bytes 4
  let finish := catalogRecordHeaderLen + payloadLen
  Outcome.ensure (finish ≤ bytes.length) (.format "catalog record truncated")
  return (⟨table, slice bytes catalogRecordHeaderLen payloadLen⟩, finish)

variable {R : Type} (record : Codec R) (expectedTable : WireTable)

def decodeCatalogRecord (bytes : Bytes) : Result (R × Nat) := do
  let (envelope, consumed) ← decodeCatalogRecordEnvelope bytes
  Outcome.ensure (envelope.table = expectedTable) (.format
    s!"catalog record table mismatch: expected {expectedTable.name}, got {envelope.table.name}")
  match record.decode envelope.payload with
  | none => .err (.serde "catalog record")
  | some (value, rest) => do
      Outcome.ensure (rest = []) (.format "catalog record has trailing bytes")
      return (value, consumed)

def decodeEach (bytes : Bytes) : Nat → Nat → Result (List R × Nat)
  | 0, offset => return ([], offset)
  | count + 1, offset => do
      let piece ← sliceFrom bytes offset
      let (value, consumed) ← decodeCatalogRecord record expectedTable piece
      let (values, finish) ← decodeEach bytes count (offset + consumed)
      return (value :: values, finish)

def skipEach (bytes : Bytes) : Nat → Nat → Result Nat
  | 0, offset => return offset
  | count + 1, offset => do
      let piece ← sliceFrom bytes offset
      let (_, consumed) ← decodeCatalogRecordEnvelope piece
      skipEach bytes count (offset + consumed)

/-- The checks of the header that both routes make. -/
def checkTable (bytes : Bytes) : Result Unit := do
  Outcome.ensure (catalogHeaderLen ≤ bytes.length) (.format "catalog segment truncated")
  Outcome.ensure (slice bytes 0 4 = catalogMagic) (.format "catalog magic mismatch")
  let tag ← readU16 bytes 4
  let table ← WireTable.tryFrom tag
  Outcome.ensure (table = expectedTable) (.format
    s!"catalog table mismatch: expected {expectedTable.name}, got {table.name}")

def decodeCatalogRecordsPrefix (bytes : Bytes) : Result (List R × Nat) := do
  checkTable expectedTable bytes
  let version ← readU16 bytes 6
  Outcome.ensure (version = catalogRecordVersion)
    (.format s!"unsupported catalog record version: {version}")
  let count ← readU32 bytes 8
  decodeEach record expectedTable bytes count catalogHeaderLen

/-- This route does not look at the version. -/
def catalogRecordsEndOffset (bytes : Bytes) : Result Nat := do
  checkTable expectedTable bytes
  let count ← readU32 bytes 8
  skipEach bytes count catalogHeaderLen

def decodePreviousRootSuffix (bytes : Bytes) (offset : Nat) : Result (Option SegmentRef) :=
  if offset = bytes.length then .ok none
  else do
    let previousLen ← readU32 bytes offset
    let start := offset + 4
    let finish := start + previousLen
    Outcome.ensure (finish ≤ bytes.length) (.format "catalog previous root truncated")
    match rootCodec.decode (slice bytes start previousLen) with
    | none => .err (.serde "catalog previous root")
    | some (previousRoot, rest) => do
        Outcome.ensure (rest = []) (.format "catalog previous root has trailing bytes")
        Outcome.ensure (finish = bytes.length) (.format "catalog segment has trailing bytes")
        return previousRoot

structure CatalogDelta (R : Type) where
  previousRoot : Option SegmentRef
  records : List R

def decodeCatalogDelta (bytes : Bytes) : Result (CatalogDelta R) := do
  let (records, offset) ← decodeCatalogRecordsPrefix record expectedTable bytes
  let previousRoot ← decodePreviousRootSuffix bytes offset
  return ⟨previousRoot, records⟩

def decodeCatalogPreviousRoot (bytes : Bytes) : Result (Option SegmentRef) := do
  let offset ← catalogRecordsEndOffset expectedTable bytes
  decodePreviousRootSuffix bytes offset

end Decoding

/-! ### Reading fields of joined bytes -/

theorem readU16_at {front back : Bytes} {value : Nat} (fits : value < 2 ^ 16) :
    readU16 (front ++ (putLittleEndian 2 value ++ back)) front.length = .ok value := by
  have piece := slice_append_right front (putLittleEndian 2 value ++ back) 0 2
  rw [Nat.add_zero] at piece
  have here : slice (putLittleEndian 2 value ++ back) 0 2 = putLittleEndian 2 value :=
    List.take_left' (putLittleEndian_length 2 value)
  unfold readU16
  rw [if_pos (by simp), piece, here, getLittleEndian_put 2 value (by omega)]

theorem readU32_at {front back : Bytes} {value : Nat} (fits : value < 2 ^ 32) :
    readU32 (front ++ (putLittleEndian 4 value ++ back)) front.length = .ok value := by
  have piece := slice_append_right front (putLittleEndian 4 value ++ back) 0 4
  rw [Nat.add_zero] at piece
  have here : slice (putLittleEndian 4 value ++ back) 0 4 = putLittleEndian 4 value :=
    List.take_left' (putLittleEndian_length 4 value)
  unfold readU32
  rw [if_pos (by simp), piece, here, getLittleEndian_put 4 value (by omega)]

theorem sliceFrom_at (front back : Bytes) : sliceFrom (front ++ back) front.length = .ok back := by
  unfold sliceFrom
  rw [if_pos (by simp), List.drop_left]

/-! ### Reading back -/

section ReadingBack

variable {R : Type} {record : Codec R} {table : WireTable}

theorem encodeHeader_length (payloadLen : Nat) :
    (encodeHeader table payloadLen).length = catalogRecordHeaderLen := by
  simp [encodeHeader, catalogRecordHeaderLen]

theorem envelope_record {payload : Bytes} (small : payload.length < 2 ^ 32) (back : Bytes) :
    decodeCatalogRecordEnvelope (encodeHeader table payload.length ++ payload ++ back) =
      .ok (⟨table, payload⟩, catalogRecordHeaderLen + payload.length) := by
  have enough : catalogRecordHeaderLen + payload.length ≤
      (encodeHeader table payload.length ++ payload ++ back).length := by
    simp only [List.length_append, encodeHeader_length]
    omega
  have version : readU16 (encodeHeader table payload.length ++ payload ++ back) 0 =
      .ok catalogRecordVersion := by
    have read := @readU16_at [] (putLittleEndian 2 table.toWire ++
      putLittleEndian 4 payload.length ++ payload ++ back) catalogRecordVersion (by decide)
    simpa [encodeHeader] using read
  have tag : readU16 (encodeHeader table payload.length ++ payload ++ back) 2 =
      .ok table.toWire := by
    have read := @readU16_at (putLittleEndian 2 catalogRecordVersion)
      (putLittleEndian 4 payload.length ++ payload ++ back) table.toWire table.toWire_lt
    simpa [encodeHeader] using read
  have length : readU32 (encodeHeader table payload.length ++ payload ++ back) 4 =
      .ok payload.length := by
    have read := @readU32_at (putLittleEndian 2 catalogRecordVersion ++
      putLittleEndian 2 table.toWire) (payload ++ back) payload.length small
    simpa [encodeHeader] using read
  have content : slice (encodeHeader table payload.length ++ payload ++ back)
      catalogRecordHeaderLen payload.length = payload := by
    have piece := slice_append_right (encodeHeader table payload.length) (payload ++ back) 0
      payload.length
    rw [encodeHeader_length, Nat.add_zero] at piece
    rw [List.append_assoc, piece]
    exact List.take_left' (Eq.refl _)
  unfold decodeCatalogRecordEnvelope
  rw [Outcome.ensure_true _ (Nat.le_trans (Nat.le_add_right _ _) enough), Outcome.ok_bind, version,
    Outcome.ok_bind, Outcome.ensure_true _ (Eq.refl _), Outcome.ok_bind, tag, Outcome.ok_bind,
    WireTable.tryFrom_toWire, Outcome.ok_bind, length, Outcome.ok_bind]
  dsimp only
  rw [Outcome.ensure_true _ enough, Outcome.ok_bind, content]
  rfl

theorem encodeCatalogRecord_eq_ok {value : R} {bytes : Bytes} :
    encodeCatalogRecord record table value = .ok bytes ↔ (record.encode value).length < 2 ^ 32 ∧
      bytes = encodeHeader table (record.encode value).length ++ record.encode value := by
  simp only [encodeCatalogRecord, Outcome.bind_eq_ok, Outcome.ensure_eq_ok, Outcome.pure_eq,
    Outcome.ok.injEq, exists_and_left, exists_const]
  exact and_congr_right fun _ => eq_comm

theorem decodeCatalogRecord_encode {value : R} {bytes : Bytes}
    (encoded : encodeCatalogRecord record table value = .ok bytes) (back : Bytes) :
    decodeCatalogRecord record table (bytes ++ back) = .ok (value, bytes.length) := by
  obtain ⟨small, rfl⟩ := encodeCatalogRecord_eq_ok.mp encoded
  have decoded := record.decode_encode value []
  rw [List.append_nil] at decoded
  unfold decodeCatalogRecord
  rw [envelope_record small, Outcome.ok_bind]
  dsimp only
  rw [Outcome.ensure_true _ (Eq.refl _), Outcome.ok_bind, decoded, List.length_append,
    encodeHeader_length]
  rfl

theorem decodeEach_encode {records : List R} {encoded : Bytes}
    (done : encodeEach record table records = .ok encoded) (front back : Bytes) :
    decodeEach record table (front ++ (encoded ++ back)) records.length front.length =
      .ok (records, front.length + encoded.length) := by
  induction records generalizing front encoded with
  | nil =>
      obtain rfl : [] = encoded := Outcome.ok.inj done
      rfl
  | cons value rest ih =>
      simp only [encodeEach, Outcome.bind_eq_ok, Outcome.pure_eq, Outcome.ok.injEq] at done
      obtain ⟨first, firstDone, later, laterDone, rfl⟩ := done
      have next := ih laterDone (front ++ first)
      rw [List.length_append, List.append_assoc] at next
      rw [List.length_cons, decodeEach, sliceFrom_at, Outcome.ok_bind, List.append_assoc,
        decodeCatalogRecord_encode firstDone, Outcome.ok_bind]
      dsimp only
      rw [next, Outcome.ok_bind, List.length_append, Nat.add_assoc]
      rfl

/-- A record that is decoded is one that is skipped, and it is as long. -/
theorem envelope_of_record {bytes : Bytes} {value : R} {consumed : Nat}
    (decoded : decodeCatalogRecord record table bytes = .ok (value, consumed)) :
    ∃ envelope, decodeCatalogRecordEnvelope bytes = .ok (envelope, consumed) := by
  obtain ⟨⟨envelope, length⟩, found, rest⟩ := Outcome.bind_eq_ok.mp decoded
  obtain ⟨_, _, rest⟩ := Outcome.bind_eq_ok.mp rest
  refine ⟨envelope, ?_⟩
  split at rest
  · exact nomatch rest
  · obtain ⟨_, _, same⟩ := Outcome.bind_eq_ok.mp rest
    obtain rfl := (Prod.mk.inj (Outcome.ok.inj same)).2
    exact found

theorem skipEach_of_decodeEach {bytes : Bytes} {count offset finish : Nat} {records : List R}
    (decoded : decodeEach record table bytes count offset = .ok (records, finish)) :
    skipEach bytes count offset = .ok finish := by
  induction count generalizing offset records with
  | zero =>
      obtain ⟨_, rfl⟩ := Prod.mk.inj (Outcome.ok.inj decoded)
      rfl
  | succ count ih =>
      simp only [decodeEach, Outcome.bind_eq_ok, Outcome.pure_eq, Outcome.ok.injEq,
        Prod.mk.injEq] at decoded
      obtain ⟨piece, sliced, ⟨value, consumed⟩, first, ⟨values, last⟩, rest, -, rfl⟩ := decoded
      obtain ⟨envelope, found⟩ := envelope_of_record first
      rw [skipEach, sliced, Outcome.ok_bind, found, Outcome.ok_bind]
      exact ih rest

theorem endOffset_of_leading {bytes : Bytes} {records : List R} {offset : Nat}
    (decoded : decodeCatalogRecordsPrefix record table bytes = .ok (records, offset)) :
    catalogRecordsEndOffset table bytes = .ok offset := by
  simp only [decodeCatalogRecordsPrefix, Outcome.bind_eq_ok] at decoded
  obtain ⟨_, checked, version, _, _, _, count, counted, each⟩ := decoded
  unfold catalogRecordsEndOffset
  rw [checked, Outcome.ok_bind, counted, Outcome.ok_bind]
  exact skipEach_of_decodeEach each

/-- The two routes find one root where the records are decoded too. -/
theorem previousRoot_of_delta {bytes : Bytes} {delta : CatalogDelta R}
    (decoded : decodeCatalogDelta record table bytes = .ok delta) :
    decodeCatalogPreviousRoot table bytes = .ok delta.previousRoot := by
  obtain ⟨⟨records, offset⟩, found, rest⟩ := Outcome.bind_eq_ok.mp decoded
  obtain ⟨previousRoot, suffix, same⟩ := Outcome.bind_eq_ok.mp rest
  obtain rfl := Outcome.ok.inj same
  unfold decodeCatalogPreviousRoot
  rw [endOffset_of_leading found, Outcome.ok_bind]
  exact suffix

theorem checkTable_encoded (rest : Bytes) (long : 6 ≤ rest.length) :
    checkTable table (catalogMagic ++ (putLittleEndian 2 table.toWire ++ rest)) = .ok () := by
  have enough : catalogHeaderLen ≤
      (catalogMagic ++ (putLittleEndian 2 table.toWire ++ rest)).length := by
    simp only [List.length_append, putLittleEndian_length, catalogMagic, catalogHeaderLen,
      List.length_cons, List.length_nil]
    omega
  unfold checkTable
  rw [Outcome.ensure_true _ enough, Outcome.ok_bind, Outcome.ensure_true _ (by rfl),
    Outcome.ok_bind]
  rw [show (4 : Nat) = catalogMagic.length by rfl, readU16_at table.toWire_lt, Outcome.ok_bind,
    WireTable.tryFrom_toWire, Outcome.ok_bind, Outcome.ensure_true _ (Eq.refl _)]

theorem decodePrefix_encode {records : List R} {encoded : Bytes}
    (done : encodeEach record table records = .ok encoded) (few : records.length < 2 ^ 32)
    (back : Bytes) : decodeCatalogRecordsPrefix record table (catalogMagic ++
      (putLittleEndian 2 table.toWire ++ (putLittleEndian 2 catalogRecordVersion ++
        (putLittleEndian 4 records.length ++ (encoded ++ back))))) =
          .ok (records, catalogHeaderLen + encoded.length) := by
  have version := @readU16_at (catalogMagic ++ putLittleEndian 2 table.toWire)
    (putLittleEndian 4 records.length ++ (encoded ++ back)) catalogRecordVersion (by decide)
  have count := @readU32_at (catalogMagic ++ putLittleEndian 2 table.toWire ++
    putLittleEndian 2 catalogRecordVersion) (encoded ++ back) records.length few
  have each := decodeEach_encode done (catalogMagic ++ putLittleEndian 2 table.toWire ++
    putLittleEndian 2 catalogRecordVersion ++ putLittleEndian 4 records.length) back
  have lengths : catalogMagic.length = 4 := rfl
  simp only [List.append_assoc, List.length_append, putLittleEndian_length, lengths,
    Nat.reduceAdd] at version count each
  have long : 6 ≤ (putLittleEndian 2 catalogRecordVersion ++
      (putLittleEndian 4 records.length ++ (encoded ++ back))).length := by
    simp only [List.length_append, putLittleEndian_length]
    omega
  unfold decodeCatalogRecordsPrefix
  rw [checkTable_encoded _ long, Outcome.ok_bind, version, Outcome.ok_bind,
    Outcome.ensure_true _ (Eq.refl _), Outcome.ok_bind, count, Outcome.ok_bind]
  exact each

theorem rootCodec_short (previousRoot : Option SegmentRef) :
    (rootCodec.encode previousRoot).length < 2 ^ 32 := by
  have varint (value : Nat) : (encodeVarint value).length ≤ 9 := by
    unfold encodeVarint
    split
    · simp
    split
    · simp
    split
    · simp
    · simp
  cases previousRoot with
  | none => decide
  | some root =>
      have id := varint root.segmentId.toNat
      have offset := varint root.offset.toNat
      have length := varint root.length.toNat
      have digest := root.checksum.2
      change (1 :: (encodeVarint root.segmentId.toNat ++ (encodeVarint root.offset.toNat ++
        (encodeVarint root.length.toNat ++ root.checksum.1)))).length < _
      simp only [List.length_cons, List.length_append, digest, blake3Len]
      omega

theorem decodeSuffix_encode (front : Bytes) (previousRoot : Option SegmentRef) :
    decodePreviousRootSuffix (front ++ (putLittleEndian 4 (rootCodec.encode previousRoot).length ++
      rootCodec.encode previousRoot)) front.length = .ok previousRoot := by
  have length := @readU32_at front (rootCodec.encode previousRoot) _ (rootCodec_short previousRoot)
  have decoded := rootCodec.decode_encode previousRoot []
  rw [List.append_nil] at decoded
  have content := slice_append_right (front ++ putLittleEndian 4 (rootCodec.encode previousRoot).length)
    (rootCodec.encode previousRoot) 0 (rootCodec.encode previousRoot).length
  have whole : slice (rootCodec.encode previousRoot) 0 (rootCodec.encode previousRoot).length =
      rootCodec.encode previousRoot := List.take_length
  rw [whole, List.length_append, putLittleEndian_length, Nat.add_zero, List.append_assoc] at content
  have size : front.length + 4 + (rootCodec.encode previousRoot).length =
      (front ++ (putLittleEndian 4 (rootCodec.encode previousRoot).length ++
        rootCodec.encode previousRoot)).length := by
    simp only [List.length_append, putLittleEndian_length]
    omega
  unfold decodePreviousRootSuffix
  rw [if_neg (by rw [← size]; omega), length, Outcome.ok_bind]
  dsimp only
  rw [Outcome.ensure_true _ (Nat.le_of_eq size), Outcome.ok_bind, content, decoded]
  dsimp only
  rw [Outcome.ensure_true _ (Eq.refl _), Outcome.ok_bind, Outcome.ensure_true _ size]
  rfl

theorem encodeEach_isOk {records : List R} :
    (∃ encoded, encodeEach record table records = .ok encoded) ↔
      ∀ value ∈ records, (record.encode value).length < 2 ^ 32 := by
  induction records with
  | nil => exact iff_of_true ⟨[], rfl⟩ nofun
  | cons value rest ih =>
      simp only [encodeEach, Outcome.bind_eq_ok, Outcome.pure_eq, Outcome.ok.injEq,
        encodeCatalogRecord_eq_ok, List.forall_mem_cons, ← ih]
      constructor
      · rintro ⟨_, _, ⟨small, _⟩, later, laterDone, _⟩
        exact ⟨small, later, laterDone⟩
      · rintro ⟨small, later, laterDone⟩
        exact ⟨_, _, ⟨small, Eq.refl _⟩, later, laterDone, Eq.refl _⟩

theorem encodeCatalogDelta_eq_ok {previousRoot : Option SegmentRef} {records : List R}
    {bytes : Bytes} : encodeCatalogDelta record table previousRoot records = .ok bytes ↔
      records.length < 2 ^ 32 ∧ ∃ encoded, encodeEach record table records = .ok encoded ∧
        bytes = catalogMagic ++ (putLittleEndian 2 table.toWire ++
          (putLittleEndian 2 catalogRecordVersion ++ (putLittleEndian 4 records.length ++
            (encoded ++ (putLittleEndian 4 (rootCodec.encode previousRoot).length ++
              rootCodec.encode previousRoot))))) := by
  simp only [encodeCatalogDelta, encodeCatalogRecords, Outcome.bind_eq_ok, Outcome.ensure_eq_ok,
    Outcome.pure_eq, Outcome.ok.injEq, exists_and_left, exists_const]
  constructor
  · rintro ⟨_, ⟨few, encoded, done, rfl⟩, _, rfl⟩
    exact ⟨few, encoded, done, by simp only [List.append_assoc]⟩
  · rintro ⟨few, encoded, done, rfl⟩
    exact ⟨_, ⟨few, encoded, done, Eq.refl _⟩, rootCodec_short previousRoot, by
      simp only [List.append_assoc]⟩

end ReadingBack

/-- A list of records is encoded where its count and its records fit, its bytes give back the
records and the root by both routes, and wherever the records are decoded the two routes agree. -/
theorem catalogDelta_exact {R : Type} (record : Codec R) (table : WireTable) :
    (∀ previousRoot records,
      (∃ bytes, encodeCatalogDelta record table previousRoot records = .ok bytes) ↔
        records.length < 2 ^ 32 ∧ ∀ value ∈ records, (record.encode value).length < 2 ^ 32) ∧
      (∀ previousRoot records bytes,
        encodeCatalogDelta record table previousRoot records = .ok bytes →
          decodeCatalogDelta record table bytes = .ok ⟨previousRoot, records⟩ ∧
            decodeCatalogPreviousRoot table bytes = .ok previousRoot) ∧
      ∀ bytes delta, decodeCatalogDelta record table bytes = .ok delta →
        decodeCatalogPreviousRoot table bytes = .ok delta.previousRoot := by
  refine ⟨fun previousRoot records => ?_, fun previousRoot records bytes encoded => ?_,
    fun bytes delta => previousRoot_of_delta⟩
  · simp only [encodeCatalogDelta_eq_ok, exists_and_left, ← @encodeEach_isOk R record table]
    refine and_congr_right fun _ => ?_
    constructor
    · rintro ⟨_, encoded, done, _⟩
      exact ⟨encoded, done⟩
    · rintro ⟨encoded, done⟩
      exact ⟨_, encoded, done, Eq.refl _⟩
  · obtain ⟨few, body, done, rfl⟩ := encodeCatalogDelta_eq_ok.mp encoded
    have decoded : decodeCatalogDelta record table (catalogMagic ++
        (putLittleEndian 2 table.toWire ++ (putLittleEndian 2 catalogRecordVersion ++
          (putLittleEndian 4 records.length ++ (body ++
            (putLittleEndian 4 (rootCodec.encode previousRoot).length ++
              rootCodec.encode previousRoot)))))) = .ok ⟨previousRoot, records⟩ := by
      have suffix := decodeSuffix_encode (catalogMagic ++ putLittleEndian 2 table.toWire ++
        putLittleEndian 2 catalogRecordVersion ++ putLittleEndian 4 records.length ++ body)
          previousRoot
      have lengths : catalogMagic.length = 4 := rfl
      simp only [List.append_assoc, List.length_append, putLittleEndian_length, lengths] at suffix
      have place : 4 + (2 + (2 + (4 + body.length))) = catalogHeaderLen + body.length := by
        unfold catalogHeaderLen
        omega
      rw [place] at suffix
      unfold decodeCatalogDelta
      rw [decodePrefix_encode done few, Outcome.ok_bind]
      dsimp only
      rw [suffix]
      rfl
    exact ⟨decoded, previousRoot_of_delta decoded⟩

end CatalogCodec

end Valise
