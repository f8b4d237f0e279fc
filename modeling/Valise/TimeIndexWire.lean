import Valise.SegmentColumns

/-!
The bytes of a time index segment: what its encoder accepts, its decoder gives back, row by row.
-/

namespace Valise

open ByteLists Columns Commands Command Cursors Outcomes Wire

namespace TimeIndexCodec

open SegmentCodec

structure TimeIndexSegment where
  collectionId : Option CollectionId
  entries : List TimeIndexEntry
  previousRoot : Option SegmentRef
deriving DecidableEq

def segmentName : String := "TimeIndexSegment"

def magic : Bytes := [0x56, 0x4C, 0x54, 0x49]
def version : UInt16 := 2
def flagName : String := "previous_root presence flag"

/-! ### Encoding -/

/-- A flag, and four bytes whether or not there is a partition. -/
def writePartition : Option CollectionId → Bytes
  | none => [0] ++ [0, 0, 0, 0]
  | some collectionId => [1] ++ writeU32 collectionId

def writeColumns (entries : List TimeIndexEntry) : Result Bytes := do
  let frameIds ← writeIds "TimeIndexSegment frame_ids must be monotone within the same created_at"
    (entries.map fun entry => entry.frameId.toNat)
  let frameBlob ← lengthPrefixed segmentName frameIds
  let created ← writeDates "TimeIndexSegment created_at delta overflow"
    "TimeIndexSegment created_at delta-of-delta overflow" (entries.map (·.createdAt))
  let createdBlob ← lengthPrefixed segmentName created
  let updated ← writeOffsets "TimeIndexSegment updated/created overflow"
    (entries.map fun entry => (entry.createdAt, entry.updatedAt))
  let updatedBlob ← lengthPrefixed segmentName updated
  let collections ← writeRuns writeU32 "TimeIndexSegment RLE run too long"
    "TimeIndexSegment run count overflow" (entries.map (·.collectionId))
  let collectionBlob ← lengthPrefixed segmentName collections
  return frameBlob ++ (createdBlob ++ (updatedBlob ++ collectionBlob))

def encodeSegment (segment : TimeIndexSegment) : Result Bytes := do
  Outcome.ensure ((segment.entries.map fun entry => entry.createdAt.toInt).IsChain (· ≤ ·)) (.format
    "TimeIndexSegment entries must be sorted ascending by created_at")
  Outcome.ensure (segment.entries.length < 2 ^ 32) (.format "TimeIndexSegment entry count overflow")
  let header := magic ++ (writeU16 version ++ (writePartition segment.collectionId ++
    (putLittleEndian 4 segment.entries.length ++ writeOptionalSegmentRef segment.previousRoot)))
  if segment.entries = [] then return header
  else do
    let columns ← writeColumns segment.entries
    return header ++ columns

/-! ### Decoding -/

def readMagic : Reader Unit := do
  let found ← readArray segmentName 4
  lift (Outcome.ensure (found = magic) (.format
    s!"TimeIndexSegment magic mismatch: expected VLTI, got {found}"))

def readVersion : Reader Unit := do
  let found ← readU16 segmentName
  lift (Outcome.ensure (found = version) (.format
    s!"TimeIndexSegment version mismatch: expected {version}, got {found}"))

def readPartition : Reader (Option CollectionId) := do
  let flag ← readU8 segmentName
  if flag = 0 then do
    let _ ← readArray segmentName 4
    return none
  else if flag = 1 then do
    let collectionId ← readU32 segmentName
    return some collectionId
  else lift (.err (.format s!"TimeIndexSegment partition flag must be 0 or 1, got {flag}"))

def trailing (place : String) (left : Nat) : Error :=
  .format s!"TimeIndexSegment: {left} trailing bytes{place}"

def readFrameIds (count : Nat) : Reader (List Nat) := do
  let ids ← readIds segmentName "TimeIndexSegment frame_id delta overflow" count
  atEnd (trailing " in frame_id column")
  return ids

def readCreated (count : Nat) : Reader (List Int64) := do
  let dates ← readDates segmentName "TimeIndexSegment created delta overflow"
    "TimeIndexSegment created value overflow" count
  atEnd (trailing " in created_at column")
  return dates

def readUpdated (created : List Int64) : Reader (List Int64) := do
  let dates ← readOffsets segmentName "TimeIndexSegment updated overflow" created
  atEnd (trailing " in updated_at column")
  return dates

def readCollections (count : Nat) : Reader (List CollectionId) :=
  readRuns (readU32 segmentName) segmentName "TimeIndexSegment collection RLE total overflow"
    (fun total => s!"TimeIndexSegment collection RLE covers {total} entries but count={count}")
    (fun left => s!"TimeIndexSegment: {left} trailing bytes in collection column") count

def assemble (frameIds : List Nat) (created updated : List Int64) (collections : List CollectionId)
    (row : Nat) : TimeIndexEntry where
  frameId := UInt64.ofNat (frameIds.getD row 0)
  collectionId := collections.getD row 0
  createdAt := created.getD row 0
  updatedAt := updated.getD row 0

def readEntries (count : Nat) : Reader (List TimeIndexEntry) := do
  let frameBlob ← readBlob segmentName
  let frameIds ← within frameBlob (readFrameIds count)
  let createdBlob ← readBlob segmentName
  let created ← within createdBlob (readCreated count)
  let updatedBlob ← readBlob segmentName
  let updated ← within updatedBlob (readUpdated created)
  let collectionBlob ← readBlob segmentName
  let collections ← within collectionBlob (readCollections count)
  return (List.range count).map (assemble frameIds created updated collections)

def readSegment : Reader TimeIndexSegment := do
  readMagic
  readVersion
  let collectionId ← readPartition
  let count ← readU32 segmentName
  let previousRoot ← readOptionalSegmentRef segmentName flagName
  if count = 0 then do
    atEnd (trailing " (count=0)")
    return ⟨collectionId, [], previousRoot⟩
  else do
    let entries ← readEntries count.toNat
    atEnd (trailing "")
    return ⟨collectionId, entries, previousRoot⟩

def decodeSegment (bytes : Bytes) : Result TimeIndexSegment := decodeAll readSegment bytes

/-! ### The round trip -/

theorem reads_partition (collectionId : Option CollectionId) :
    Reads readPartition (writePartition collectionId) collectionId := by
  cases collectionId with
  | none =>
      exact (reads_u8 segmentName 0).bind ((reads_takeBytes _ [0, 0, 0, 0]).map fun _ => none)
  | some collectionId =>
      exact (reads_u8 segmentName 1).bind ((reads_u32 segmentName collectionId).map some)

theorem reads_magic : Reads readMagic magic () := by
  rw [← List.append_nil magic]
  exact (reads_takeBytes _ magic).bind (reads_check (Eq.refl _))

theorem reads_version : Reads readVersion (writeU16 version) () := by
  rw [← List.append_nil (writeU16 version)]
  exact (reads_u16 segmentName version).bind (reads_check (Eq.refl _))

theorem assembled (entries : List TimeIndexEntry) :
    (List.range entries.length).map (assemble (entries.map fun entry => entry.frameId.toNat)
      (entries.map (·.createdAt)) (entries.map (·.updatedAt)) (entries.map (·.collectionId))) =
      entries := by
  apply List.ext_getElem
  · simp
  · intro row _ inside
    simp [assemble, List.getElem?_eq_getElem inside]

theorem reads_entries {entries : List TimeIndexEntry} {written : Bytes} (nonempty : entries ≠ [])
    (short : entries.length < 2 ^ 32) (encoded : writeColumns entries = .ok written) :
    Reads (readEntries entries.length) written entries := by
  simp only [writeColumns, Outcome.bind_eq_ok, Outcome.pure_eq, Outcome.ok.injEq] at encoded
  obtain ⟨frameIds, frameIdsEncoded, frameBlob, framePut, created, createdEncoded, createdBlob,
    createdPut, updated, updatedEncoded, updatedBlob, updatedPut, collections, collectionsEncoded,
    collectionBlob, collectionPut, rfl⟩ := encoded
  have fit : ∀ id ∈ entries.map fun entry => entry.frameId.toNat, id < 2 ^ 64 := by
    intro id member
    obtain ⟨entry, _, rfl⟩ := List.mem_map.mp member
    exact entry.frameId.toNat_lt
  have frames := reads_ids segmentName "TimeIndexSegment frame_id delta overflow"
    (by simpa using nonempty) fit frameIdsEncoded
  have dates := reads_dates segmentName "TimeIndexSegment created delta overflow"
    "TimeIndexSegment created value overflow" (by simpa using nonempty) createdEncoded
  have offsets := reads_offsets segmentName "TimeIndexSegment updated overflow" updatedEncoded
  have collectionIds := finishes_runs segmentName
    "TimeIndexSegment collection RLE total overflow"
    (fun total =>
      s!"TimeIndexSegment collection RLE covers {total} entries but count={entries.length}")
    (fun left => s!"TimeIndexSegment: {left} trailing bytes in collection column")
    (reads_u32 segmentName) (by rw [List.length_map]; omega) collectionsEncoded
  rw [List.length_map] at frames dates collectionIds
  rw [List.map_map, List.map_map] at offsets
  have rows := collectionIds.within.map fun found => (List.range entries.length).map (assemble
    (entries.map fun entry => entry.frameId.toNat) (entries.map (·.createdAt))
    (entries.map (·.updatedAt)) found)
  rw [assembled] at rows
  rw [← List.append_nil collectionBlob]
  refine (reads_blob segmentName framePut).bind ((frames.toEnd).within.bind ?_)
  refine (reads_blob segmentName createdPut).bind ((dates.toEnd).within.bind ?_)
  refine (reads_blob segmentName updatedPut).bind ((offsets.toEnd).within.bind ?_)
  exact (reads_blob segmentName collectionPut).bind rows

/-- What the encoder accepts, the decoder gives back. -/
theorem decodeSegment_encode {segment : TimeIndexSegment} {bytes : Bytes}
    (encoded : encodeSegment segment = .ok bytes) : decodeSegment bytes = .ok segment := by
  obtain ⟨collectionId, entries, previousRoot⟩ := segment
  simp only [encodeSegment, Outcome.bind_eq_ok, Outcome.ensure_eq_ok] at encoded
  obtain ⟨_, _, _, short, encoded⟩ := encoded
  obtain ⟨count, counted⟩ := reads_count segmentName short
  have root := reads_optionalSegmentRef segmentName flagName previousRoot
  refine Finishes.decodeAll ?_
  by_cases empty : entries = []
  · subst empty
    obtain rfl := Outcome.ok.inj encoded
    rw [← List.append_nil (writeOptionalSegmentRef previousRoot)]
    refine Finishes.bind reads_magic (Finishes.bind reads_version ?_)
    refine Finishes.bind (reads_partition collectionId) (Finishes.bind counted ?_)
    exact Finishes.bind root (finishes_atEnd (finishes_pure _))
  · rw [if_neg empty] at encoded
    simp only [Outcome.bind_eq_ok, Outcome.pure_eq, Outcome.ok.injEq] at encoded
    obtain ⟨columns, columnsEncoded, rfl⟩ := encoded
    have rows := reads_entries empty short columnsEncoded
    have someRows : UInt32.ofNat entries.length ≠ 0 := by
      intro zero
      rw [zero] at count
      exact empty (List.length_eq_zero_iff.mp count.symm)
    simp only [List.append_assoc]
    refine Finishes.bind reads_magic (Finishes.bind reads_version ?_)
    refine Finishes.bind (reads_partition collectionId) (Finishes.bind counted ?_)
    refine Finishes.bind root ?_
    rw [if_neg someRows, count, ← List.append_nil columns]
    exact Finishes.bind rows (finishes_atEnd (finishes_pure _))

/-! ### The index that a commit stores -/

theorem flatMap_writeUvarint_length (values : List Nat) :
    (values.flatMap writeUvarint).length = (values.map uvarintLen).sum := by
  rw [List.length_flatMap]
  rfl

theorem flatMap_writeIvarint_length (values : List Int) :
    (values.flatMap writeIvarint).length = (values.map ivarintLen).sum := by
  rw [List.length_flatMap]
  rfl

theorem writeRuns_ok {tooLong tooMany : String} {values : List CollectionId}
    (short : values.length < 2 ^ 32) : ∃ bytes,
      writeRuns writeU32 tooLong tooMany values = .ok bytes ∧ bytes.length = runsLen 4 (runs values) := by
  obtain ⟨few, each⟩ := runs_bounded values
  have lengths : (runs values).all fun run => run.2 < 2 ^ 32 := by
    refine List.all_eq_true.mpr fun run listed => ?_
    have := each run listed
    simp only [decide_eq_true_eq]
    omega
  refine ⟨_, by rw [writeRuns, Outcome.ensure_true _ lengths, Outcome.ok_bind,
    Outcome.ensure_true _ (by omega), Outcome.ok_bind, Outcome.pure_eq], ?_⟩
  rw [List.length_append, putLittleEndian_length, List.length_flatMap, runsLen]
  congr 3
  funext run
  rw [List.length_append, writeU32, putLittleEndian_length]
  rfl

theorem lengthPrefixed_ok {segment : String} {blob : Bytes} {length : Nat}
    (counted : blob.length = length) (fits : length < 2 ^ 32) :
    lengthPrefixed segment blob = .ok (putLittleEndian 4 blob.length ++ blob) := by
  rw [lengthPrefixed, writeBlob, Outcome.ensure_true _ (counted ▸ fits), Outcome.ok_bind,
    Outcome.pure_eq]

theorem writeColumns_ok {first : TimeIndexEntry} {later : List TimeIndexEntry}
    (short : (first :: later).length < 2 ^ 32) {frameIdGaps : List Nat}
    (gapped : gaps (Error.format
      "TimeIndexSegment frame_ids must be monotone within the same created_at")
      first.frameId.toNat (later.map fun entry => entry.frameId.toNat) = .ok frameIdGaps)
    (framesFit : 8 + (frameIdGaps.map uvarintLen).sum < 2 ^ 32) {createdChanges : List Int}
    (changed : secondDifferences (Error.format "TimeIndexSegment created_at delta overflow")
      (Error.format "TimeIndexSegment created_at delta-of-delta overflow") first.createdAt.toInt 0
      (later.map fun entry => entry.createdAt.toInt) = .ok createdChanges)
    (createdFits : 8 + (createdChanges.map ivarintLen).sum < 2 ^ 32) {updated : List Int}
    (offsets : updatedOffsets "TimeIndexSegment updated/created overflow"
      ((first :: later).map fun entry => (entry.createdAt, entry.updatedAt)) = .ok updated)
    (updatedFits : (updated.map ivarintLen).sum < 2 ^ 32)
    (runsFit : runsLen 4 (runs ((first :: later).map TimeIndexEntry.collectionId)) < 2 ^ 32) :
    ∃ bytes, writeColumns (first :: later) = .ok bytes := by
  have frames : writeIds "TimeIndexSegment frame_ids must be monotone within the same created_at"
      ((first :: later).map fun entry => entry.frameId.toNat) =
        .ok (putLittleEndian 8 first.frameId.toNat ++ frameIdGaps.flatMap writeUvarint) := by
    rw [List.map_cons, writeIds, gapped, Outcome.ok_bind, Outcome.pure_eq]
  have framesLength : (putLittleEndian 8 first.frameId.toNat ++
      frameIdGaps.flatMap writeUvarint).length = 8 + (frameIdGaps.map uvarintLen).sum := by
    rw [List.length_append, putLittleEndian_length, flatMap_writeUvarint_length]
  have created : writeDates "TimeIndexSegment created_at delta overflow"
      "TimeIndexSegment created_at delta-of-delta overflow" ((first :: later).map (·.createdAt)) =
        .ok (writeI64 first.createdAt ++ createdChanges.flatMap writeIvarint) := by
    have same : (later.map (·.createdAt)).map Int64.toInt =
        later.map fun entry => entry.createdAt.toInt := List.map_map ..
    rw [List.map_cons, writeDates, same, changed, Outcome.ok_bind, Outcome.pure_eq]
  have createdLength : (writeI64 first.createdAt ++ createdChanges.flatMap writeIvarint).length =
      8 + (createdChanges.map ivarintLen).sum := by
    rw [List.length_append, flatMap_writeIvarint_length, writeI64, writeU64,
      putLittleEndian_length]
  have written : writeOffsets "TimeIndexSegment updated/created overflow"
      ((first :: later).map fun entry => (entry.createdAt, entry.updatedAt)) =
        .ok (updated.flatMap writeIvarint) := by
    rw [writeOffsets, offsets, Outcome.ok_bind, Outcome.pure_eq]
  obtain ⟨collections, packed, collectionsLength⟩ :=
    @writeRuns_ok "TimeIndexSegment RLE run too long" "TimeIndexSegment run count overflow"
      ((first :: later).map TimeIndexEntry.collectionId) (by rwa [List.length_map])
  exact ⟨_, by rw [writeColumns, frames, Outcome.ok_bind,
    lengthPrefixed_ok framesLength framesFit, Outcome.ok_bind, created, Outcome.ok_bind,
    lengthPrefixed_ok createdLength createdFits, Outcome.ok_bind, written, Outcome.ok_bind,
    lengthPrefixed_ok (flatMap_writeIvarint_length updated) updatedFits, Outcome.ok_bind, packed,
    Outcome.ok_bind, lengthPrefixed_ok collectionsLength runsFit, Outcome.ok_bind,
    Outcome.pure_eq]⟩

/-- An index that a commit stores has bytes, whatever came before it, and they decode to it. -/
theorem encodeSegment_stored {entries index : List TimeIndexEntry}
    (encoded : encodeTimeIndexSegment entries = .ok index) (previousRoot : Option SegmentRef) :
    ∃ bytes, encodeSegment ⟨none, index, previousRoot⟩ = .ok bytes ∧
      decodeSegment bytes = .ok ⟨none, index, previousRoot⟩ := by
  have written : ∃ bytes, encodeSegment ⟨none, index, previousRoot⟩ = .ok bytes := by
    cases entries with
    | nil =>
        simp only [encodeTimeIndexSegment, Outcome.bind_eq_ok, Outcome.ensure_eq_ok,
          Outcome.pure_eq, Outcome.ok.injEq] at encoded
        obtain ⟨_, sorted, _, short, rfl⟩ := encoded
        exact ⟨_, by rw [encodeSegment, Outcome.ensure_true _ sorted, Outcome.ok_bind,
          Outcome.ensure_true _ short, Outcome.ok_bind, if_pos rfl, Outcome.pure_eq]⟩
    | cons first later =>
        simp only [encodeTimeIndexSegment, Outcome.bind_eq_ok, Outcome.ensure_eq_ok, writeBlob_eq_ok,
          Outcome.pure_eq, Outcome.ok.injEq] at encoded
        obtain ⟨_, sorted, _, short, frameIdGaps, gapped, _, framesFit, createdChanges, changed, _,
          createdFits, updated, offsets, _, updatedFits, _, runsFit, rfl⟩ := encoded
        obtain ⟨columns, columnsWritten⟩ := writeColumns_ok short gapped framesFit changed createdFits
          offsets updatedFits runsFit
        exact ⟨_, by rw [encodeSegment, Outcome.ensure_true _ sorted, Outcome.ok_bind,
          Outcome.ensure_true _ short, Outcome.ok_bind, if_neg (List.cons_ne_nil _ _), columnsWritten,
          Outcome.ok_bind, Outcome.pure_eq]⟩
  obtain ⟨bytes, encoded⟩ := written
  exact ⟨bytes, encoded, decodeSegment_encode encoded⟩

end TimeIndexCodec

end Valise
