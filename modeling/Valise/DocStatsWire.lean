import Valise.SegmentColumns
import Valise.TextState

/-!
The bytes of a document statistics segment: what its encoder accepts, its decoder gives back, row
by row.
-/

namespace Valise

open ByteLists Columns Commands Command Cursors Outcomes Wire

namespace DocStatsCodec

open SegmentCodec

/-- The entry names the text space of its segment. -/
structure DocStatsRecord extends DocStatsEntry where
  textSpaceId : TextSpaceId
deriving DecidableEq

structure DocStatsSegment where
  textSpaceId : TextSpaceId
  previousRoot : Option SegmentRef
  records : List DocStatsRecord
deriving DecidableEq

def segmentName : String := "DocStatsSegment"

def magic : Bytes := [0x56, 0x4C, 0x54, 0x53]
def version : UInt16 := 2

def flagName : String := "previous_root presence flag"

/-! ### Encoding -/

def checkTextSpaces (textSpaceId : TextSpaceId) : List DocStatsRecord → Result Unit
  | [] => return ()
  | entry :: rest => do
      Outcome.ensure (entry.textSpaceId = textSpaceId) (.format
        s!"DocStatsSegment entry text_space_id {entry.textSpaceId} does not match header {textSpaceId}")
      checkTextSpaces textSpaceId rest

def checkFieldCounts (fieldCount : Nat) : List DocStatsRecord → Result Unit
  | [] => return ()
  | entry :: rest => do
      Outcome.ensure (entry.fieldLengths.length = fieldCount) (.format
        s!"DocStatsSegment field_lengths width drift: row {entry.frameId} has {entry.fieldLengths.length} fields, expected {fieldCount} (every row in a segment must share its schema)")
      checkFieldCounts fieldCount rest

/-- One byte, two or four for every row of a column. -/
def widthOf (values : List UInt32) : Nat :=
  if values.all fun value => value.toNat ≤ 0xFF then 1
  else if values.all fun value => value.toNat ≤ 0xFFFF then 2
  else 4

def writeFieldColumn (values : List UInt32) : Bytes :=
  UInt8.ofNat (widthOf values) ::
    values.flatMap fun value => putLittleEndian (widthOf values) value.toNat

def fieldColumn (records : List DocStatsRecord) (field : Nat) : List UInt32 :=
  records.map fun entry => entry.fieldLengths.getD field 0

def writeFieldLengths (records : List DocStatsRecord) (fieldCount : Nat) : Bytes :=
  (List.range fieldCount).flatMap fun field => writeFieldColumn (fieldColumn records field)

def writeColumns (records : List DocStatsRecord) (fieldCount : Nat) : Result Bytes := do
  let frameIds ← writeIds "DocStatsSegment frame_ids must be monotone ascending"
    (records.map fun entry => entry.frameId.toNat)
  let frameBlob ← lengthPrefixed segmentName frameIds
  let collections ← writeRuns writeU32 "DocStatsSegment collection RLE run overflow"
    "DocStatsSegment collection run count overflow" (records.map (·.collectionId))
  let collectionBlob ← lengthPrefixed segmentName collections
  let fieldBlob ← lengthPrefixed segmentName (writeFieldLengths records fieldCount)
  let totalBlob ← lengthPrefixed segmentName
    (records.flatMap fun entry => writeUvarint entry.totalTerms.toNat)
  let uniqueBlob ← lengthPrefixed segmentName
    (records.flatMap fun entry => writeUvarint entry.uniqueTerms.toNat)
  return frameBlob ++ (collectionBlob ++ (fieldBlob ++ (totalBlob ++ uniqueBlob)))

def encodeDocStatsSegment (segment : DocStatsSegment) : Result Bytes := do
  checkTextSpaces segment.textSpaceId segment.records
  let fieldCount := (segment.records.head?.map (·.fieldLengths.length)).getD 0
  checkFieldCounts fieldCount segment.records
  Outcome.ensure (segment.records.length < 2 ^ 32) (.format "DocStatsSegment record count overflow")
  Outcome.ensure (fieldCount < 2 ^ 32) (.format "DocStatsSegment field_count overflow")
  let header := magic ++ (writeU16 version ++ (writeU32 segment.textSpaceId ++
    (putLittleEndian 4 segment.records.length ++ (putLittleEndian 4 fieldCount ++
      writeOptionalSegmentRef segment.previousRoot))))
  if segment.records = [] then return header
  else do
    let columns ← writeColumns segment.records fieldCount
    return header ++ columns

/-! ### Decoding -/

def readMagic : Reader Unit := do
  let found ← readArray segmentName 4
  lift (Outcome.ensure (found = magic) (.format
    s!"DocStatsSegment magic mismatch: expected VLTS, got {found}"))

def readVersion : Reader Unit := do
  let found ← readU16 segmentName
  lift (Outcome.ensure (found = version) (.format
    s!"DocStatsSegment version mismatch: expected {version}, got {found}"))

def trailing (place : String) (left : Nat) : Error :=
  .format s!"DocStatsSegment: {left} trailing bytes{place}"

def readFrameIds (count : Nat) : Reader (List Nat) := do
  let ids ← readIds segmentName "DocStatsSegment frame_id delta overflow" count
  atEnd (trailing " in frame_id column")
  return ids

def readCollections (count : Nat) : Reader (List CollectionId) :=
  readRuns (readU32 segmentName) segmentName "DocStatsSegment collection RLE total overflow"
    (fun total => s!"DocStatsSegment collection RLE covers {total} entries but count={count}")
    (fun left => s!"DocStatsSegment: {left} trailing bytes in collection column") count

def readFieldLength (width : UInt8) : Reader UInt32 :=
  if width = 1 then do
    let value ← readU8 segmentName
    return value.toUInt32
  else if width = 2 then do
    let value ← readU16 segmentName
    return value.toUInt32
  else if width = 4 then readU32 segmentName
  else lift (.err (.format s!"DocStatsSegment field width must be 1, 2, or 4; got {width}"))

def readFieldColumn (count : Nat) : Reader (List UInt32) := do
  let width ← readU8 segmentName
  takeMany (readFieldLength width) count

/-- One column for each field. -/
def readFieldLengths (count fieldCount : Nat) : Reader (List (List UInt32)) := do
  let columns ← takeMany (readFieldColumn count) fieldCount
  atEnd (trailing " in field_lengths column")
  return columns

def readTerms (column : String) (count : Nat) : Reader (List UInt32) := do
  let found ← takeMany (readU32Varint segmentName s!"DocStatsSegment {column} exceeds u32") count
  atEnd fun left => .format s!"DocStatsSegment: {left} trailing bytes in {column} column"
  return found

def assemble (textSpaceId : TextSpaceId) (frameIds : List Nat) (collections : List CollectionId)
    (fieldColumns : List (List UInt32)) (totals uniques : List UInt32) (row : Nat) :
    DocStatsRecord where
  frameId := UInt64.ofNat (frameIds.getD row 0)
  collectionId := collections.getD row 0
  fieldLengths := fieldColumns.map fun column => column.getD row 0
  totalTerms := totals.getD row 0
  uniqueTerms := uniques.getD row 0
  textSpaceId := textSpaceId

def readRecords (textSpaceId : TextSpaceId) (count fieldCount : Nat) :
    Reader (List DocStatsRecord) := do
  let frameBlob ← readBlob segmentName
  let frameIds ← within frameBlob (readFrameIds count)
  let collectionBlob ← readBlob segmentName
  let collections ← within collectionBlob (readCollections count)
  let fieldBlob ← readBlob segmentName
  let fieldColumns ← within fieldBlob (readFieldLengths count fieldCount)
  let totalBlob ← readBlob segmentName
  let totals ← within totalBlob (readTerms "total_terms" count)
  let uniqueBlob ← readBlob segmentName
  let uniques ← within uniqueBlob (readTerms "unique_terms" count)
  return (List.range count).map (assemble textSpaceId frameIds collections fieldColumns totals uniques)

def readSegment : Reader DocStatsSegment := do
  readMagic
  readVersion
  let textSpaceId ← readU32 segmentName
  let count ← readU32 segmentName
  let fieldCount ← readU32 segmentName
  let previousRoot ← readOptionalSegmentRef segmentName flagName
  if count = 0 then do
    atEnd (trailing " (count=0)")
    return ⟨textSpaceId, previousRoot, []⟩
  else do
    let records ← readRecords textSpaceId count.toNat fieldCount.toNat
    atEnd (trailing "")
    return ⟨textSpaceId, previousRoot, records⟩

def decodeDocStatsSegment (bytes : Bytes) : Result DocStatsSegment := decodeAll readSegment bytes

/-! ### The round trip -/

theorem checkTextSpaces_eq_ok {textSpaceId : TextSpaceId} {records : List DocStatsRecord} :
    checkTextSpaces textSpaceId records = .ok () ↔
      ∀ entry ∈ records, entry.textSpaceId = textSpaceId := by
  induction records with
  | nil => simp [checkTextSpaces]
  | cons entry records ih =>
      simp only [checkTextSpaces, Outcome.bind_eq_ok, Outcome.ensure_eq_ok, exists_and_left, ih,
        List.forall_mem_cons]
      constructor
      · rintro ⟨first, _, rest⟩
        exact ⟨first, rest⟩
      · rintro ⟨first, rest⟩
        exact ⟨first, (), rest⟩

theorem checkFieldCounts_eq_ok {fieldCount : Nat} {records : List DocStatsRecord} :
    checkFieldCounts fieldCount records = .ok () ↔
      ∀ entry ∈ records, entry.fieldLengths.length = fieldCount := by
  induction records with
  | nil => simp [checkFieldCounts]
  | cons entry records ih =>
      simp only [checkFieldCounts, Outcome.bind_eq_ok, Outcome.ensure_eq_ok, exists_and_left, ih,
        List.forall_mem_cons]
      constructor
      · rintro ⟨first, _, rest⟩
        exact ⟨first, rest⟩
      · rintro ⟨first, rest⟩
        exact ⟨first, (), rest⟩

theorem reads_narrow (value : UInt32) (small : value.toNat ≤ 0xFF) :
    Reads (readFieldLength 1) (putLittleEndian 1 value.toNat) value := by
  have byte : (UInt8.ofNat value.toNat).toUInt32 = value := by
    apply UInt32.toNat_inj.mp
    simp
    omega
  have written : putLittleEndian 1 value.toNat = [UInt8.ofNat value.toNat] := by
    rw [putLittleEndian, putLittleEndian, Nat.mod_eq_of_lt (by omega)]
  rw [written]
  have read := (reads_u8 segmentName (UInt8.ofNat value.toNat)).map UInt8.toUInt32
  rwa [byte] at read

theorem reads_middle (value : UInt32) (small : value.toNat ≤ 0xFFFF) :
    Reads (readFieldLength 2) (putLittleEndian 2 value.toNat) value := by
  have number : (UInt16.ofNat value.toNat).toUInt32 = value := by
    apply UInt32.toNat_inj.mp
    simp
    omega
  have fits : (UInt16.ofNat value.toNat).toNat = value.toNat := by
    simp
    omega
  have read := (reads_u16 segmentName (UInt16.ofNat value.toNat)).map UInt16.toUInt32
  rwa [number, writeU16, fits] at read

theorem reads_fieldLength {values : List UInt32} {value : UInt32} (member : value ∈ values) :
    Reads (readFieldLength (UInt8.ofNat (widthOf values)))
      (putLittleEndian (widthOf values) value.toNat) value := by
  unfold widthOf
  split
  · rename_i small
    exact reads_narrow value (of_decide_eq_true (List.all_eq_true.mp small value member))
  split
  · rename_i small
    exact reads_middle value (of_decide_eq_true (List.all_eq_true.mp small value member))
  · exact reads_u32 segmentName value

theorem reads_fieldColumn (values : List UInt32) :
    Reads (readFieldColumn values.length) (writeFieldColumn values) values := by
  rw [writeFieldColumn, ← List.singleton_append]
  exact (reads_u8 segmentName _).bind (reads_takeMany fun value member => reads_fieldLength member)

theorem finishes_fieldLengths (records : List DocStatsRecord) (fieldCount : Nat) :
    Finishes (readFieldLengths records.length fieldCount) (writeFieldLengths records fieldCount)
      ((List.range fieldCount).map (fieldColumn records)) := by
  have columns := @reads_takeMany _ _ (readFieldColumn records.length) writeFieldColumn
    ((List.range fieldCount).map (fieldColumn records)) (by
      intro column member
      obtain ⟨field, _, rfl⟩ := List.mem_map.mp member
      have read := reads_fieldColumn (fieldColumn records field)
      rwa [fieldColumn, List.length_map] at read)
  rw [List.length_map, List.length_range, List.flatMap_map] at columns
  exact columns.toEnd

theorem finishes_frameIds {records : List DocStatsRecord} {notMonotone : String} {written : Bytes}
    (nonempty : records ≠ [])
    (encoded : writeIds notMonotone (records.map fun entry => entry.frameId.toNat) = .ok written) :
    Finishes (readFrameIds records.length) written
      (records.map fun entry => entry.frameId.toNat) := by
  have fit : ∀ id ∈ records.map fun entry => entry.frameId.toNat, id < 2 ^ 64 := by
    intro id member
    obtain ⟨entry, _, rfl⟩ := List.mem_map.mp member
    exact entry.frameId.toNat_lt
  have read := reads_ids segmentName "DocStatsSegment frame_id delta overflow"
    (by simpa using nonempty) fit encoded
  rw [List.length_map] at read
  exact read.toEnd

theorem finishes_terms (column : String) (records : List DocStatsRecord)
    (terms : DocStatsRecord → UInt32) :
    Finishes (readTerms column records.length)
      (records.flatMap fun entry => writeUvarint (terms entry).toNat) (records.map terms) := by
  have read := finishes_u32Varints segmentName s!"DocStatsSegment {column} exceeds u32"
    (fun left => s!"DocStatsSegment: {left} trailing bytes in {column} column") (records.map terms)
  rwa [List.length_map, List.flatMap_map] at read

/-- Rows read back column by column are the rows. -/
theorem assembled {records : List DocStatsRecord} {textSpaceId : TextSpaceId} {fieldCount : Nat}
    (spaces : ∀ entry ∈ records, entry.textSpaceId = textSpaceId)
    (fields : ∀ entry ∈ records, entry.fieldLengths.length = fieldCount) :
    (List.range records.length).map (assemble textSpaceId
      (records.map fun entry => entry.frameId.toNat) (records.map (·.collectionId))
      ((List.range fieldCount).map (fieldColumn records)) (records.map (·.totalTerms))
      (records.map (·.uniqueTerms))) = records := by
  apply List.ext_getElem
  · simp
  · intro row _ inside
    have space := spaces records[row] (List.getElem_mem inside)
    have count := fields records[row] (List.getElem_mem inside)
    have lengths : (List.range fieldCount).map (fun field => records[row].fieldLengths.getD field 0) =
        records[row].fieldLengths := by
      apply List.ext_getElem
      · simp [count]
      · intro field _ fieldInside
        simp [List.getElem?_eq_getElem fieldInside]
    simp only [List.getElem_map, List.getElem_range, assemble, fieldColumn, List.map_map,
      Function.comp_def, List.getD_eq_getElem?_getD, List.getElem?_map,
      List.getElem?_eq_getElem inside, Option.map_some, Option.getD_some, UInt64.ofNat_toNat]
    simp only [List.getD_eq_getElem?_getD] at lengths
    rw [lengths, ← space]

theorem reads_records {records : List DocStatsRecord} {textSpaceId : TextSpaceId}
    {fieldCount : Nat} {written : Bytes} (nonempty : records ≠ [])
    (short : records.length < 2 ^ 32)
    (spaces : ∀ entry ∈ records, entry.textSpaceId = textSpaceId)
    (fields : ∀ entry ∈ records, entry.fieldLengths.length = fieldCount)
    (encoded : writeColumns records fieldCount = .ok written) :
    Reads (readRecords textSpaceId records.length fieldCount) written records := by
  simp only [writeColumns, Outcome.bind_eq_ok, Outcome.pure_eq, Outcome.ok.injEq] at encoded
  obtain ⟨frameIds, frameIdsEncoded, frameBlob, framePut, collections, collectionsEncoded,
    collectionBlob, collectionPut, fieldBlob, fieldPut, totalBlob, totalPut, uniqueBlob, uniquePut,
    rfl⟩ := encoded
  have collectionColumn : Finishes (readCollections records.length) collections
      (records.map (·.collectionId)) := by
    have column := finishes_runs segmentName "DocStatsSegment collection RLE total overflow"
      (fun total =>
        s!"DocStatsSegment collection RLE covers {total} entries but count={records.length}")
      (fun left => s!"DocStatsSegment: {left} trailing bytes in collection column")
      (reads_u32 segmentName) (by rw [List.length_map]; omega) collectionsEncoded
    rwa [List.length_map] at column
  have frames := (finishes_frameIds nonempty frameIdsEncoded).within
  have collectionIds := collectionColumn.within
  have fieldLengths := (finishes_fieldLengths records fieldCount).within
  have totals := (finishes_terms "total_terms" records (·.totalTerms)).within
  have uniques := (finishes_terms "unique_terms" records (·.uniqueTerms)).within
  have rows := uniques.map fun found => (List.range records.length).map (assemble textSpaceId
    (records.map fun entry => entry.frameId.toNat) (records.map (·.collectionId))
    ((List.range fieldCount).map (fieldColumn records)) (records.map (·.totalTerms)) found)
  rw [assembled spaces fields] at rows
  rw [← List.append_nil uniqueBlob]
  refine (reads_blob segmentName framePut).bind (frames.bind ?_)
  refine (reads_blob segmentName collectionPut).bind (collectionIds.bind ?_)
  refine (reads_blob segmentName fieldPut).bind (fieldLengths.bind ?_)
  refine (reads_blob segmentName totalPut).bind (totals.bind ?_)
  exact (reads_blob segmentName uniquePut).bind rows

theorem reads_magic : Reads readMagic magic () := by
  rw [← List.append_nil magic]
  exact (reads_takeBytes _ magic).bind (reads_check (Eq.refl _))

theorem reads_version : Reads readVersion (writeU16 version) () := by
  rw [← List.append_nil (writeU16 version)]
  exact (reads_u16 segmentName version).bind (reads_check (Eq.refl _))

/-- What the encoder accepts, the decoder gives back. -/
theorem decodeDocStatsSegment_encode (segment : DocStatsSegment) (bytes : Bytes)
    (encoded : encodeDocStatsSegment segment = .ok bytes) :
    decodeDocStatsSegment bytes = .ok segment := by
  obtain ⟨textSpaceId, previousRoot, records⟩ := segment
  simp only [encodeDocStatsSegment, Outcome.bind_eq_ok, Outcome.ensure_eq_ok] at encoded
  obtain ⟨_, spacesSame, _, fieldsSame, _, short, _, fewFields, encoded⟩ := encoded
  have spaces := checkTextSpaces_eq_ok.mp spacesSame
  have fields := checkFieldCounts_eq_ok.mp fieldsSame
  generalize (records.head?.map (·.fieldLengths.length)).getD 0 = fieldCount
    at fields fewFields encoded
  obtain ⟨count, counted⟩ := reads_count segmentName short
  obtain ⟨width, counts⟩ := reads_count segmentName fewFields
  have root := reads_optionalSegmentRef segmentName flagName previousRoot
  refine Finishes.decodeAll ?_
  by_cases empty : records = []
  · subst empty
    obtain rfl := Outcome.ok.inj encoded
    rw [← List.append_nil (writeOptionalSegmentRef previousRoot)]
    refine Finishes.bind reads_magic (Finishes.bind reads_version ?_)
    refine Finishes.bind (reads_u32 segmentName textSpaceId) (Finishes.bind counted ?_)
    refine Finishes.bind counts (Finishes.bind root ?_)
    exact finishes_atEnd (finishes_pure _)
  · rw [if_neg empty] at encoded
    simp only [Outcome.bind_eq_ok, Outcome.pure_eq, Outcome.ok.injEq] at encoded
    obtain ⟨columns, columnsEncoded, rfl⟩ := encoded
    have rows := reads_records empty short spaces fields columnsEncoded
    have someRows : UInt32.ofNat records.length ≠ 0 := by
      intro zero
      rw [zero] at count
      exact empty (List.length_eq_zero_iff.mp count.symm)
    simp only [List.append_assoc]
    refine Finishes.bind reads_magic (Finishes.bind reads_version ?_)
    refine Finishes.bind (reads_u32 segmentName textSpaceId) (Finishes.bind counted ?_)
    refine Finishes.bind counts (Finishes.bind root ?_)
    rw [if_neg someRows, count, width, ← List.append_nil columns]
    exact Finishes.bind rows (finishes_atEnd (finishes_pure _))

/-- Two rows of two fields, one field in bytes and one in two bytes. -/
def twoDocs : DocStatsSegment :=
  ⟨3, some ⟨7, 4096, 90, ⟨List.replicate 32 5, by decide⟩⟩,
    [⟨⟨1, 4, [9, 300], 309, 120⟩, 3⟩, ⟨⟨130, 6, [2, 5], 7, 7⟩, 3⟩]⟩

theorem twoDocs_decoded : ∃ bytes, encodeDocStatsSegment twoDocs = .ok bytes ∧
    decodeDocStatsSegment bytes = .ok twoDocs := by
  obtain ⟨bytes, encoded⟩ := Outcome.isOk_iff.mp
    (show (encodeDocStatsSegment twoDocs).isOk = true by decide +kernel)
  exact ⟨bytes, encoded, decodeDocStatsSegment_encode twoDocs bytes encoded⟩

end DocStatsCodec

end Valise
