import Valise.SegmentColumns

/-!
The bytes of a frame catalog segment: its columns, the order in which they are written and read, and
the aborts and the room that a decoder of arbitrary bytes can run into.
-/

namespace Valise

open ByteLists Columns Commands Command Cursors Outcomes Wire

namespace FrameCatalogCodec

open SegmentCodec

/-! ### Rows as they are stored -/

structure MetadataRef where
  segmentId : SegmentId
  bytesOffset : UInt64
  bytesLength : UInt64
  checksum : Checksum
deriving DecidableEq

structure PayloadRef where
  segmentId : SegmentId
  bytesOffset : UInt64
  bytesLength : UInt64
deriving DecidableEq

structure FrameDesc where
  frameId : FrameId
  collectionId : CollectionId
  role : FrameRole
  createdAt : Int64
  updatedAt : Int64
  uriRef : Option MetadataRef
  titleRef : Option MetadataRef
  payloadRef : Option PayloadRef
  payloadEncoding : PayloadEncoding
  searchTextRef : Option MetadataRef
  parentFrameId : Option FrameId
  chunkIndex : Option UInt32
  chunkCount : Option UInt32
  metadataRef : Option MetadataRef
  status : FrameStatus
deriving DecidableEq

structure FrameCatalogDelta where
  previousRoot : Option SegmentRef
  frames : List FrameDesc
deriving DecidableEq

def segmentName : String := "FrameCatalog"

def magic : Bytes := [0x56, 0x4C, 0x46, 0x32]
def version : UInt16 := 2

def roleDisc : FrameRole → UInt8
  | .document => 0
  | .chunk => 1
  | .tombstone => 2

def roleFromDisc (disc : UInt8) : Result FrameRole :=
  if disc = 0 then return .document
  else if disc = 1 then return .chunk
  else if disc = 2 then return .tombstone
  else .err (.format s!"FrameCatalog unknown role disc {disc}")

def statusDisc : FrameStatus → UInt8
  | .active => 0
  | .tombstoned => 1

def statusFromDisc (disc : UInt8) : Result FrameStatus :=
  if disc = 0 then return .active
  else if disc = 1 then return .tombstoned
  else .err (.format s!"FrameCatalog unknown status disc {disc}")

def payloadEncodingDisc : PayloadEncoding → UInt8
  | .raw => 0
  | .zstd => 1
  | .lz4 => 2

def payloadEncodingFromDisc (disc : UInt8) : Result PayloadEncoding :=
  if disc = 0 then return .raw
  else if disc = 1 then return .zstd
  else if disc = 2 then return .lz4
  else .err (.format s!"FrameCatalog unknown payload_encoding disc {disc}")

/-! ### Encoding -/

/-- The flag and a padding byte stand there with and without a reference. -/
def writePreviousRoot : Option SegmentRef → Bytes
  | some ref => [1] ++ ([0] ++ writeSegmentRef ref)
  | none => [0] ++ [0]

def encodeRle {α : Type} [DecidableEq α] (width : String) (put : α → Bytes) (values : List α) :
    Result Bytes :=
  writeRuns put s!"FrameCatalog RLE {width} run too long"
    s!"FrameCatalog RLE {width} run count overflow" values

def encodeRleU8 (values : List UInt8) : Result Bytes := encodeRle "u8" (fun value => [value]) values

def encodeRleU32 (values : List UInt32) : Result Bytes := encodeRle "u32" writeU32 values

def encodePresence (rows : List Nat) : Result Bytes := do
  Outcome.ensure (rows.length < 2 ^ 32) (.format "FrameCatalog presence count overflow")
  let deltas ← gaps (Error.format "FrameCatalog presence indices must be ascending") 0 rows
  return putLittleEndian 4 rows.length ++ deltas.flatMap writeUvarint

/-- The rows that have a value, and a blob of the values. -/
def encodeSparse {α : Type} (put : List α → Result Bytes) (values : List (Option α)) :
    Result Bytes := do
  let present := Columns.listed 0 values
  let presence ← encodePresence (present.map Prod.fst)
  let presenceBlob ← lengthPrefixed segmentName presence
  let column ← put (present.map Prod.snd)
  let valuesBlob ← lengthPrefixed segmentName column
  return presenceBlob ++ valuesBlob

def writeLaterPayloads : PayloadRef → List PayloadRef → Result Bytes
  | _, [] => return []
  | prev, ref :: refs => do
      let segment ← checked ((ref.segmentId.toNat : Int) - prev.segmentId.toNat)
        (Error.format "FrameCatalog segment_id delta out of i64 range")
      let offset ← checked ((ref.bytesOffset.toNat : Int) - prev.bytesOffset.toNat)
        (Error.format "FrameCatalog bytes_offset delta out of i64 range")
      let later ← writeLaterPayloads ref refs
      return writeIvarint segment ++ (writeIvarint offset ++
        (writeUvarint ref.bytesLength.toNat ++ later))

/-- The first reference as it is, each later one as its distance from the one before. -/
def writePayloads : List PayloadRef → Result Bytes
  | [] => return []
  | ref :: refs => do
      let later ← writeLaterPayloads ref refs
      return writeU64 ref.segmentId ++ (writeUvarint ref.bytesOffset.toNat ++
        (writeUvarint ref.bytesLength.toNat ++ later))

def writeMetadata (ref : MetadataRef) : Bytes :=
  writeU64 ref.segmentId ++ (writeUvarint ref.bytesOffset.toNat ++
    (writeUvarint ref.bytesLength.toNat ++ ref.checksum.1))

def encodeOptionalMetadataColumn (refs : List (Option MetadataRef)) : Result Bytes :=
  encodeSparse (fun present => return present.flatMap writeMetadata) refs

def encodeOptionalU64Column (values : List (Option UInt64)) : Result Bytes :=
  encodeSparse (fun present => return present.flatMap fun value => writeUvarint value.toNat) values

def encodeOptionalU32Column (values : List (Option UInt32)) : Result Bytes :=
  encodeSparse (fun present => return present.flatMap fun value => writeUvarint value.toNat) values

def encodeColumns (frames : List FrameDesc) : Result Bytes := do
  let frameIds ← writeIds
    "FrameCatalog frame_ids must be monotone ascending in v2 columnar layout"
    (frames.map fun frame => frame.frameId.toNat)
  let frameBlob ← lengthPrefixed segmentName frameIds
  let collections ← encodeRleU32 (frames.map (·.collectionId))
  let collectionBlob ← lengthPrefixed segmentName collections
  let roles ← encodeRleU8 (frames.map fun frame => roleDisc frame.role)
  let roleBlob ← lengthPrefixed segmentName roles
  let statuses ← encodeRleU8 (frames.map fun frame => statusDisc frame.status)
  let statusBlob ← lengthPrefixed segmentName statuses
  let encodings ← encodeRleU8 (frames.map fun frame => payloadEncodingDisc frame.payloadEncoding)
  let encodingBlob ← lengthPrefixed segmentName encodings
  let created ← writeDates "FrameCatalog created_at delta overflow"
    "FrameCatalog created_at delta-of-delta overflow" (frames.map (·.createdAt))
  let createdBlob ← lengthPrefixed segmentName created
  let updated ← writeOffsets "FrameCatalog updated_at offset overflow"
    (frames.map fun frame => (frame.createdAt, frame.updatedAt))
  let updatedBlob ← lengthPrefixed segmentName updated
  let payloads ← encodeSparse writePayloads (frames.map (·.payloadRef))
  let uris ← encodeOptionalMetadataColumn (frames.map (·.uriRef))
  let titles ← encodeOptionalMetadataColumn (frames.map (·.titleRef))
  let searchTexts ← encodeOptionalMetadataColumn (frames.map (·.searchTextRef))
  let metadata ← encodeOptionalMetadataColumn (frames.map (·.metadataRef))
  let parents ← encodeOptionalU64Column (frames.map (·.parentFrameId))
  let chunkIndices ← encodeOptionalU32Column (frames.map (·.chunkIndex))
  let chunkCounts ← encodeOptionalU32Column (frames.map (·.chunkCount))
  return frameBlob ++ (collectionBlob ++ (roleBlob ++ (statusBlob ++ (encodingBlob ++
    (createdBlob ++ (updatedBlob ++ (payloads ++ (uris ++ (titles ++ (searchTexts ++
      (metadata ++ (parents ++ (chunkIndices ++ chunkCounts)))))))))))))

def encodeFrameCatalog (delta : FrameCatalogDelta) : Result Bytes := do
  Outcome.ensure (delta.frames.length < 2 ^ 32) (.format "FrameCatalog frame count overflow")
  let header := magic ++ (writeU16 version ++ (putLittleEndian 4 delta.frames.length ++
    writePreviousRoot delta.previousRoot))
  if delta.frames = [] then return header
  else do
    let columns ← encodeColumns delta.frames
    return header ++ columns

/-! ### Decoding -/

def readMagic : Reader Unit := do
  let found ← readArray segmentName 4
  lift (Outcome.ensure (found = magic) (.format
    s!"FrameCatalog magic mismatch: expected VLF2, got {found}"))

def readVersion : Reader Unit := do
  let found ← readU16 segmentName
  lift (Outcome.ensure (found = version) (.format
    s!"FrameCatalog version mismatch: expected {version}, got {found}"))

def readPreviousRoot : Reader (Option SegmentRef) := do
  let flag ← readU8 segmentName
  let _ ← readU8 segmentName
  if flag = 0 then return none
  else if flag = 1 then do
    let ref ← readSegmentRef segmentName
    return some ref
  else lift (.err (.format s!"FrameCatalog previous_root flag must be 0 or 1, got {flag}"))

/-- A step over the items, stopped by the first that fails. -/
def collect {α β : Type} (step : α → Result β) : List α → Result (List β)
  | [] => return []
  | item :: items => do
      let value ← step item
      let values ← collect step items
      return value :: values

def readFrameIds (count : Nat) : Reader (List Nat) := do
  let first ← readU64 segmentName
  reserve count
  let later ← readLaterIds segmentName "FrameCatalog frame_id delta overflow" (count - 1)
    first.toNat
  return first.toNat :: later

section Rle

variable {α : Type} (value : Reader α)

/-- The length of one run, behind its value. -/
def readRunLength : Reader Nat := do
  let _ ← value
  readUvarint segmentName

/-- The sum is not checked. A release build would wrap it around. -/
def addTotal (total length : Nat) : Result Nat :=
  if total + length < 2 ^ 64 then return total + length else .panic

/-- The rows of a run are pushed before the total is compared with the expected count. -/
def readRleRuns : Nat → Nat → Reader (Nat × List α)
  | 0, total => return (total, [])
  | count + 1, total => do
      let found ← value
      let length ← readUvarint segmentName
      let total ← lift (addTotal total length)
      reserve total
      let rest ← readRleRuns count total
      return (rest.1, List.replicate length found ++ rest.2)

def decodeRle (width : String) (expected : Nat) : Reader (List α) := do
  let runCount ← readU32 segmentName
  reserve expected
  let rest ← readRleRuns value runCount.toNat 0
  lift (Outcome.ensure (rest.1 = expected) (.format
    s!"FrameCatalog RLE {width} covers {rest.1} rows but count={expected}"))
  atEnd fun left => .format s!"FrameCatalog RLE {width} trailing: {left} bytes"
  return rest.2

end Rle

def decodeRleU8 (expected : Nat) : Reader (List UInt8) :=
  decodeRle (readU8 segmentName) "u8" expected

def decodeRleU32 (expected : Nat) : Reader (List UInt32) :=
  decodeRle (readU32 segmentName) "u32" expected

def readCreated (count : Nat) : Reader (List Int64) := do
  let first ← readI64 segmentName
  reserve count
  let later ← readLaterDates segmentName "FrameCatalog created delta overflow"
    "FrameCatalog created value overflow" (count - 1) first.toInt 0
  return first :: later

def readUpdated (count : Nat) (created : List Int64) : Reader (List Int64) := do
  reserve count
  readOffsets segmentName "FrameCatalog updated_at overflow" created

def readPresentRows : Nat → Nat → Reader (List Nat)
  | 0, _ => return []
  | count + 1, prev => do
      let delta ← readUvarint segmentName
      lift (Outcome.ensure (delta < 2 ^ 32) (.format "FrameCatalog presence index overflow"))
      lift (Outcome.ensure (prev + delta < 2 ^ 32) (.format "FrameCatalog presence index overflow"))
      let later ← readPresentRows count (prev + delta)
      return (prev + delta) :: later

def decodePresence : Reader (List Nat) := do
  let count ← readU32 segmentName
  reserve count.toNat
  let rows ← readPresentRows count.toNat 0
  atEnd fun left => .format s!"FrameCatalog presence trailing: {left} bytes"
  return rows

/-- Store a value at a row that was compared with the count. -/
def storeChecked {α : Type} (column : String) (values : List (Option α)) (row : Nat) (value : α) :
    Result (List (Option α)) := do
  Outcome.ensure (row < values.length) (.format
    s!"FrameCatalog {column} presence index {row} out of bounds (count={values.length})")
  return values.set row (some value)

/-- Store a value at a row that was not compared with anything. -/
def storeIndexed {α : Type} (values : List (Option α)) (row : Nat) (value : α) :
    Result (List (Option α)) :=
  if row < values.length then return values.set row (some value) else .panic

section Sparse

variable {α : Type} (value : Reader α)
  (store : List (Option α) → Nat → α → Result (List (Option α)))

def storeRow (values : List (Option α)) (row : Nat) : Reader (List (Option α)) := do
  let found ← value
  lift (store values row found)

def readValues (trailing : String) (count : Nat) (rows : List Nat) :
    Reader (List (Option α)) := do
  reserve count
  let values ← foldEach rows (List.replicate count none) (storeRow value store)
  atEnd fun left => .format s!"FrameCatalog {trailing} values trailing: {left} bytes"
  return values

def decodeSparse (trailing : String) (count : Nat) : Reader (List (Option α)) := do
  let presenceBlob ← readBlob segmentName
  let rows ← within presenceBlob decodePresence
  let valuesBlob ← readBlob segmentName
  within valuesBlob (readValues value store trailing count rows)

end Sparse

def readMetadata : Reader MetadataRef := do
  let segmentId ← readU64 segmentName
  let bytesOffset ← readUvarint segmentName
  let bytesLength ← readUvarint segmentName
  let checksum ← readChecksum segmentName
  return ⟨segmentId, UInt64.ofNat bytesOffset, UInt64.ofNat bytesLength, checksum⟩

def decodeOptionalMetadataColumn (count : Nat) : Reader (List (Option MetadataRef)) :=
  decodeSparse readMetadata (storeChecked "metadata") "metadata" count

def readOptionalU64 : Reader UInt64 := do
  let value ← readUvarint segmentName
  return UInt64.ofNat value

def decodeOptionalU64Column (count : Nat) : Reader (List (Option UInt64)) :=
  decodeSparse readOptionalU64 storeIndexed "optional u64" count

def decodeOptionalU32Column (count : Nat) : Reader (List (Option UInt32)) :=
  decodeSparse (readU32Varint segmentName "FrameCatalog optional u32 overflow") storeIndexed
    "optional u32" count

/-- A signed sum as an unsigned word, cut to 64 bits. -/
def asU64 (value : Int) : UInt64 := UInt64.ofNat (value % 2 ^ 64).toNat

def readPayload : Option PayloadRef → Reader PayloadRef
  | none => do
      let segmentId ← readU64 segmentName
      let bytesOffset ← readUvarint segmentName
      let bytesLength ← readUvarint segmentName
      return ⟨segmentId, UInt64.ofNat bytesOffset, UInt64.ofNat bytesLength⟩
  | some prev => do
      let segment ← readIvarint segmentName
      let offset ← readIvarint segmentName
      let bytesLength ← readUvarint segmentName
      return ⟨asU64 (prev.segmentId.toNat + segment), asU64 (prev.bytesOffset.toNat + offset),
        UInt64.ofNat bytesLength⟩

def readPayloads : Option PayloadRef → List Nat → List (Option PayloadRef) →
    Reader (List (Option PayloadRef))
  | _, [], values => return values
  | prev, row :: rows, values => do
      let ref ← readPayload prev
      let values ← lift (storeChecked "payload_ref" values row ref)
      readPayloads (some ref) rows values

/-- What is left of the blob is not looked at. -/
def decodePayloads (count : Nat) : Reader (List (Option PayloadRef)) := do
  let presenceBlob ← readBlob segmentName
  let rows ← within presenceBlob decodePresence
  let payloadBlob ← readBlob segmentName
  within payloadBlob do
    reserve count
    readPayloads none rows (List.replicate count none)

structure DecodedColumns where
  frameIds : List FrameId
  collectionIds : List CollectionId
  roles : List FrameRole
  createdAt : List Int64
  updatedAt : List Int64
  uriRefs : List (Option MetadataRef)
  titleRefs : List (Option MetadataRef)
  payloadRefs : List (Option PayloadRef)
  payloadEncodings : List PayloadEncoding
  searchTextRefs : List (Option MetadataRef)
  parentFrameIds : List (Option FrameId)
  chunkIndices : List (Option UInt32)
  chunkCounts : List (Option UInt32)
  metadataRefs : List (Option MetadataRef)
  statuses : List FrameStatus

def readLaterColumns (count : Nat) (frameIds : List Nat) : Reader DecodedColumns := do
  let collectionBlob ← readBlob segmentName
  let collectionIds ← within collectionBlob (decodeRleU32 count)
  let roleBlob ← readBlob segmentName
  let roleDiscs ← within roleBlob (decodeRleU8 count)
  let roles ← lift (collect roleFromDisc roleDiscs)
  let statusBlob ← readBlob segmentName
  let statusDiscs ← within statusBlob (decodeRleU8 count)
  let statuses ← lift (collect statusFromDisc statusDiscs)
  let encodingBlob ← readBlob segmentName
  let encodingDiscs ← within encodingBlob (decodeRleU8 count)
  let payloadEncodings ← lift (collect payloadEncodingFromDisc encodingDiscs)
  let createdBlob ← readBlob segmentName
  let createdAt ← within createdBlob (readCreated count)
  let updatedBlob ← readBlob segmentName
  let updatedAt ← within updatedBlob (readUpdated count createdAt)
  let payloadRefs ← decodePayloads count
  let uriRefs ← decodeOptionalMetadataColumn count
  let titleRefs ← decodeOptionalMetadataColumn count
  let searchTextRefs ← decodeOptionalMetadataColumn count
  let metadataRefs ← decodeOptionalMetadataColumn count
  let parentFrameIds ← decodeOptionalU64Column count
  let chunkIndices ← decodeOptionalU32Column count
  let chunkCounts ← decodeOptionalU32Column count
  return { frameIds := frameIds.map UInt64.ofNat
           collectionIds, roles, createdAt, updatedAt, uriRefs, titleRefs, payloadRefs
           payloadEncodings, searchTextRefs, parentFrameIds, chunkIndices, chunkCounts
           metadataRefs, statuses }

def readColumns (count : Nat) : Reader DecodedColumns := do
  let frameBlob ← readBlob segmentName
  let frameIds ← within frameBlob (readFrameIds count)
  readLaterColumns count frameIds

/-- Indexing past the end aborts. -/
def indexed {α : Type} (column : List α) (row : Nat) : Result α :=
  match column[row]? with
  | some value => return value
  | none => .panic

def DecodedColumns.frame (columns : DecodedColumns) (row : Nat) : Result FrameDesc := do
  let frameId ← indexed columns.frameIds row
  let collectionId ← indexed columns.collectionIds row
  let role ← indexed columns.roles row
  let createdAt ← indexed columns.createdAt row
  let updatedAt ← indexed columns.updatedAt row
  let uriRef ← indexed columns.uriRefs row
  let titleRef ← indexed columns.titleRefs row
  let payloadRef ← indexed columns.payloadRefs row
  let payloadEncoding ← indexed columns.payloadEncodings row
  let searchTextRef ← indexed columns.searchTextRefs row
  let parentFrameId ← indexed columns.parentFrameIds row
  let chunkIndex ← indexed columns.chunkIndices row
  let chunkCount ← indexed columns.chunkCounts row
  let metadataRef ← indexed columns.metadataRefs row
  let status ← indexed columns.statuses row
  return { frameId, collectionId, role, createdAt, updatedAt, uriRef, titleRef, payloadRef
           payloadEncoding, searchTextRef, parentFrameId, chunkIndex, chunkCount, metadataRef
           status }

def readFrames (count : Nat) : Reader (List FrameDesc) := do
  let columns ← readColumns count
  lift (collect columns.frame (List.range count))

def readHeader : Reader (Nat × Option SegmentRef) := do
  readMagic
  readVersion
  let count ← readU32 segmentName
  let previousRoot ← readPreviousRoot
  return (count.toNat, previousRoot)

/-- What follows a catalog without rows is not looked at. -/
def readDelta : Reader FrameCatalogDelta := do
  let header ← readHeader
  if header.1 = 0 then return ⟨header.2, []⟩
  else do
    let frames ← readFrames header.1
    return ⟨header.2, frames⟩

def decodeFrameCatalog (bytes : Bytes) : Result FrameCatalogDelta := decodeAll readDelta bytes

def decodeFrameCatalogPreviousRoot (bytes : Bytes) : Result (Option SegmentRef) :=
  decodeAll (do let header ← readHeader; return header.2) bytes

/-! ### The round trip -/

theorem roleFromDisc_disc (role : FrameRole) : roleFromDisc (roleDisc role) = .ok role := by
  cases role <;> rfl

theorem statusFromDisc_disc (status : FrameStatus) :
    statusFromDisc (statusDisc status) = .ok status := by
  cases status <;> rfl

theorem payloadEncodingFromDisc_disc (encoding : PayloadEncoding) :
    payloadEncodingFromDisc (payloadEncodingDisc encoding) = .ok encoding := by
  cases encoding <;> rfl

theorem collect_map {α β : Type} {step : α → Result β} {put : β → α}
    (back : ∀ value, step (put value) = .ok value) (values : List β) :
    collect step (values.map put) = .ok values := by
  induction values with
  | nil => rfl
  | cons value values ih =>
      rw [List.map_cons, collect, back, ih]
      rfl

theorem collect_range {β : Type} {step : Nat → Result β} {first : Nat} {values : List β}
    (each : ∀ index (inside : index < values.length), step (first + index) = .ok values[index]) :
    collect step (List.range' first values.length) = .ok values := by
  induction values generalizing first with
  | nil => rfl
  | cons value values ih =>
      have here : step first = .ok value := each 0 (Nat.succ_pos _)
      have later := @ih (first + 1) fun index inside => by
        have next := each (index + 1) (Nat.succ_lt_succ inside)
        have shifted : first + 1 + index = first + (index + 1) := by omega
        rw [shifted]
        exact next
      rw [List.length_cons, List.range'_succ, collect, here, later]
      rfl

theorem reads_magic : Reads readMagic magic () := by
  rw [← List.append_nil magic]
  exact (reads_takeBytes _ magic).bind (reads_check (Eq.refl _))

theorem reads_version : Reads readVersion (writeU16 version) () := by
  rw [← List.append_nil (writeU16 version)]
  exact (reads_u16 segmentName version).bind (reads_check (Eq.refl _))

theorem reads_previousRoot (ref : Option SegmentRef) :
    Reads readPreviousRoot (writePreviousRoot ref) ref := by
  cases ref with
  | none => exact (reads_u8 segmentName 0).bind ((reads_u8 segmentName 0).bind (reads_pure none))
  | some ref =>
      have body := (reads_segmentRef segmentName ref).map some
      exact (reads_u8 segmentName 1).bind ((reads_u8 segmentName 0).bind body)

theorem reads_header {count : Nat} (few : count < 2 ^ 32) (previousRoot : Option SegmentRef) :
    Reads readHeader (magic ++ (writeU16 version ++ (putLittleEndian 4 count ++
      writePreviousRoot previousRoot))) (count, previousRoot) := by
  obtain ⟨same, counted⟩ := reads_count segmentName few
  have root := (reads_previousRoot previousRoot).map fun found => (count, found)
  refine reads_magic.bind (reads_version.bind (counted.bind ?_))
  rw [same]
  exact root

section Rle

variable {α : Type} {put : α → Bytes} {value : Reader α}

theorem reads_rleRuns (each : ∀ item, Reads value (put item) item) {packed : List (α × Nat)}
    {total : Nat} (fits : total + (expand packed).length < 2 ^ 64) :
    Reads (readRleRuns value packed.length total)
      (packed.flatMap fun run => put run.1 ++ writeUvarint run.2)
      (total + (expand packed).length, expand packed) := by
  induction packed generalizing total with
  | nil => exact reads_pure (total, [])
  | cons run rest ih =>
      rw [expand_cons, List.length_append, List.length_replicate] at fits ⊢
      have later := @ih (total + run.2) (by omega)
      have added : addTotal total run.2 = .ok (total + run.2) := if_pos (by omega)
      have mapped := later.map fun found : Nat × List α =>
        (found.1, List.replicate run.2 run.1 ++ found.2)
      rw [List.flatMap_cons, List.length_cons, readRleRuns, List.append_assoc]
      refine (each run.1).bind ((reads_uvarint segmentName (by omega)).bind (Reads.lift added ?_))
      rw [← Nat.add_assoc]
      exact mapped.reserve

theorem finishes_rle [DecidableEq α] (each : ∀ item, Reads value (put item) item) {width : String}
    {values : List α} {written : Bytes} (short : values.length < 2 ^ 64)
    (encoded : encodeRle width put values = .ok written) :
    Finishes (decodeRle value width values.length) written values := by
  simp only [encodeRle, writeRuns, Outcome.bind_eq_ok, Outcome.ensure_eq_ok, Outcome.pure_eq,
    Outcome.ok.injEq] at encoded
  obtain ⟨_, _, _, few, rfl⟩ := encoded
  obtain ⟨count, number⟩ := reads_count segmentName few
  have found := @reads_rleRuns α put value each (runs values) 0 (by simpa using short)
  rw [expand_runs, Nat.zero_add] at found
  refine Finishes.bind number (Finishes.reserve ?_)
  rw [count, ← List.append_nil (List.flatMap _ _)]
  exact Finishes.bind found (Finishes.ensure (Eq.refl _) (finishes_atEnd (finishes_pure values)))

end Rle

theorem finishes_frameIds {ids : List Nat} {notMonotone : String} {written : Bytes}
    (nonempty : ids ≠ []) (fit : ∀ id ∈ ids, id < 2 ^ 64)
    (encoded : writeIds notMonotone ids = .ok written) :
    Finishes (readFrameIds ids.length) written ids := by
  cases ids with
  | nil => contradiction
  | cons first later =>
      simp only [writeIds, Outcome.bind_eq_ok, Outcome.pure_eq, Outcome.ok.injEq] at encoded
      obtain ⟨deltas, deltasEncoded, rfl⟩ := encoded
      have bound : first < 2 ^ 64 := fit first List.mem_cons_self
      have same : (UInt64.ofNat first).toNat = first := by
        simpa using bound
      have raw := reads_u64 segmentName (UInt64.ofNat first)
      rw [writeU64, same] at raw
      have rest := reads_laterIds segmentName "FrameCatalog frame_id delta overflow"
        (fun other member => fit other (List.mem_cons_of_mem _ member)) deltasEncoded
      refine Finishes.bind raw (Finishes.reserve ?_)
      rw [same, List.length_cons, Nat.add_sub_cancel]
      exact (rest.map (first :: ·)).finishes

theorem finishes_created {dates : List Int64} {stepOverflow changeOverflow : String}
    {written : Bytes} (nonempty : dates ≠ [])
    (encoded : writeDates stepOverflow changeOverflow dates = .ok written) :
    Finishes (readCreated dates.length) written dates := by
  cases dates with
  | nil => contradiction
  | cons first later =>
      simp only [writeDates, Outcome.bind_eq_ok, Outcome.pure_eq, Outcome.ok.injEq] at encoded
      obtain ⟨packed, packedEncoded, rfl⟩ := encoded
      have rest := reads_laterDates segmentName "FrameCatalog created delta overflow"
        "FrameCatalog created value overflow" packedEncoded
      refine Finishes.bind (reads_i64 segmentName first) (Finishes.reserve ?_)
      rw [List.length_cons, Nat.add_sub_cancel]
      exact (rest.map (first :: ·)).finishes

theorem finishes_updated {rows : List (Int64 × Int64)} {writeOverflow : String} {written : Bytes}
    (count : Nat) (encoded : writeOffsets writeOverflow rows = .ok written) :
    Finishes (readUpdated count (rows.map Prod.fst)) written (rows.map Prod.snd) :=
  Finishes.reserve (reads_offsets segmentName "FrameCatalog updated_at overflow" encoded).finishes

theorem reads_presentRows {rows deltas : List Nat} {prev : Nat} {error : Error}
    (fit : ∀ row ∈ rows, row < 2 ^ 32) (encoded : gaps error prev rows = .ok deltas) :
    Reads (readPresentRows rows.length prev) (deltas.flatMap writeUvarint) rows := by
  induction rows generalizing prev deltas with
  | nil =>
      obtain rfl := Outcome.ok.inj encoded
      exact reads_pure []
  | cons row rows ih =>
      simp only [gaps, Outcome.bind_eq_ok, Outcome.ensure_eq_ok, Outcome.pure_eq,
        Outcome.ok.injEq] at encoded
      obtain ⟨_, after, rest, restEncoded, rfl⟩ := encoded
      have bound : row < 2 ^ 32 := fit row List.mem_cons_self
      have here : prev + (row - prev) = row := by omega
      have later := ih (fun other member => fit other (List.mem_cons_of_mem _ member)) restEncoded
      rw [List.flatMap_cons, List.length_cons, readPresentRows]
      refine (reads_uvarint segmentName (by omega)).bind (Reads.ensure (by omega) ?_)
      rw [here]
      exact Reads.ensure bound (later.map (row :: ·))

theorem finishes_presence {rows : List Nat} {written : Bytes} (fit : ∀ row ∈ rows, row < 2 ^ 32)
    (encoded : encodePresence rows = .ok written) : Finishes decodePresence written rows := by
  simp only [encodePresence, Outcome.bind_eq_ok, Outcome.ensure_eq_ok, Outcome.pure_eq,
    Outcome.ok.injEq] at encoded
  obtain ⟨_, few, deltas, deltasEncoded, rfl⟩ := encoded
  obtain ⟨count, number⟩ := reads_count segmentName few
  refine Finishes.bind number (Finishes.reserve ?_)
  rw [count]
  exact (reads_presentRows fit deltasEncoded).toEnd

section Sparse

variable {α : Type}

/-- The rows that were stored, one after the other, into what is there. -/
def storeAll (values : List (Option α)) (present : List (Nat × α)) : List (Option α) :=
  present.foldl (fun values entry => values.set entry.1 (some entry.2)) values

theorem storeAll_shift (value : Option α) (values : List (Option α)) (row : Nat)
    (present : List (Option α)) :
    storeAll (value :: values) (Columns.listed (row + 1) present) =
      value :: storeAll values (Columns.listed row present) := by
  induction present generalizing row values with
  | nil => rfl
  | cons entry present ih =>
      cases entry with
      | none => exact ih values (row + 1)
      | some found => exact ih (values.set row (some found)) (row + 1)

/-- Stored into empty rows, what was listed is there again. -/
theorem storeAll_listed (values : List (Option α)) :
    storeAll (List.replicate values.length none) (Columns.listed 0 values) = values := by
  induction values with
  | nil => rfl
  | cons value values ih =>
      have shifted := storeAll_shift value (List.replicate values.length none) 0 values
      rw [ih] at shifted
      cases value with
      | none => exact shifted
      | some found => exact shifted

/-- A store that takes every row inside. -/
def Stores (store : List (Option α) → Nat → α → Result (List (Option α))) : Prop :=
  ∀ values row value, row < values.length →
    store values row value = .ok (values.set row (some value))

theorem storeChecked_stores (column : String) : Stores (@storeChecked α column) := by
  intro values row value inside
  rw [storeChecked, Outcome.ensure_true _ inside]
  rfl

theorem storeIndexed_stores : Stores (@storeIndexed α) := fun _ _ _ inside => if_pos inside

variable {put : α → Bytes} {value : Reader α}
  {store : List (Option α) → Nat → α → Result (List (Option α))}

theorem reads_stored (each : ∀ item, Reads value (put item) item) (stores : Stores store)
    {present : List (Nat × α)} {values : List (Option α)}
    (inside : ∀ entry ∈ present, entry.1 < values.length) :
    Reads (foldEach (present.map Prod.fst) values (storeRow value store))
      ((present.map Prod.snd).flatMap put) (storeAll values present) := by
  induction present generalizing values with
  | nil => exact reads_pure values
  | cons entry present ih =>
      have stored := stores values entry.1 entry.2 (inside entry List.mem_cons_self)
      have later := @ih (values.set entry.1 (some entry.2)) fun other member => by
        rw [List.length_set]
        exact inside other (List.mem_cons_of_mem _ member)
      have row : Reads (storeRow value store values entry.1) (put entry.2)
          (values.set entry.1 (some entry.2)) := by
        rw [← List.append_nil (put entry.2)]
        refine (each entry.2).bind ?_
        intro pos rest reserved
        exact ⟨reserved, by rw [lift_apply, stored]; rfl⟩
      exact row.bind later

theorem listed_inside {values : List (Option α)} (few : values.length < 2 ^ 32) :
    (∀ entry ∈ Columns.listed 0 values,
      entry.1 < (List.replicate values.length (none : Option α)).length) ∧
      ∀ row ∈ (Columns.listed 0 values).map Prod.fst, row < 2 ^ 32 := by
  constructor
  · intro entry member
    have bound := (listed_rows member).2
    rw [List.length_replicate]
    omega
  · intro row member
    obtain ⟨entry, inList, rfl⟩ := List.mem_map.mp member
    have bound := (listed_rows inList).2
    omega

/-- Any decoder of the values that reads the column as it was put reads the rows back. -/
theorem reads_sparse (each : ∀ item, Reads value (put item) item) (stores : Stores store)
    {values : List (Option α)} {trailing : String} {written : Bytes}
    (few : values.length < 2 ^ 32)
    (encoded : encodeSparse (fun present => return present.flatMap put) values = .ok written) :
    Reads (decodeSparse value store trailing values.length) written values := by
  simp only [encodeSparse, Outcome.bind_eq_ok, Outcome.pure_eq, Outcome.ok.injEq] at encoded
  obtain ⟨presence, presenceEncoded, presenceBlob, presencePut, _, rfl, valuesBlob, valuesPut,
    rfl⟩ := encoded
  obtain ⟨inside, fit⟩ := listed_inside few
  have stored := reads_stored each stores inside
  rw [storeAll_listed] at stored
  have found : Finishes (readValues value store trailing values.length
      ((Columns.listed 0 values).map Prod.fst)) _ values := Finishes.reserve stored.toEnd
  rw [← List.append_nil valuesBlob]
  refine (reads_blob segmentName presencePut).bind ?_
  refine (finishes_presence fit presenceEncoded).within.bind ?_
  exact (reads_blob segmentName valuesPut).bind found.within

end Sparse

theorem reads_u64Varint (value : UInt64) :
    Reads readOptionalU64 (writeUvarint value.toNat) value := by
  have read := (reads_uvarint segmentName value.toNat_lt).map UInt64.ofNat
  rwa [UInt64.ofNat_toNat] at read

theorem reads_metadata (ref : MetadataRef) : Reads readMetadata (writeMetadata ref) ref := by
  have checksum := (reads_checksum segmentName ref.checksum).map fun found =>
    MetadataRef.mk ref.segmentId ref.bytesOffset ref.bytesLength found
  refine (reads_u64 segmentName ref.segmentId).bind ?_
  refine (reads_uvarint segmentName ref.bytesOffset.toNat_lt).bind ?_
  refine (reads_uvarint segmentName ref.bytesLength.toNat_lt).bind ?_
  rw [UInt64.ofNat_toNat, UInt64.ofNat_toNat]
  exact checksum

theorem asU64_toNat (value : UInt64) : asU64 value.toNat = value := by
  have bound := value.toNat_lt
  have same : ((value.toNat : Int) % 2 ^ 64).toNat = value.toNat := by omega
  rw [asU64, same, UInt64.ofNat_toNat]

theorem reads_laterPayloads {prev : PayloadRef} {present : List (Nat × PayloadRef)}
    {values : List (Option PayloadRef)} {written : Bytes}
    (inside : ∀ entry ∈ present, entry.1 < values.length)
    (encoded : writeLaterPayloads prev (present.map Prod.snd) = .ok written) :
    Reads (readPayloads (some prev) (present.map Prod.fst) values) written
      (storeAll values present) := by
  induction present generalizing prev values written with
  | nil =>
      obtain rfl := Outcome.ok.inj encoded
      exact reads_pure values
  | cons entry present ih =>
      obtain ⟨row, ref⟩ := entry
      simp only [List.map_cons, writeLaterPayloads, Outcome.bind_eq_ok, checked_eq_ok,
        Outcome.pure_eq, Outcome.ok.injEq] at encoded
      obtain ⟨segment, ⟨segmentFits, rfl⟩, offset, ⟨offsetFits, rfl⟩, rest, restEncoded, rfl⟩ :=
        encoded
      have stored := storeChecked_stores "payload_ref" values row ref
        (inside (row, ref) List.mem_cons_self)
      have later := @ih ref (values.set row (some ref)) rest (fun other member => by
        rw [List.length_set]
        exact inside other (List.mem_cons_of_mem _ member)) restEncoded
      have read : Reads (readPayload (some prev))
          (writeIvarint ((ref.segmentId.toNat : Int) - prev.segmentId.toNat) ++
            (writeIvarint ((ref.bytesOffset.toNat : Int) - prev.bytesOffset.toNat) ++
              writeUvarint ref.bytesLength.toNat)) ref := by
        have length := (reads_uvarint segmentName ref.bytesLength.toNat_lt).map fun found =>
          PayloadRef.mk ref.segmentId ref.bytesOffset (UInt64.ofNat found)
        rw [UInt64.ofNat_toNat] at length
        refine (reads_ivarint segmentName segmentFits).bind ?_
        refine (reads_ivarint segmentName offsetFits).bind ?_
        have segmentBack : (prev.segmentId.toNat : Int) +
            (ref.segmentId.toNat - prev.segmentId.toNat) = ref.segmentId.toNat := by omega
        have offsetBack : (prev.bytesOffset.toNat : Int) +
            (ref.bytesOffset.toNat - prev.bytesOffset.toNat) = ref.bytesOffset.toNat := by omega
        rw [segmentBack, offsetBack, asU64_toNat, asU64_toNat]
        exact length
      have whole := @Reads.bind _ _ _ _ (fun found => lift (storeChecked "payload_ref" values row found)
        >>= readPayloads (some found) (present.map Prod.fst)) _ _ ref _ read
        (Reads.lift stored later)
      rw [List.append_assoc, List.append_assoc] at whole
      exact whole

theorem reads_payloads {present : List (Nat × PayloadRef)} {values : List (Option PayloadRef)}
    {written : Bytes} (inside : ∀ entry ∈ present, entry.1 < values.length)
    (encoded : writePayloads (present.map Prod.snd) = .ok written) :
    Reads (readPayloads none (present.map Prod.fst) values) written (storeAll values present) := by
  cases present with
  | nil =>
      obtain rfl := Outcome.ok.inj encoded
      exact reads_pure values
  | cons entry present =>
      obtain ⟨row, ref⟩ := entry
      simp only [List.map_cons, writePayloads, Outcome.bind_eq_ok, Outcome.pure_eq,
        Outcome.ok.injEq] at encoded
      obtain ⟨rest, restEncoded, rfl⟩ := encoded
      have stored := storeChecked_stores "payload_ref" values row ref
        (inside (row, ref) List.mem_cons_self)
      have later := @reads_laterPayloads ref present (values.set row (some ref)) rest
        (fun other member => by
          rw [List.length_set]
          exact inside other (List.mem_cons_of_mem _ member)) restEncoded
      have read : Reads (readPayload none) (writeU64 ref.segmentId ++
          (writeUvarint ref.bytesOffset.toNat ++ writeUvarint ref.bytesLength.toNat)) ref := by
        have length := (reads_uvarint segmentName ref.bytesLength.toNat_lt).map fun found =>
          PayloadRef.mk ref.segmentId ref.bytesOffset (UInt64.ofNat found)
        rw [UInt64.ofNat_toNat] at length
        refine (reads_u64 segmentName ref.segmentId).bind ?_
        refine (reads_uvarint segmentName ref.bytesOffset.toNat_lt).bind ?_
        rw [UInt64.ofNat_toNat]
        exact length
      have whole := @Reads.bind _ _ _ _ (fun found => lift (storeChecked "payload_ref" values row found)
        >>= readPayloads (some found) (present.map Prod.fst)) _ _ ref _ read
        (Reads.lift stored later)
      rw [List.append_assoc, List.append_assoc] at whole
      exact whole

theorem reads_payloadColumn {refs : List (Option PayloadRef)} {written : Bytes}
    (few : refs.length < 2 ^ 32) (encoded : encodeSparse writePayloads refs = .ok written) :
    Reads (decodePayloads refs.length) written refs := by
  simp only [encodeSparse, Outcome.bind_eq_ok, Outcome.pure_eq, Outcome.ok.injEq] at encoded
  obtain ⟨presence, presenceEncoded, presenceBlob, presencePut, column, columnPut, payloadBlob,
    payloadPut, rfl⟩ := encoded
  obtain ⟨inside, fit⟩ := listed_inside few
  have stored := reads_payloads inside columnPut
  rw [storeAll_listed] at stored
  have found : Finishes (do
      reserve refs.length
      readPayloads none ((Columns.listed 0 refs).map Prod.fst) (List.replicate refs.length none))
      column refs := Finishes.reserve stored.finishes
  rw [← List.append_nil payloadBlob]
  refine (reads_blob segmentName presencePut).bind ?_
  refine (finishes_presence fit presenceEncoded).within.bind ?_
  exact (reads_blob segmentName payloadPut).bind found.within

/-- The columns of these rows. -/
def columnsOf (frames : List FrameDesc) : DecodedColumns where
  frameIds := frames.map (·.frameId)
  collectionIds := frames.map (·.collectionId)
  roles := frames.map (·.role)
  createdAt := frames.map (·.createdAt)
  updatedAt := frames.map (·.updatedAt)
  uriRefs := frames.map (·.uriRef)
  titleRefs := frames.map (·.titleRef)
  payloadRefs := frames.map (·.payloadRef)
  payloadEncodings := frames.map (·.payloadEncoding)
  searchTextRefs := frames.map (·.searchTextRef)
  parentFrameIds := frames.map (·.parentFrameId)
  chunkIndices := frames.map (·.chunkIndex)
  chunkCounts := frames.map (·.chunkCount)
  metadataRefs := frames.map (·.metadataRef)
  statuses := frames.map (·.status)

theorem collect_columnsOf (frames : List FrameDesc) :
    collect (columnsOf frames).frame (List.range frames.length) = .ok frames := by
  rw [List.range_eq_range']
  refine collect_range fun row inside => ?_
  rw [Nat.zero_add]
  simp only [DecodedColumns.frame, columnsOf, indexed, List.getElem?_map,
    List.getElem?_eq_getElem inside, Option.map_some, Outcome.pure_eq, Outcome.ok_bind]

/-- A column in a blob of its own. -/
theorem reads_column {β γ : Type} {column : Reader β} {piece blob more : Bytes} {value : β}
    {next : β → Reader γ} {result : γ} (put : lengthPrefixed segmentName piece = .ok blob)
    (finishes : Finishes column piece value) (later : Reads (next value) more result) :
    Reads (do
        let found ← readBlob segmentName
        let value ← within found column
        next value) (blob ++ more) result := by
  refine (reads_blob segmentName put).bind ?_
  rw [← List.nil_append more]
  exact finishes.within.bind later

/-- A column of discriminants that was encoded decodes to what they stand for. -/
theorem reads_discColumn {β γ : Type} {disc : β → UInt8} {fromDisc : UInt8 → Result β}
    (back : ∀ value, fromDisc (disc value) = .ok value) {frames : List FrameDesc}
    {field : FrameDesc → β} {rle blob more : Bytes} {next : List β → Reader γ} {result : γ}
    (few : frames.length < 2 ^ 32)
    (encoded : encodeRleU8 (frames.map fun frame => disc (field frame)) = .ok rle)
    (put : lengthPrefixed segmentName rle = .ok blob)
    (later : Reads (next (frames.map field)) more result) :
    Reads (do
        let found ← readBlob segmentName
        let discs ← within found (decodeRleU8 frames.length)
        let values ← lift (collect fromDisc discs)
        next values) (blob ++ more) result := by
  have discs := finishes_rle (reads_u8 segmentName) (by rw [List.length_map]; omega) encoded
  rw [List.length_map] at discs
  have collected := collect_map back (frames.map field)
  rw [List.map_map] at collected
  exact reads_column put discs (Reads.lift collected later)

theorem reads_columns {frames : List FrameDesc} {written : Bytes} (nonempty : frames ≠ [])
    (few : frames.length < 2 ^ 32) (encoded : encodeColumns frames = .ok written) :
    Reads (readColumns frames.length) written (columnsOf frames) := by
  simp only [encodeColumns, Outcome.bind_eq_ok, Outcome.pure_eq, Outcome.ok.injEq] at encoded
  obtain ⟨frameIds, frameIdsEncoded, frameBlob, framePut, collections, collectionsEncoded,
    collectionBlob, collectionPut, roles, rolesEncoded, roleBlob, rolePut, statuses,
    statusesEncoded, statusBlob, statusPut, encodings, encodingsEncoded, encodingBlob, encodingPut,
    created, createdEncoded, createdBlob, createdPut, updated, updatedEncoded, updatedBlob,
    updatedPut, payloads, payloadsEncoded, uris, urisEncoded, titles, titlesEncoded, searchTexts,
    searchTextsEncoded, metadata, metadataEncoded, parents, parentsEncoded, chunkIndices,
    chunkIndicesEncoded, chunkCounts, chunkCountsEncoded, rfl⟩ := encoded
  have fit : ∀ id ∈ frames.map fun frame => frame.frameId.toNat, id < 2 ^ 64 := by
    intro id member
    obtain ⟨frame, _, rfl⟩ := List.mem_map.mp member
    exact frame.frameId.toNat_lt
  have length : ∀ {α : Type} (field : FrameDesc → α), (frames.map field).length = frames.length :=
    fun field => List.length_map field
  have short : ∀ {α : Type} (field : FrameDesc → α), (frames.map field).length < 2 ^ 32 :=
    fun field => by rwa [length field]
  have ids := finishes_frameIds (by simpa using nonempty) fit frameIdsEncoded
  have collectionIds := finishes_rle (reads_u32 segmentName) (by rw [List.length_map]; omega)
    collectionsEncoded
  have dates := finishes_created (by simpa using nonempty) createdEncoded
  have offsets := finishes_updated frames.length updatedEncoded
  have payloadRefs := reads_payloadColumn (short _) payloadsEncoded
  have metadataColumn : ∀ {field : FrameDesc → Option MetadataRef} {column : Bytes},
      encodeOptionalMetadataColumn (frames.map field) = .ok column →
        Reads (decodeOptionalMetadataColumn frames.length) column (frames.map field) := by
    intro field column columnEncoded
    have read := @reads_sparse _ _ _ _ reads_metadata (storeChecked_stores "metadata") _ "metadata" _
      (short field) columnEncoded
    rwa [length field] at read
  have numberColumn : ∀ {field : FrameDesc → Option UInt32} {column : Bytes},
      encodeOptionalU32Column (frames.map field) = .ok column →
        Reads (decodeOptionalU32Column frames.length) column (frames.map field) := by
    intro field column columnEncoded
    have read := @reads_sparse _ _ _ _ (reads_u32Varint segmentName
      "FrameCatalog optional u32 overflow") storeIndexed_stores _ "optional u32" _ (short field)
      columnEncoded
    rwa [length field] at read
  have parentIds := @reads_sparse _ _ _ _ reads_u64Varint storeIndexed_stores _ "optional u64" _
    (short _) parentsEncoded
  have sameIds : (frames.map fun frame => frame.frameId.toNat).map UInt64.ofNat =
      frames.map (·.frameId) := by
    rw [List.map_map]
    exact List.map_congr_left fun frame _ => UInt64.ofNat_toNat
  rw [length] at ids collectionIds dates payloadRefs parentIds
  rw [List.map_map, List.map_map] at offsets
  rw [← List.append_nil chunkCounts]
  unfold readColumns
  refine reads_column framePut ids ?_
  unfold readLaterColumns
  refine reads_column collectionPut collectionIds ?_
  refine reads_discColumn roleFromDisc_disc few rolesEncoded rolePut ?_
  refine reads_discColumn statusFromDisc_disc few statusesEncoded statusPut ?_
  refine reads_discColumn payloadEncodingFromDisc_disc few encodingsEncoded encodingPut ?_
  refine reads_column createdPut dates ?_
  refine reads_column updatedPut offsets ?_
  refine payloadRefs.bind ((metadataColumn urisEncoded).bind ((metadataColumn titlesEncoded).bind ?_))
  refine (metadataColumn searchTextsEncoded).bind ((metadataColumn metadataEncoded).bind ?_)
  refine parentIds.bind ((numberColumn chunkIndicesEncoded).bind ?_)
  refine (numberColumn chunkCountsEncoded).bind ?_
  rw [sameIds]
  exact reads_pure _

/-- What the encoder accepts, the decoder gives back. -/
theorem decodeFrameCatalog_encode {delta : FrameCatalogDelta} {bytes : Bytes}
    (encoded : encodeFrameCatalog delta = .ok bytes) : decodeFrameCatalog bytes = .ok delta := by
  obtain ⟨previousRoot, frames⟩ := delta
  simp only [encodeFrameCatalog, Outcome.bind_eq_ok, Outcome.ensure_eq_ok] at encoded
  obtain ⟨_, few, encoded⟩ := encoded
  have header := reads_header few previousRoot
  refine Finishes.decodeAll ?_
  by_cases empty : frames = []
  · subst empty
    obtain rfl := Outcome.ok.inj encoded
    rw [← List.append_nil (_ ++ _)]
    exact Finishes.bind header (finishes_pure _)
  · rw [if_neg empty] at encoded
    simp only [Outcome.bind_eq_ok, Outcome.pure_eq, Outcome.ok.injEq] at encoded
    obtain ⟨columns, columnsEncoded, rfl⟩ := encoded
    have someRows : frames.length ≠ 0 := by
      intro zero
      exact empty (List.length_eq_zero_iff.mp zero)
    have rows : Reads (readFrames frames.length) columns frames := by
      rw [← List.append_nil columns]
      refine (reads_columns empty few columnsEncoded).bind ?_
      rw [collect_columnsOf]
      exact reads_pure frames
    refine Finishes.bind header ?_
    rw [if_neg someRows]
    exact (rows.map fun found => FrameCatalogDelta.mk previousRoot found).finishes

/-- The previous root is read from the header alone, as the full decoder reads it. -/
theorem decodePreviousRoot_encode {delta : FrameCatalogDelta} {bytes : Bytes}
    (encoded : encodeFrameCatalog delta = .ok bytes) :
    decodeFrameCatalogPreviousRoot bytes = .ok delta.previousRoot := by
  obtain ⟨previousRoot, frames⟩ := delta
  simp only [encodeFrameCatalog, Outcome.bind_eq_ok, Outcome.ensure_eq_ok] at encoded
  obtain ⟨_, few, encoded⟩ := encoded
  have header := reads_header few previousRoot
  have root := header.map Prod.snd
  by_cases empty : frames = []
  · subst empty
    obtain rfl := Outcome.ok.inj encoded
    exact root.finishes.decodeAll
  · rw [if_neg empty] at encoded
    simp only [Outcome.bind_eq_ok, Outcome.pure_eq, Outcome.ok.injEq] at encoded
    obtain ⟨columns, _, rfl⟩ := encoded
    obtain ⟨now, done⟩ := root 0 columns 0
    exact congrArg Prod.fst done

/-- A catalog comes back whole, and its previous root from either decoder. -/
theorem catalog_restored (delta : FrameCatalogDelta) (bytes : Bytes)
    (encoded : encodeFrameCatalog delta = .ok bytes) :
    decodeFrameCatalog bytes = .ok delta ∧
      decodeFrameCatalogPreviousRoot bytes = .ok delta.previousRoot :=
  ⟨decodeFrameCatalog_encode encoded, decodePreviousRoot_encode encoded⟩

/-- A document and a tombstoned chunk of it, with some columns present on one row only. -/
def twoFrames : FrameCatalogDelta where
  previousRoot := some ⟨42, 4096, 1024, ⟨List.replicate 32 0xAB, by decide⟩⟩
  frames := [
    { frameId := 1, collectionId := 1, role := .document, createdAt := 1700, updatedAt := 1700
      uriRef := none, titleRef := none, payloadRef := some ⟨100, 0, 50⟩, payloadEncoding := .raw
      searchTextRef := none, parentFrameId := none, chunkIndex := none, chunkCount := none
      metadataRef := none, status := .active },
    { frameId := 7, collectionId := 1, role := .chunk, createdAt := 1650, updatedAt := 1800
      uriRef := some ⟨99, 17, 24, ⟨List.replicate 32 0x11, by decide⟩⟩, titleRef := none
      payloadRef := some ⟨90, 300, 75⟩, payloadEncoding := .zstd, searchTextRef := none
      parentFrameId := some 1, chunkIndex := some 2, chunkCount := some 5, metadataRef := none
      status := .tombstoned }]

theorem twoFrames_restored : ∃ bytes, encodeFrameCatalog twoFrames = .ok bytes ∧
    decodeFrameCatalog bytes = .ok twoFrames ∧
      decodeFrameCatalogPreviousRoot bytes = .ok twoFrames.previousRoot := by
  obtain ⟨bytes, encoded⟩ := Outcome.isOk_iff.mp
    (show (encodeFrameCatalog twoFrames).isOk = true by decide +kernel)
  exact ⟨bytes, encoded, catalog_restored twoFrames bytes encoded⟩

end FrameCatalogCodec

end Valise
