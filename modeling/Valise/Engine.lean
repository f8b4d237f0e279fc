import Valise.Library.Command
import Valise.Library.DeltaTable
import Valise.SegmentStore
import Valise.TextRuns

/-!
The open file handle: its catalog tables and what is dirty in them, the payloads, keys, vectors and
texts that wait for a commit, and the operations that change them.
-/

namespace Valise

open ByteLists Chains Commands Command DeltaTables Outcomes SortedTables

structure FooterBody where
  roots : CatalogTableKind → Option SegmentPlace := fun _ => none
  textRoots : List (TextSpaceId × TextRoots) := []
  collectionFilterRoots : List (CollectionId × SegmentPlace) := []
  timeIndexRoot : Option SegmentPlace := none
  idAllocator : IdAllocator := {}

/-- The places where a call can fail for reasons of its environment. -/
inductive IoPoint where
  | clock
  | appendCodecParams
  | syncCodecParams
  | writerLock
  | compressPayload
  | appendPayload
  | syncPayload
  | appendUris
  | syncUris
  | appendVectors (space : EmbeddingSpaceId) (codec : CodecId)
  | syncVectors (space : EmbeddingSpaceId) (codec : CodecId)
  | appendTermDictionary (space : TextSpaceId)
  | appendPostings (space : TextSpaceId)
  | appendDocStats (space : TextSpaceId)
  | encodeTable (kind : CatalogTableKind)
  | appendTable (kind : CatalogTableKind)
  | appendFilter (collection : CollectionId)
  | appendTimeIndex
  | encodeFooter
  | staleInode
  | appendFooter
  | publishCoordination
  | writeHeader
  | commitFsync
  | remap
deriving DecidableEq

structure PendingPayloadFrame where
  frameId : FrameId
  bytesOffset : Nat
  bytesLength : Nat
deriving DecidableEq, Repr

structure PendingUri where
  frameId : FrameId
  bytesOffset : Nat
  bytesLength : Nat
deriving DecidableEq, Repr

/-- The rows encoded so far, and those still raw. -/
structure PendingVectorBatch where
  embeddingSpaceId : EmbeddingSpaceId
  codecId : CodecId
  segmentId : SegmentId
  vectors : List VectorDesc
  written : List (VectorId × List F32)
  rawValues : List (List F32)
deriving DecidableEq, Repr

abbrev BatchKey := EmbeddingSpaceId × CodecId

structure ValiseFile where
  file : StoredFile := []
  /-- The footer that the header of the file names. -/
  published : FooterBody := {}
  footer : FooterBody := {}
  createContract : CreateContractV1 := {}
  idAllocator : IdAllocator := {}
  tables : Tables := fun _ => []
  frameStubs : List FrameStub := []
  dirtyIds : CatalogTableKind → List Nat := fun _ => []
  codecCache : List (CodecId × CodecParams) := []
  analyzerCache : List (TextSpaceId × AnalyzerDesc) := []
  texts : List (TextSpaceId × TextHandle) := []
  collectionFilterCache : List (CollectionId × List FrameId × List VectorId) := []
  timeIndexCache : List TimeIndexEntry := []
  pendingPayloadBuf : Bytes := []
  pendingPayloadFrames : List PendingPayloadFrame := []
  pendingUriBuf : Bytes := []
  pendingUris : List PendingUri := []
  pendingVectorBatches : List (BatchKey × PendingVectorBatch) := []
  dirty : Bool := false
  faults : IoPoint → Bool := fun _ => false

abbrev Engine (α : Type) := Command ValiseFile Error α

def payloadBatchFlushBytes : Nat := 4 * 1024 * 1024
def vectorChunkSize : Nat := 4096

def fallible (point : IoPoint) : Engine Unit := do
  let handle ← Command.get
  lift (Outcome.ensure (handle.faults point = false) .io)

def check (condition : Prop) [Decidable condition] (error : Error) : Engine Unit :=
  lift (Outcome.ensure condition error)

/-! ### Ids -/

def takeU32 (label : String) (next : UInt32) : Result (UInt32 × UInt32) := do
  Outcome.ensure (next ≠ 0) (.format s!"next {label} id must be non-zero")
  Outcome.ensure (next.toNat + 1 < 2 ^ 32) (.format s!"{label} id space exhausted")
  return (next, next + 1)

def takeU64 (label : String) (next : UInt64) : Result (UInt64 × UInt64) := do
  Outcome.ensure (next ≠ 0) (.format s!"next {label} id must be non-zero")
  Outcome.ensure (next.toNat + 1 < 2 ^ 64) (.format s!"{label} id space exhausted")
  return (next, next + 1)

/-- Take the next id from one counter of the allocator. -/
def allocate {ι : Type} (take : ι → Result (ι × ι)) (next : IdAllocator → ι)
    (store : ι → IdAllocator → IdAllocator) : Engine ι := do
  let handle ← Command.get
  let (id, following) ← lift (take (next handle.idAllocator))
  Command.modify fun handle => { handle with idAllocator := store following handle.idAllocator }
  return id

def allocateCollectionId : Engine CollectionId :=
  allocate (takeU32 "collection") IdAllocator.nextCollectionId
    fun next ids => { ids with nextCollectionId := next }

def allocateFrameId : Engine FrameId :=
  allocate (takeU64 "frame") IdAllocator.nextFrameId
    fun next ids => { ids with nextFrameId := next }

def allocateSegmentId : Engine SegmentId :=
  allocate (takeU64 "segment") IdAllocator.nextSegmentId
    fun next ids => { ids with nextSegmentId := next }

def allocateTextSpaceId : Engine TextSpaceId :=
  allocate (takeU32 "text space") IdAllocator.nextTextSpaceId
    fun next ids => { ids with nextTextSpaceId := next }

def allocateAnalyzerId : Engine AnalyzerId :=
  allocate (takeU32 "analyzer") IdAllocator.nextAnalyzerId
    fun next ids => { ids with nextAnalyzerId := next }

def allocateFieldSchemaId : Engine FieldSchemaId :=
  allocate (takeU32 "field schema") IdAllocator.nextFieldSchemaId
    fun next ids => { ids with nextFieldSchemaId := next }

def allocateRetrievalProfileId : Engine RetrievalProfileId :=
  allocate (takeU32 "retrieval profile") IdAllocator.nextRetrievalProfileId
    fun next ids => { ids with nextRetrievalProfileId := next }

def allocateEmbeddingSpaceId : Engine EmbeddingSpaceId :=
  allocate (takeU32 "embedding space") IdAllocator.nextEmbeddingSpaceId
    fun next ids => { ids with nextEmbeddingSpaceId := next }

def allocateCodecId : Engine CodecId :=
  allocate (takeU32 "codec") IdAllocator.nextCodecId
    fun next ids => { ids with nextCodecId := next }

def allocateVectorId : Engine VectorId :=
  allocate (takeU64 "vector") IdAllocator.nextVectorId
    fun next ids => { ids with nextVectorId := next }

def allocateFusionProfileId : Engine FusionProfileId :=
  allocate (takeU32 "fusion profile") IdAllocator.nextFusionProfileId
    fun next ids => { ids with nextFusionProfileId := next }

/-! ### Tables and segments -/

namespace ValiseFile

def setTable (handle : ValiseFile) (kind : CatalogTableKind) (rows : List kind.Row)
    (marked : List Nat) : ValiseFile :=
  { handle with
    tables := Function.update handle.tables kind rows
    dirtyIds := Function.update handle.dirtyIds kind
      (upsertAll (fun id : Nat => id) (handle.dirtyIds kind) marked) }

def upsertRow (handle : ValiseFile) (kind : CatalogTableKind) (row : kind.Row) : ValiseFile :=
  handle.setTable kind (upsert kind.rowId row (handle.tables kind)) [kind.rowId row]

/-- The slim frame index follows the frame table. -/
def upsertFrame (handle : ValiseFile) (frame : FrameDesc) : ValiseFile :=
  { handle.upsertRow .frame frame with
    frameStubs := upsert (fun stub => stub.frameId.toNat) frame.stub handle.frameStubs }

end ValiseFile

def markDirtyFlag : Engine Unit := Command.modify fun handle => { handle with dirty := true }

def registerSegment (segmentId : SegmentId) (segmentType : SegmentType) (root : SegmentPlace)
    (itemCount : Nat) (compression : Compression) : Engine Unit :=
  Command.modify fun handle => handle.upsertRow .segment
    ⟨segmentId, segmentType, root, itemCount, compression⟩

def appendSegmentAtEnd (point : IoPoint) (segmentId : SegmentId) (content : SegmentContent) :
    Engine SegmentPlace := do
  fallible point
  let handle ← Command.get
  Command.modify fun handle => { handle with file := handle.file ++ [⟨segmentId, content⟩] }
  return ⟨segmentId, handle.file.length⟩

def appendRegisteredSegment (point : IoPoint) (segmentType : SegmentType) (itemCount : Nat)
    (content : SegmentContent) : Engine SegmentPlace := do
  let segmentId ← allocateSegmentId
  let root ← appendSegmentAtEnd point segmentId content
  registerSegment segmentId segmentType root itemCount .none
  return root

/-! ### Registrations -/

def createCollectionAt (name : String) (createdAt : Int64) : Engine CollectionId := do
  let handle ← Command.get
  check (¬∃ collection ∈ handle.tables .collection,
      collection.name = name ∧ collection.flags &&& 1 = 0)
    (.format s!"collection already exists: {name}")
  let collectionId ← allocateCollectionId
  Command.modify fun handle => handle.upsertRow .collection
    ⟨collectionId, name, createdAt, none, none, 0, none⟩
  markDirtyFlag
  return collectionId

structure EmbeddingSpaceSpec where
  provider : String
  model : String
  dimension : UInt32
  metric : VectorMetric
  normalized : Bool
  dtype : Dtype
  primaryCodecId : Option CodecId
  secondaryCodecId : Option CodecId

def checkPrimaryCodec (dimension : UInt32) (primaryId : CodecId) : Engine Unit := do
  let handle ← Command.get
  match find (CatalogTableKind.rowId .codec) primaryId.toNat (handle.tables .codec) with
  | none => lift (.err (.format
      s!"register_embedding_space: unknown primary_codec_id {primaryId}"))
  | some codec => do
      check (codec.family ≠ .legacyInt4PcaZero) (.unsupported
        "register_embedding_space: Int4PcaZero codec family is no longer supported (removed in v2.2). Re-register the space with a QAM codec.")
      match valueAt UInt32.toNat primaryId handle.codecCache with
      | none => lift (.err (.integrity
          s!"register_embedding_space: codec {primaryId} not in cache"))
      | some params =>
          check (params.dimension = dimension) (.format
            s!"register_embedding_space: primary codec dim {params.dimension} != spec dim {dimension}")

def checkCodec (dimension : UInt32) : Option CodecId → Engine Unit
  | none => lift (.ok ())
  | some primaryId => checkPrimaryCodec dimension primaryId

def registerEmbeddingSpace (spec : EmbeddingSpaceSpec) : Engine EmbeddingSpaceId := do
  let handle ← Command.get
  check (spec.dimension ≤ handle.createContract.maxDim) (.unsupported
    s!"register_embedding_space: dimension {spec.dimension} exceeds contract.max_dim {handle.createContract.maxDim}")
  check (handle.createContract.allowedDtypes.toNat.testBit spec.dtype.setBit) (.unsupported
    "register_embedding_space: dtype not in contract.allowed_dtypes")
  check (¬(spec.dtype.isF8 ∧ spec.primaryCodecId.isSome)) (.format
    "register_embedding_space: f8 spaces must not register a primary codec")
  check (¬(¬spec.dtype.isF8 ∧ spec.primaryCodecId.isNone)) (.format
    "register_embedding_space: non-f8 spaces must register a primary codec")
  checkCodec spec.dimension spec.primaryCodecId
  check (spec.secondaryCodecId = none) (.unsupported
    "register_embedding_space: secondary_codec_id is unused since the vote-index removal (v2.3); pass None")
  let embeddingSpaceId ← allocateEmbeddingSpaceId
  Command.modify fun handle => handle.upsertRow .embeddingSpace
    ⟨embeddingSpaceId, spec.provider, spec.model, spec.dimension, spec.metric, spec.normalized,
      spec.dtype, spec.primaryCodecId, spec.secondaryCodecId, 0⟩
  markDirtyFlag
  return embeddingSpaceId

def ensureTextEnabled (op : String) : Engine Unit := do
  let handle ← Command.get
  check (handle.createContract.textEnabled) (.unsupported
    s!"{op}: file was created with TextMode::Disabled")

def registerAnalyzer (desc : AnalyzerDesc) : Engine AnalyzerId := do
  ensureTextEnabled "register_analyzer"
  let analyzerId ← allocateAnalyzerId
  Command.modify fun handle => handle.upsertRow .analyzer { desc with analyzerId := analyzerId }
  markDirtyFlag
  return analyzerId

def registerFieldSchema (desc : FieldSchemaDesc) : Engine FieldSchemaId := do
  ensureTextEnabled "register_field_schema"
  let fieldSchemaId ← allocateFieldSchemaId
  Command.modify fun handle => handle.upsertRow .fieldSchema
    { desc with fieldSchemaId := fieldSchemaId }
  markDirtyFlag
  return fieldSchemaId

def registerRetrievalProfile (desc : RetrievalProfileDesc) : Engine RetrievalProfileId := do
  ensureTextEnabled "register_retrieval_profile"
  let profileId ← allocateRetrievalProfileId
  Command.modify fun handle => handle.upsertRow .retrievalProfile
    { desc with profileId := profileId }
  markDirtyFlag
  return profileId

def registerFusionProfile (desc : FusionProfileDesc) : Engine FusionProfileId := do
  lift desc.validate
  let fusionProfileId ← allocateFusionProfileId
  Command.modify fun handle => handle.upsertRow .fusionProfile
    { desc with fusionProfileId := fusionProfileId }
  markDirtyFlag
  return fusionProfileId

def registerTextSpace (desc : TextSpaceDesc) : Engine TextSpaceId := do
  ensureTextEnabled "register_text_space"
  let handle ← Command.get
  check (∃ analyzer ∈ handle.tables .analyzer, analyzer.analyzerId = desc.analyzerId) (.format
    s!"register_text_space: unknown analyzer_id {desc.analyzerId}")
  check (∃ schema ∈ handle.tables .fieldSchema, schema.fieldSchemaId = desc.fieldSchemaId) (.format
    s!"register_text_space: unknown field_schema_id {desc.fieldSchemaId}")
  check (∃ profile ∈ handle.tables .retrievalProfile, profile.profileId = desc.defaultProfileId)
    (.format s!"register_text_space: unknown default_profile_id {desc.defaultProfileId}")
  let textSpaceId ← allocateTextSpaceId
  match find (CatalogTableKind.rowId .analyzer) desc.analyzerId.toNat (handle.tables .analyzer) with
  | none => lift .panic
  | some analyzer => do
      lift analyzer.build
      Command.modify fun handle => handle.upsertRow .textSpace { desc with textSpaceId := textSpaceId }
      Command.modify fun handle => { handle with
        analyzerCache := store UInt32.toNat textSpaceId analyzer handle.analyzerCache
        texts := store UInt32.toNat textSpaceId {} handle.texts }
      markDirtyFlag
      return textSpaceId

/-- The row is in the catalog before the live codec is built. -/
def registerCodec (params : CodecParams) : Engine CodecId := do
  lift params.encode
  let segmentId ← allocateSegmentId
  let codecId ← allocateCodecId
  let paramsRef ← appendSegmentAtEnd .appendCodecParams segmentId (.codecParams params)
  fallible .syncCodecParams
  registerSegment segmentId .codecParams paramsRef 1 .none
  Command.modify fun handle => handle.upsertRow .codec
    ⟨codecId, params.family, params.wireVersion, paramsRef⟩
  markDirtyFlag
  lift params.instantiate
  Command.modify fun handle => { handle with
    codecCache := store UInt32.toNat codecId params handle.codecCache }
  return codecId

/-! ### Frames -/

structure PutFrame where
  collectionId : CollectionId
  role : FrameRole
  payload : Bytes
  createdAt : Option Int64
  updatedAt : Option Int64
  parentFrameId : Option FrameId
  chunkIndex : Option UInt32
  chunkCount : Option UInt32
  uri : Option Bytes

def payloadFixup (segmentId : SegmentId) (pending : List PendingPayloadFrame) (frame : FrameDesc) :
    FrameDesc :=
  match pending.reverse.find? fun entry => entry.frameId = frame.frameId with
  | none => frame
  | some entry => { frame with
      payloadRef := some ⟨segmentId, entry.bytesOffset, entry.bytesLength⟩ }

def uriFixup (segmentId : SegmentId) (pending : List PendingUri) (frame : FrameDesc) : FrameDesc :=
  match pending.reverse.find? fun entry => entry.frameId = frame.frameId with
  | none => frame
  | some entry => { frame with
      uriRef := some ⟨segmentId, entry.bytesOffset, entry.bytesLength⟩ }

/-- The segment of the pending keys, and the keys taken from the buffer. -/
def flushPendingUris : Engine (SegmentId × List PendingUri) := do
  let handle ← Command.get
  if handle.pendingUris = [] then return (0, [])
  else do
    let segmentId ← allocateSegmentId
    check (handle.pendingUris.length < 2 ^ 32) (.format "uri batch too large for u32 item_count")
    let root ← appendSegmentAtEnd .appendUris segmentId (.metadata handle.pendingUriBuf)
    fallible .syncUris
    registerSegment segmentId .metadata root handle.pendingUris.length .none
    Command.modify fun handle => { handle with pendingUris := [] }
    return (segmentId, handle.pendingUris)

def flushPendingPayloads : Engine Unit := do
  let handle ← Command.get
  if handle.pendingPayloadFrames = [] then return ()
  else do
    let segmentId ← allocateSegmentId
    check (handle.pendingPayloadFrames.length < 2 ^ 32) (.format
      "payload batch too large for u32 item_count")
    fallible .compressPayload
    let root ← appendSegmentAtEnd .appendPayload segmentId (.payload handle.pendingPayloadBuf)
    fallible .syncPayload
    registerSegment segmentId .payload root handle.pendingPayloadFrames.length .zstd
    let (uriSegmentId, uris) ← flushPendingUris
    let pending := handle.pendingPayloadFrames
    Command.modify fun handle =>
      { handle.setTable .frame
          ((handle.tables .frame).map fun frame =>
            uriFixup uriSegmentId uris (payloadFixup segmentId pending frame))
          (uris.map (·.frameId.toNat) ++ pending.map (·.frameId.toNat)) with
        pendingPayloadFrames := [] }
    let ids := upsertAll (fun id : Nat => id) [] (pending.map (·.frameId.toNat))
    let matched := (handle.tables .frame).countP fun frame => frame.frameId.toNat ∈ ids
    check (matched = ids.length) (.integrity
      s!"flush_pending_payloads: matched {matched}/{ids.length} pending frames in catalog")
    Command.modify fun handle => { handle with pendingPayloadBuf := [], pendingUriBuf := [] }

namespace ValiseFile

def bufferPayload (handle : ValiseFile) (frameId : FrameId) (payload : Bytes) : ValiseFile :=
  { handle with
    pendingPayloadFrames := handle.pendingPayloadFrames ++
      [⟨frameId, handle.pendingPayloadBuf.length, payload.length⟩]
    pendingPayloadBuf := handle.pendingPayloadBuf ++ payload }

def bufferUri (handle : ValiseFile) (frameId : FrameId) : Option Bytes → ValiseFile
  | none => handle
  | some uri => { handle with
      pendingUris := handle.pendingUris ++ [⟨frameId, handle.pendingUriBuf.length, uri.length⟩]
      pendingUriBuf := handle.pendingUriBuf ++ uri }

end ValiseFile

/-- A full buffer is flushed at once. -/
def flushFullPayloads : Engine Unit := do
  let handle ← Command.get
  if payloadBatchFlushBytes ≤ handle.pendingPayloadBuf.length then flushPendingPayloads
  else return ()

/-- The payload and the key are still in the buffers. -/
def PutFrame.frame (input : PutFrame) (frameId : FrameId) (now : Int64) : FrameDesc where
  frameId := frameId
  collectionId := input.collectionId
  role := input.role
  createdAt := input.createdAt.getD now
  updatedAt := input.updatedAt.getD now
  uriRef := none
  titleRef := none
  payloadRef := none
  payloadEncoding := .raw
  searchTextRef := none
  parentFrameId := input.parentFrameId
  chunkIndex := input.chunkIndex
  chunkCount := input.chunkCount
  metadataRef := none
  status := .active

def putFrame (input : PutFrame) (now : Int64) : Engine FrameId := do
  let handle ← Command.get
  check (∃ collection ∈ handle.tables .collection, collection.collectionId = input.collectionId)
    (.format s!"unknown collection id: {input.collectionId}")
  fallible .clock
  let frameId ← allocateFrameId
  Command.modify fun handle =>
    (handle.bufferPayload frameId input.payload).bufferUri frameId input.uri
  Command.modify fun handle => handle.upsertFrame (input.frame frameId now)
  markDirtyFlag
  flushFullPayloads
  return frameId

def ValiseFile.findFrame (handle : ValiseFile) (frameId : FrameId) : Option FrameDesc :=
  find (CatalogTableKind.rowId .frame) frameId.toNat (handle.tables .frame)

def deleteFrame (frameId : FrameId) (now : Int64) : Engine Unit := do
  let handle ← Command.get
  match handle.findFrame frameId with
  | none => lift (.err (.format s!"unknown active frame id: {frameId}"))
  | some frame => do
      check (frame.status = .active) (.format s!"unknown active frame id: {frameId}")
      fallible .clock
      Command.modify fun handle => handle.upsertFrame
        { frame with status := .tombstoned, role := .tombstone, updatedAt := now }
      markDirtyFlag

/-! ### Texts -/

namespace ValiseFile

def pendingPayload (handle : ValiseFile) (frameId : FrameId) : Option PendingPayloadFrame :=
  handle.pendingPayloadFrames.reverse.find? fun entry => entry.frameId = frameId

/-- A payload that waits for its flush is read from the buffer. -/
def readPayload (handle : ValiseFile) (frameId : FrameId) : Result Bytes :=
  match handle.pendingPayload frameId with
  | some entry => return slice handle.pendingPayloadBuf entry.bytesOffset entry.bytesLength
  | none =>
      match handle.findFrame frameId with
      | none => .err (.format s!"unknown frame id: {frameId}")
      | some frame =>
          match frame.payloadRef with
          | none => .err (.format "frame has no materialized payload")
          | some ref => do
              Outcome.ensure (frame.payloadEncoding = .raw) (.unsupported
                "compressed frame payloads are not implemented in v0.1-alpha")
              handle.file.readPayloadRef (handle.tables .segment) ref

def textOf (handle : ValiseFile) (textSpaceId : TextSpaceId) : TextHandle :=
  (valueAt UInt32.toNat textSpaceId handle.texts).getD {}

def setText (handle : ValiseFile) (textSpaceId : TextSpaceId) (text : TextHandle) : ValiseFile :=
  { handle with texts := store UInt32.toNat textSpaceId text handle.texts }

end ValiseFile

/-- The analyzer yields no tokens when the payload is not UTF-8. -/
def indexFrameText (analyze : AnalyzerDesc → Bytes → Option (List Bytes)) (frameId : FrameId)
    (textSpaceId : TextSpaceId) : Engine Unit := do
  let handle ← Command.get
  match handle.findFrame frameId with
  | none => lift (.err (.format s!"index_frame_text: unknown frame_id {frameId}"))
  | some frame => do
      check (frame.status = .active) (.format s!"index_frame_text: frame {frameId} is not Active")
      match valueAt UInt32.toNat textSpaceId handle.analyzerCache with
      | none => lift (.err (.format s!"index_frame_text: unknown text_space_id {textSpaceId}"))
      | some analyzer => do
          let payload ← lift (handle.readPayload frameId)
          match analyze analyzer payload with
          | none => lift (.err (.format
              s!"index_frame_text: frame {frameId} payload is not UTF-8"))
          | some tokens => do
              Command.modify fun handle => handle.setText textSpaceId
                ((handle.textOf textSpaceId).index frameId frame.collectionId tokens)
              markDirtyFlag

/-! ### Vectors -/

structure PutVector where
  ownerFrameId : FrameId
  embeddingSpaceId : EmbeddingSpaceId
  values : List F32

def encodeRows (params : CodecParams) : List (List F32) → Result (List (List F32))
  | [] => return []
  | row :: rows => do
      let encoded ← params.encodeVector row
      let rest ← encodeRows params rows
      return encoded :: rest

/-- Batches are kept in the order of their keys. -/
def batchRank (key : BatchKey) : Nat ×ₗ Nat := toLex (key.1.toNat, key.2.toNat)

def ValiseFile.batch (handle : ValiseFile) (key : BatchKey) : Option PendingVectorBatch :=
  valueAt batchRank key handle.pendingVectorBatches

def ValiseFile.setBatch (handle : ValiseFile) (key : BatchKey) (batch : PendingVectorBatch) :
    ValiseFile :=
  { handle with pendingVectorBatches := store batchRank key batch handle.pendingVectorBatches }

/-- The encoded rows take the ids of the batch's next vectors. -/
def PendingVectorBatch.append (batch : PendingVectorBatch) (encoded : List (List F32)) :
    PendingVectorBatch :=
  { batch with
    written := batch.written ++
      ((batch.vectors.drop batch.written.length).map VectorDesc.vectorId).zip encoded }

/-- The offset of the base block is a 32-bit field of the segment. -/
def PendingVectorBatch.Finishes (batch : PendingVectorBatch) : Prop :=
  vectorDataHeaderBytes + batch.written.length * vectorIdBytes < 2 ^ 32

instance (batch : PendingVectorBatch) : Decidable batch.Finishes :=
  inferInstanceAs (Decidable (_ < _))

/-- How many rows are in full chunks. -/
def PendingVectorBatch.full (batch : PendingVectorBatch) : Nat :=
  batch.rawValues.length / vectorChunkSize * vectorChunkSize

/-- The full chunks leave the buffer before they are encoded. -/
def drainFullVectorChunks (key : BatchKey) : Engine Unit := do
  let handle ← Command.get
  match handle.batch key with
  | none => lift (.ok ())
  | some batch =>
      if batch.rawValues.length < vectorChunkSize then lift (.ok ())
      else do
        let drained := { batch with rawValues := batch.rawValues.drop batch.full }
        Command.modify fun handle => handle.setBatch key drained
        match valueAt UInt32.toNat key.2 handle.codecCache with
        | none => lift (.err (.integrity
            s!"drain_full_vector_chunks: codec {key.2} missing from cache"))
        | some params => do
            let encoded ← lift (encodeRows params (batch.rawValues.take batch.full))
            Command.modify fun handle => handle.setBatch key (drained.append encoded)

def openBatch (key : BatchKey) : Engine Unit := do
  let handle ← Command.get
  match handle.batch key with
  | some _ => return ()
  | none => do
      let segmentId ← allocateSegmentId
      Command.modify fun handle => handle.setBatch key ⟨key.1, key.2, segmentId, [], [], []⟩

def putVector (input : PutVector) : Engine VectorId := do
  let handle ← Command.get
  match handle.findFrame input.ownerFrameId with
  | none => lift (.err (.format s!"put_vector: unknown frame_id {input.ownerFrameId}"))
  | some frame => do
      check (frame.status = .active) (.format
        s!"put_vector: frame {input.ownerFrameId} is not active")
      match find (CatalogTableKind.rowId .embeddingSpace) input.embeddingSpaceId.toNat
          (handle.tables .embeddingSpace) with
      | none => lift (.err (.format
          s!"put_vector: unknown embedding_space_id {input.embeddingSpaceId}"))
      | some space => do
          check (input.values.length = space.dimension.toNat) (.format
            s!"put_vector: dimension mismatch (space dim = {space.dimension}, input len = {input.values.length})")
          check (¬space.dtype.isF8) (.unsupported
            "put_vector: f8 ingest deferred to a follow-up phase")
          match space.primaryCodecId with
          | none => lift (.err (.integrity
              "put_vector: non-f8 space has no primary_codec_id (validation should have caught this)"))
          | some codecId => do
              check ((valueAt UInt32.toNat codecId handle.codecCache).isSome) (.integrity
                s!"put_vector: codec {codecId} not in cache")
              let key : BatchKey := (input.embeddingSpaceId, codecId)
              openBatch key
              let vectorId ← allocateVectorId
              let handle ← Command.get
              match handle.batch key with
              | none => lift .panic
              | some batch => do
                  let desc : VectorDesc := ⟨vectorId, input.ownerFrameId, frame.collectionId,
                    input.embeddingSpaceId, batch.segmentId, batch.vectors.length, .active⟩
                  Command.modify fun handle => handle.setBatch key
                    { batch with
                      vectors := batch.vectors ++ [desc]
                      rawValues := batch.rawValues ++ [input.values] }
                  Command.modify fun handle => handle.upsertRow .vector desc
                  markDirtyFlag
                  drainFullVectorChunks key
                  return vectorId

def ValiseFile.vectorPending (handle : ValiseFile) (vectorId : VectorId) : Bool :=
  handle.pendingVectorBatches.any fun entry =>
    entry.2.vectors.any fun desc => desc.vectorId = vectorId

def deleteVector (vectorId : VectorId) : Engine Unit := do
  let handle ← Command.get
  check (¬handle.vectorPending vectorId) (.format
    s!"delete_vector: vector {vectorId} is uncommitted; call commit() first")
  match find (CatalogTableKind.rowId .vector) vectorId.toNat (handle.tables .vector) with
  | none => lift (.err (.format s!"delete_vector: unknown active vector_id {vectorId}"))
  | some desc => do
      check (desc.status = .active) (.format
        s!"delete_vector: unknown active vector_id {vectorId}")
      Command.modify fun handle => handle.upsertRow .vector { desc with status := .tombstoned }
      markDirtyFlag

end Valise
