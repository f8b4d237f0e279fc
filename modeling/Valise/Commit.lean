import Valise.Engine

/-!
The commit of a file handle: pending payloads, vectors and texts are flushed, dirty rows are
written as deltas, and the footer and the header follow. The handle changes step by step, so a
failure leaves behind whatever the steps before it did.
-/

namespace Valise

open ByteLists Chains Commands Command DeltaTables Outcomes SortedTables

/-! ### Vectors -/

/-- Everything before the last full chunk is encoded already. -/
def encodeTail (batch : PendingVectorBatch) : Engine PendingVectorBatch := do
  if batch.rawValues = [] then return batch
  else do
    let handle ← Command.get
    match valueAt UInt32.toNat batch.codecId handle.codecCache with
    | none => lift (.err (.integrity
        s!"flush_pending_batch: codec {batch.codecId} missing from cache"))
    | some params => do
        let encoded ← lift (encodeRows params batch.rawValues)
        return batch.append encoded

def flushPendingBatch (batch : PendingVectorBatch) : Engine Unit := do
  check (batch.vectors.length < 2 ^ 32) (.format
    s!"pending vector batch overflow: {batch.vectors.length} vectors")
  let encoded ← encodeTail batch
  check encoded.Finishes (.format "base_block_offset overflow")
  let root ← appendSegmentAtEnd (.appendVectors batch.embeddingSpaceId batch.codecId)
    batch.segmentId (.vectorData encoded.written)
  fallible (.syncVectors batch.embeddingSpaceId batch.codecId)
  registerSegment batch.segmentId .vectorData root batch.vectors.length .none

/-- The batch leaves the map before anything in it is encoded. -/
def flushBatchAt (key : BatchKey) : Engine Unit := do
  let handle ← Command.get
  match handle.batch key with
  | none => lift .panic
  | some batch => do
      Command.modify fun handle => { handle with
        pendingVectorBatches := handle.pendingVectorBatches.filter fun entry => entry.1 ≠ key }
      if batch.vectors = [] then return ()
      else flushPendingBatch batch

def flushPendingVectorBatches : Engine Unit := do
  let handle ← Command.get
  forEach (handle.pendingVectorBatches.map Prod.fst) flushBatchAt

/-! ### Texts -/

/-- What the write phase hands to the publish phase. `textBatches` keeps the flushed batches, for
the statements only. -/
structure PreparedCommit where
  body : FooterBody
  vectorsChanged : Bool := false
  textBatches : List (TextSpaceId × PendingFrames) := []

def FooterBody.textRootsOf (body : FooterBody) (textSpaceId : TextSpaceId) : TextRoots :=
  (valueAt UInt32.toNat textSpaceId body.textRoots).getD {}

def appendTextSegment (point : IoPoint) (segmentType : SegmentType) (itemCount : Nat)
    (textSpaceId : TextSpaceId) : Engine Unit := do
  let _ ← appendRegisteredSegment point segmentType itemCount (.text textSpaceId)
  return ()

/-- The pending batch leaves the map, and the state takes it in, before its segments are built. -/
def flushPendingText (prepared : PreparedCommit) (textSpaceId : TextSpaceId) :
    Engine PreparedCommit := do
  let handle ← Command.get
  match valueAt UInt32.toNat textSpaceId handle.texts with
  | none => lift .panic
  | some text =>
      if text.pending = [] then return prepared
      else do
        let built := buildFlushOutput text.pending text.state
        let taken := { text with state := built.1, pending := [] }
        Command.modify fun handle => handle.setText textSpaceId taken
        let out ← lift built.2
        appendTextSegment (.appendTermDictionary textSpaceId) .termDictionary
          out.termDictSegment.length textSpaceId
        appendTextSegment (.appendPostings textSpaceId) .postings
          out.postingsSegment.entries.length textSpaceId
        appendTextSegment (.appendDocStats textSpaceId) .docStats out.docStatsSegment.length
          textSpaceId
        let (file, roots) := TextHandle.appendFlush text.file
          (prepared.body.textRootsOf textSpaceId) out
        Command.modify fun handle => handle.setText textSpaceId { taken with file := file }
        return { prepared with
          body := { prepared.body with
            textRoots := store UInt32.toNat textSpaceId roots prepared.body.textRoots }
          textBatches := prepared.textBatches ++ [(textSpaceId, text.pending)] }

def flushPendingTextIndexes (prepared : PreparedCommit) : Engine PreparedCommit := do
  let handle ← Command.get
  foldEach (handle.texts.map Prod.fst) prepared flushPendingText

/-! ### Catalog tables -/

def CatalogTableKind.segmentType : CatalogTableKind → SegmentType
  | .segment => .segmentRegistry
  | .collection => .collectionCatalog
  | .frame => .frameCatalog
  | .textSpace => .textSpaceCatalog
  | .analyzer => .analyzerCatalog
  | .fieldSchema => .fieldSchemaCatalog
  | .retrievalProfile => .retrievalProfileCatalog
  | .embeddingSpace => .embeddingSpaceCatalog
  | .codec => .codecCatalog
  | .vector => .vectorCatalog
  | .fusionProfile => .fusionProfileCatalog

/-- Frames have a columnar encoding of their own. -/
def encodeCatalogDelta : (kind : CatalogTableKind) → Option SegmentPlace → List kind.Row →
    Result SegmentContent
  | .frame, previous, frames => do
      let columns ← encodeFrameCatalog frames
      return .frameColumns ⟨previous, columns⟩
  | kind, previous, rows => return .delta kind ⟨previous, rows⟩

def ValiseFile.dirtyRows (handle : ValiseFile) (kind : CatalogTableKind) : List kind.Row :=
  dirtyRecords kind.rowId (handle.tables kind) (handle.dirtyIds kind)

def FooterBody.withRoot (body : FooterBody) (kind : CatalogTableKind) (root : SegmentPlace) :
    FooterBody :=
  { body with roots := Function.update body.roots kind (some root) }

def flushCatalogTable (body : FooterBody) (kind : CatalogTableKind) : Engine FooterBody := do
  let handle ← Command.get
  if handle.dirtyIds kind = [] then return body
  else do
    fallible (.encodeTable kind)
    let content ← lift (encodeCatalogDelta kind (body.roots kind) (handle.dirtyRows kind))
    let root ← appendRegisteredSegment (.appendTable kind) kind.segmentType
      (handle.dirtyRows kind).length content
    return body.withRoot kind root

/-! ### Collection filters and the time index -/

namespace ValiseFile

def activeFrames (handle : ValiseFile) : List FrameDesc :=
  (handle.tables .frame).filter fun frame => frame.status = .active

def activeVectors (handle : ValiseFile) : List VectorDesc :=
  (handle.tables .vector).filter fun vector => vector.status = .active

def collectionFrames (handle : ValiseFile) (collectionId : CollectionId) : List FrameId :=
  (handle.activeFrames.filter fun frame => frame.collectionId = collectionId).map FrameDesc.frameId

def collectionVectors (handle : ValiseFile) (collectionId : CollectionId) : List VectorId :=
  (handle.activeVectors.filter fun vector => vector.collectionId = collectionId).map
    VectorDesc.vectorId

/-- The collections of the dirty frames and vectors, in id order. -/
def dirtyFilterCollections (handle : ValiseFile) : List CollectionId :=
  (upsertAll UInt32.toNat [] ((handle.dirtyRows .frame).map FrameDesc.collectionId ++
    (handle.dirtyRows .vector).map VectorDesc.collectionId))

def timeIndexEntries (handle : ValiseFile) : List TimeIndexEntry :=
  (handle.activeFrames.map fun frame =>
    (⟨frame.frameId, frame.collectionId, frame.createdAt, frame.updatedAt⟩ : TimeIndexEntry)).insertionSort
      fun first second => first.createdAt.toInt < second.createdAt.toInt ∨
        first.createdAt.toInt = second.createdAt.toInt ∧ first.frameId.toNat ≤ second.frameId.toNat

end ValiseFile

/-- The ids are delta- or run-encoded; the end of a run has to fit a word. -/
def checkFilterIds (label : String) (ids : List UInt64) : Result Unit := do
  Outcome.ensure ((ids.map UInt64.toNat).IsChain (· < ·)) (.format
    s!"CollectionFilterSegment {label}_ids must be strictly sorted ascending")
  Outcome.ensure (∀ id ∈ ids.map UInt64.toNat, id + 1 < 2 ^ 64) (.format
    "CollectionFilterSegment run end overflow")
  Outcome.ensure (ids.length < 2 ^ 32) (.format s!"CollectionFilterSegment {label} count overflow")

def writeCollectionFilterSegment (body : FooterBody) (collectionId : CollectionId) :
    Engine FooterBody := do
  let handle ← Command.get
  let frameIds := handle.collectionFrames collectionId
  let vectorIds := handle.collectionVectors collectionId
  lift (checkFilterIds "frame" frameIds)
  lift (checkFilterIds "vector" vectorIds)
  let root ← appendRegisteredSegment (.appendFilter collectionId) .collectionFilter
    (frameIds.length + vectorIds.length) (.collectionFilter collectionId frameIds vectorIds)
  Command.modify fun handle => { handle with
    collectionFilterCache := store UInt32.toNat collectionId (frameIds, vectorIds)
      handle.collectionFilterCache }
  return { body with
    collectionFilterRoots := store UInt32.toNat collectionId root body.collectionFilterRoots }

def writeTimeIndexSegment (body : FooterBody) : Engine FooterBody := do
  let handle ← Command.get
  if handle.dirtyIds .frame = [] then return body
  else do
    let entries ← lift (encodeTimeIndexSegment handle.timeIndexEntries)
    let root ← appendRegisteredSegment .appendTimeIndex .timeIndex entries.length
      (.timeIndex entries)
    Command.modify fun handle => { handle with timeIndexCache := entries }
    return { body with timeIndexRoot := some root }

/-- The registry is rooted by the footer and does not list its own segments. -/
def flushSegmentRegistry (body : FooterBody) : Engine FooterBody := do
  let handle ← Command.get
  if handle.dirtyIds .segment = [] then return body
  else do
    fallible (.encodeTable .segment)
    let segmentId ← allocateSegmentId
    let root ← appendSegmentAtEnd (.appendTable .segment) segmentId
      (.delta .segment ⟨body.roots .segment, handle.dirtyRows .segment⟩)
    return body.withRoot .segment root

/-! ### The two phases of a commit -/

namespace ValiseFile

def writeCatalogSegments : Engine PreparedCommit := do
  let handle ← Command.get
  let prepared ← flushPendingTextIndexes { body := handle.footer }
  let body ← foldEach CatalogTableKind.flushOrder prepared.body flushCatalogTable
  let handle ← Command.get
  let body ← foldEach handle.dirtyFilterCollections body writeCollectionFilterSegment
  let body ← writeTimeIndexSegment body
  let body ← flushSegmentRegistry body
  let handle ← Command.get
  return { prepared with
    body := { body with idAllocator := handle.idAllocator }
    vectorsChanged := handle.dirtyIds .vector ≠ [] ∨ handle.dirtyIds .codec ≠ [] ∨
      handle.dirtyIds .embeddingSpace ≠ [] }

/-- Once the header is written the file names the new footer, whatever happens next. -/
def commitPhaseWrites : Engine PreparedCommit := do
  fallible .writerLock
  flushPendingPayloads
  flushPendingVectorBatches
  let prepared ← writeCatalogSegments
  fallible .encodeFooter
  fallible .staleInode
  fallible .appendFooter
  fallible .publishCoordination
  fallible .writeHeader
  Command.modify fun handle => { handle with published := prepared.body }
  return prepared

/-- Every active vector is looked up in its segment, which has to be registered. -/
def checkVectorBase (handle : ValiseFile) (vector : VectorDesc) : Result Unit :=
  match find (CatalogTableKind.rowId .segment) vector.dataSegmentId.toNat
      (handle.tables .segment) with
  | none => .err (.integrity
      s!"build_vector_base_ptrs: segment {vector.dataSegmentId} not in registry")
  | some entry =>
      match find (CatalogTableKind.rowId .embeddingSpace) vector.embeddingSpaceId.toNat
          (handle.tables .embeddingSpace) with
      | none => .err (.integrity
          s!"build_vector_base_ptrs: embedding_space {vector.embeddingSpaceId} missing")
      | some space =>
          match space.primaryCodecId with
          | none => .err (.integrity
              s!"build_vector_base_ptrs: embedding_space {vector.embeddingSpaceId} has no primary_codec_id")
          | some codecId =>
              match valueAt UInt32.toNat codecId handle.codecCache with
              | none => .err (.integrity
                  s!"build_vector_base_ptrs: codec {codecId} missing from cache")
              | some _ =>
                  match handle.file[entry.root.place]?.map StoredSegment.content with
                  | some (.vectorData items) =>
                      Outcome.ensure (vector.ordinalInSegment < items.length) (.format
                        s!"vector ordinal {vector.ordinalInSegment} out of range")
                  | _ => .err (.integrity "segment type mismatch")

def buildVectorBasePtrs (handle : ValiseFile) : List VectorDesc → Result Unit
  | [] => return ()
  | vector :: vectors => do
      checkVectorBase handle vector
      buildVectorBasePtrs handle vectors

/-- The new roots of the text spaces become the current ones. -/
def publishTexts (prepared : PreparedCommit) (texts : List (TextSpaceId × TextHandle)) :
    List (TextSpaceId × TextHandle) :=
  texts.map fun (textSpaceId, text) => (textSpaceId, { text with
    roots := prepared.body.textRootsOf textSpaceId
    flushed := text.flushed ++
      ((prepared.textBatches.filter fun batch => batch.1 = textSpaceId).map Prod.snd) })

def commitPhasePublish (prepared : PreparedCommit) : Engine Unit := do
  Command.modify fun handle => { handle with
    footer := prepared.body
    texts := publishTexts prepared handle.texts
    dirtyIds := fun _ => []
    dirty := false }
  fallible .remap
  let handle ← Command.get
  if prepared.vectorsChanged then lift (buildVectorBasePtrs handle handle.activeVectors)
  else return ()

/-- Whether anything changed. -/
def commit : Engine Bool := do
  let handle ← Command.get
  if handle.dirty then do
    let prepared ← commitPhaseWrites
    fallible .commitFsync
    commitPhasePublish prepared
    return true
  else return false

end ValiseFile

end Valise
