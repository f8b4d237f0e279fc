import Valise.Commit

/-!
What an open rebuilds from the segments and the footer that the header names: the catalog tables
from their delta chains, the caches, the text states and the segment registry.
-/

namespace Valise

open ByteLists Chains DeltaTables Outcomes SortedTables

namespace StoredFile

def decodeFrameDelta (link : Link SegmentPlace (Option FrameColumns)) :
    Option (Link SegmentPlace (List FrameDesc)) :=
  (decodeFrameCatalog link.content).toOption.map fun frames => ⟨link.previous, frames⟩

/-- One link of a table's chain. Frames have a columnar encoding of their own. -/
def decodeDelta : (kind : CatalogTableKind) → SegmentContent →
    Option (Link SegmentPlace (List kind.Row))
  | .frame, .frameColumns link => decodeFrameDelta link
  | kind, .delta other link =>
      if same : other = kind ∧ other ≠ .frame then some (same.1 ▸ link) else none
  | _, _ => none

def readDelta (file : StoredFile) (kind : CatalogTableKind) (root : SegmentPlace) :
    Option (Link SegmentPlace (List kind.Row)) :=
  (file.readSegment root).bind (decodeDelta kind)

end StoredFile

/-- A later row replaces an earlier one; a lone delta is only sorted. -/
def readCatalogChainDedup (kind : CatalogTableKind) : List (List kind.Row) → List kind.Row
  | [delta] => delta.insertionSort fun first second => kind.rowId first ≤ kind.rowId second
  | deltas => replay kind.rowId deltas

/-- Deltas come oldest first. Frames are taken newest first, keeping what is already there. -/
def foldDeltas : (kind : CatalogTableKind) → List (List kind.Row) → List kind.Row
  | .frame, deltas => replayNewestFirst (CatalogTableKind.rowId .frame) deltas.reverse
  | .collection, deltas => replay (CatalogTableKind.rowId .collection) deltas
  | .segment, deltas => replay (CatalogTableKind.rowId .segment) deltas
  | kind, deltas => readCatalogChainDedup kind deltas

def readTable (file : StoredFile) (body : FooterBody) (kind : CatalogTableKind) :
    Result (List kind.Row) :=
  match walk (file.readDelta kind) file.length (body.roots kind) with
  | none => .err (.format "catalog segment does not decode")
  | some deltas => return foldDeltas kind deltas

def readTables (file : StoredFile) (body : FooterBody) : Result Tables := do
  let collections ← readTable file body .collection
  let frames ← readTable file body .frame
  let textSpaces ← readTable file body .textSpace
  let analyzers ← readTable file body .analyzer
  let fieldSchemas ← readTable file body .fieldSchema
  let retrievalProfiles ← readTable file body .retrievalProfile
  let embeddingSpaces ← readTable file body .embeddingSpace
  let codecs ← readTable file body .codec
  let vectors ← readTable file body .vector
  let fusionProfiles ← readTable file body .fusionProfile
  let segments ← readTable file body .segment
  return fun
    | .segment => segments
    | .collection => collections
    | .frame => frames
    | .textSpace => textSpaces
    | .analyzer => analyzers
    | .fieldSchema => fieldSchemas
    | .retrievalProfile => retrievalProfiles
    | .embeddingSpace => embeddingSpaces
    | .codec => codecs
    | .vector => vectors
    | .fusionProfile => fusionProfiles

/-! ### Ids -/

namespace IdAllocator

/-- The next id of a kind of row. -/
def counter (ids : IdAllocator) : CatalogTableKind → Nat
  | .segment => ids.nextSegmentId.toNat
  | .collection => ids.nextCollectionId.toNat
  | .frame => ids.nextFrameId.toNat
  | .textSpace => ids.nextTextSpaceId.toNat
  | .analyzer => ids.nextAnalyzerId.toNat
  | .fieldSchema => ids.nextFieldSchemaId.toNat
  | .retrievalProfile => ids.nextRetrievalProfileId.toNat
  | .embeddingSpace => ids.nextEmbeddingSpaceId.toNat
  | .codec => ids.nextCodecId.toNat
  | .vector => ids.nextVectorId.toNat
  | .fusionProfile => ids.nextFusionProfileId.toNat

def setCounter (ids : IdAllocator) (next : Nat) : CatalogTableKind → IdAllocator
  | .segment => { ids with nextSegmentId := UInt64.ofNat next }
  | .collection => { ids with nextCollectionId := UInt32.ofNat next }
  | .frame => { ids with nextFrameId := UInt64.ofNat next }
  | .textSpace => { ids with nextTextSpaceId := UInt32.ofNat next }
  | .analyzer => { ids with nextAnalyzerId := UInt32.ofNat next }
  | .fieldSchema => { ids with nextFieldSchemaId := UInt32.ofNat next }
  | .retrievalProfile => { ids with nextRetrievalProfileId := UInt32.ofNat next }
  | .embeddingSpace => { ids with nextEmbeddingSpaceId := UInt32.ofNat next }
  | .codec => { ids with nextCodecId := UInt32.ofNat next }
  | .vector => { ids with nextVectorId := UInt64.ofNat next }
  | .fusionProfile => { ids with nextFusionProfileId := UInt32.ofNat next }

end IdAllocator

/-- Ids are 64 or 32 bits wide. -/
def CatalogTableKind.idLimit : CatalogTableKind → Nat
  | .segment => 2 ^ 64
  | .frame => 2 ^ 64
  | .vector => 2 ^ 64
  | _ => 2 ^ 32

/-- The open expects every stored id to be valid. -/
def observeIds (kind : CatalogTableKind) : List Nat → IdAllocator → Result IdAllocator
  | [], ids => return ids
  | id :: rest, ids =>
      if id = 0 ∨ kind.idLimit ≤ id + 1 then .panic
      else observeIds kind rest
        (if ids.counter kind < id + 1 then ids.setCounter (id + 1) kind else ids)

def observeCatalogIds (tables : Tables) : List CatalogTableKind → IdAllocator → Result IdAllocator
  | [], ids => return ids
  | kind :: kinds, ids => do
      let ids ← observeIds kind ((tables kind).map kind.rowId) ids
      observeCatalogIds tables kinds ids

/-! ### Caches -/

def loadCodec (file : StoredFile) (codec : CodecDesc) : Result CodecParams :=
  match file.readSegment codec.paramsRef with
  | some (.codecParams params) =>
      if params.family = codec.family ∧ params.encode = .ok () then do
        params.instantiate
        return params
      else .err (.unsupported s!"build_codec_cache: codec {codec.codecId}")
  | _ => .err (.format "segment type mismatch")

def buildCodecCache (file : StoredFile) : List CodecDesc → List (CodecId × CodecParams) →
    Result (List (CodecId × CodecParams))
  | [], cache => return cache
  | codec :: codecs, cache => do
      let params ← loadCodec file codec
      buildCodecCache file codecs (store UInt32.toNat codec.codecId params cache)

def loadAnalyzer (analyzers : List AnalyzerDesc) (space : TextSpaceDesc) : Result AnalyzerDesc :=
  match find (CatalogTableKind.rowId .analyzer) space.analyzerId.toNat analyzers with
  | none => .err (.integrity
      s!"text_space {space.textSpaceId} references unknown analyzer_id {space.analyzerId}")
  | some analyzer => do
      analyzer.build
      return analyzer

def buildAnalyzerCache (analyzers : List AnalyzerDesc) : List TextSpaceDesc →
    List (TextSpaceId × AnalyzerDesc) → Result (List (TextSpaceId × AnalyzerDesc))
  | [], cache => return cache
  | space :: spaces, cache => do
      let analyzer ← loadAnalyzer analyzers space
      buildAnalyzerCache analyzers spaces (store UInt32.toNat space.textSpaceId analyzer cache)

def rebuildAllTextSpaceStates (files : TextSpaceId → TextFile) (body : FooterBody) :
    List TextSpaceDesc → List (TextSpaceId × TextSpaceState) →
    Result (List (TextSpaceId × TextSpaceState))
  | [], states => return states
  | space :: spaces, states =>
      match rebuildTextSpaceState (files space.textSpaceId) (body.textRootsOf space.textSpaceId) with
      | none => .err (.format "text segment does not decode")
      | some state => rebuildAllTextSpaceStates files body spaces
          (store UInt32.toNat space.textSpaceId state states)

def loadCollectionFilterCache (file : StoredFile) : List (CollectionId × SegmentPlace) →
    List (CollectionId × List FrameId × List VectorId) →
    Result (List (CollectionId × List FrameId × List VectorId))
  | [], cache => return cache
  | (_, root) :: roots, cache =>
      match file.readSegment root with
      | some (.collectionFilter collectionId frameIds vectorIds) =>
          loadCollectionFilterCache file roots
            (store UInt32.toNat collectionId (frameIds, vectorIds) cache)
      | _ => .err (.format "segment type mismatch")

def loadTimeIndexCache (file : StoredFile) : Option SegmentPlace → Result (List TimeIndexEntry)
  | none => return []
  | some root =>
      match file.readSegment root with
      | some (.timeIndex entries) => return entries
      | _ => .err (.format "segment type mismatch")

structure OpenState where
  tables : Tables
  frameStubs : List FrameStub
  idAllocator : IdAllocator
  codecCache : List (CodecId × CodecParams)
  analyzerCache : List (TextSpaceId × AnalyzerDesc)
  textSpaceStates : List (TextSpaceId × TextSpaceState)
  collectionFilterCache : List (CollectionId × List FrameId × List VectorId)
  timeIndexCache : List TimeIndexEntry

def loadOpenState (file : StoredFile) (textFiles : TextSpaceId → TextFile) (body : FooterBody) :
    Result OpenState := do
  let tables ← readTables file body
  let idAllocator ← observeCatalogIds tables CatalogTableKind.flushOrder body.idAllocator
  let codecCache ← buildCodecCache file (tables .codec) []
  let analyzerCache ← buildAnalyzerCache (tables .analyzer) (tables .textSpace) []
  let textSpaceStates ← rebuildAllTextSpaceStates textFiles body (tables .textSpace) []
  let collectionFilterCache ← loadCollectionFilterCache file body.collectionFilterRoots []
  let timeIndexCache ← loadTimeIndexCache file body.timeIndexRoot
  return {
    frameStubs := (tables .frame).map FrameDesc.stub
    tables, idAllocator, codecCache, analyzerCache, textSpaceStates, collectionFilterCache
    timeIndexCache }

namespace ValiseFile

/-- What the next open of the file makes of it. -/
def opened (handle : ValiseFile) : Result OpenState :=
  loadOpenState handle.file (fun textSpaceId => (handle.textOf textSpaceId).file) handle.published

end ValiseFile

end Valise
