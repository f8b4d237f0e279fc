import Valise.Commit
import Valise.Library.Selection

/-!
Vector search on an open handle: the caches that a commit or the first search builds, the scan of
the sign sketches, and the reranking of the candidates that the scan keeps.
-/

namespace Valise

open Commands Command Outcomes Selections SortedTables

inductive VectorFidelity where
  | lossy
  | full
deriving DecidableEq, Repr

structure VectorSearchQuery where
  embeddingSpaceId : EmbeddingSpaceId
  query : List F32
  k : UInt64
  channelK : Option UInt64
  collectionFilter : Option (List CollectionId)
  fidelity : VectorFidelity
deriving DecidableEq

structure VectorHit (Score : Type) where
  vectorId : VectorId
  frameId : FrameId
  collectionId : CollectionId
  score : Score
deriving DecidableEq

/-- The arithmetic of a codec. A stored row is given by the values that it encodes. -/
structure Kernel (Score : Type) where
  /-- The signs of the rotated query. -/
  querySketch : List F32 → List Bool
  /-- The signs of the row, read from its codes. -/
  signSketch : List F32 → List Bool
  /-- The first rerank, over all candidates. -/
  lossy : VectorMetric → List F32 → List F32 → Score
  /-- The second rerank, over the survivors of the first. -/
  full : VectorMetric → List F32 → List F32 → Score
  /-- The distance to the decoded row. -/
  decoded : VectorMetric → List F32 → List F32 → Score
  sketched : ∀ query, (querySketch query).length = query.length

/-- Where the base bytes of a vector are: the segment in the file and the row in it. -/
structure BasePtr where
  place : Nat
  ordinal : Nat
deriving DecidableEq, Repr

def BasePtr.rank (ptr : BasePtr) : Nat ×ₗ Nat := toLex (ptr.place, ptr.ordinal)

/-- The candidate rows keep 32 bits of the ids. -/
structure VectorBasePtrs where
  ptrs : List (VectorId × BasePtr)
  candidatesBySpace : EmbeddingSpaceId → List (UInt32 × BasePtr)

structure SearchHandle where
  engine : ValiseFile
  vectorByIdCache : List VectorDesc := []
  /-- Absent until a search or a commit builds it. -/
  vectorBase : Option VectorBasePtrs := none

abbrev SearchEngine (α : Type) := Command SearchHandle Error α

def defaultSketchCandidateBudget : Nat := 2048

/-! ### Caches -/

namespace ValiseFile

def basePtr (handle : ValiseFile) (vector : VectorDesc) : Option BasePtr :=
  (find (CatalogTableKind.rowId .segment) vector.dataSegmentId.toNat (handle.tables .segment)).map
    fun entry => ⟨entry.root.place, vector.ordinalInSegment⟩

def candidateRow (handle : ValiseFile) (space : EmbeddingSpaceId) (vector : VectorDesc) :
    Option (UInt32 × BasePtr) :=
  if vector.embeddingSpaceId = space then
    (handle.basePtr vector).map fun ptr => (vector.vectorId.toUInt32, ptr)
  else none

def vectorBasePtrs (handle : ValiseFile) : VectorBasePtrs where
  ptrs := handle.activeVectors.filterMap fun vector =>
    (handle.basePtr vector).map fun ptr => (vector.vectorId, ptr)
  candidatesBySpace space :=
    (handle.activeVectors.filterMap (handle.candidateRow space)).insertionSort
      fun first second => first.2.rank ≤ second.2.rank

def buildVectorBase (handle : ValiseFile) : Result VectorBasePtrs := do
  handle.buildVectorBasePtrs handle.activeVectors
  return handle.vectorBasePtrs

/-- The base bytes at a pointer, as the values that they encode. -/
def baseAt (handle : ValiseFile) (ptr : BasePtr) : List F32 :=
  match handle.file[ptr.place]?.map StoredSegment.content with
  | some (.vectorData items) => (items[ptr.ordinal]?.map Prod.snd).getD []
  | _ => []

end ValiseFile

def VectorBasePtrs.ptrAt (base : VectorBasePtrs) (vid : UInt32) : Option BasePtr :=
  valueAt UInt64.toNat vid.toUInt64 base.ptrs

namespace SearchHandle

def vectorById (handle : SearchHandle) (vid : UInt32) : Option VectorDesc :=
  find (CatalogTableKind.rowId .vector) vid.toUInt64.toNat handle.vectorByIdCache

end SearchHandle

def onEngine {α : Type} (call : Engine α) : SearchEngine α := fun handle =>
  let (outcome, engine) := call handle.engine
  (outcome, { handle with engine := engine })

def ensureVectorBaseLoaded : SearchEngine VectorBasePtrs := do
  let handle ← Command.get
  match handle.vectorBase with
  | some base => lift (.ok base)
  | none => do
      let base ← lift handle.engine.buildVectorBase
      Command.modify fun handle => { handle with vectorBase := some base }
      return base

/-! ### Reranking -/

section Search

variable {Score : Type} [LinearOrder Score]

structure ScoreItem (Score : Type) where
  score : Score
  vid : UInt32
  ptr : BasePtr

def ScoreItem.before (first second : ScoreItem Score) : Prop :=
  first.score < second.score ∨ first.score = second.score ∧ first.vid ≤ second.vid

instance : DecidableRel (ScoreItem.before : ScoreItem Score → ScoreItem Score → Prop) := fun _ _ =>
  inferInstanceAs (Decidable (_ ∨ _ ∧ _))

def sortItems (items : List (ScoreItem Score)) : List (ScoreItem Score) :=
  items.insertionSort ScoreItem.before

def hamming (first second : List Bool) : Nat :=
  (first.zip second).countP fun bits => bits.1 ≠ bits.2

/-- The ids of the rows whose sketches are closest to the query's. -/
def scanCandidates (kernel : Kernel Score) (handle : ValiseFile) (query : List F32)
    (rows : List (UInt32 × BasePtr)) (budget dimension : Nat) : List UInt32 :=
  selectNearest (dimension + 2) budget (rows.map fun row =>
    (row.1, hamming (kernel.querySketch query) (kernel.signSketch (handle.baseAt row.2))))

namespace VectorSearchQuery

/-- The default budget does not depend on how many vectors there are. -/
def candidatesBudget (query : VectorSearchQuery) (active : Nat) : Nat :=
  min ((query.channelK.map UInt64.toNat).getD
    (max (min (query.k.toNat * 4) (2 ^ 64 - 1)) defaultSketchCandidateBudget)) (max active 1)

/-- The survivors of the first rerank; the product is one of machine words. -/
def poolSize (query : VectorSearchQuery) : Nat :=
  match query.fidelity with
  | .full => (3 * query.k).toNat
  | .lossy => query.k.toNat

def allows (query : VectorSearchQuery) (collectionId : CollectionId) : Prop :=
  ∀ filter, query.collectionFilter = some filter → collectionId ∈ filter

instance (query : VectorSearchQuery) (collectionId : CollectionId) :
    Decidable (query.allows collectionId) :=
  match same : query.collectionFilter with
  | none => isTrue fun _ none => nomatch same.symm.trans none
  | some filter => decidable_of_iff (collectionId ∈ filter) ⟨fun member other found => by
      rwa [← Option.some.inj (same.symm.trans found)], fun allowed => allowed filter same⟩

end VectorSearchQuery

/-- A candidate that the filter lets through. Only with a filter is its row looked up. -/
def rerankCandidate (handle : SearchHandle) (base : VectorBasePtrs) (query : VectorSearchQuery)
    (vid : UInt32) : Option (UInt32 × BasePtr) :=
  match query.collectionFilter with
  | none => (base.ptrAt vid).map fun ptr => (vid, ptr)
  | some filter =>
      match handle.vectorById vid with
      | none => none
      | some desc =>
          if desc.collectionId ∈ filter then (base.ptrAt vid).map fun ptr => (vid, ptr) else none

def topItems (poolSize : Nat) (scored : List (ScoreItem Score)) : List (ScoreItem Score) :=
  let pool := min poolSize scored.length
  if pool < scored.length ∧ 0 < pool then (sortItems scored).take pool else sortItems scored

def makeHits (handle : SearchHandle) (items : List (ScoreItem Score)) : List (VectorHit Score) :=
  items.filterMap fun item => (handle.vectorById item.vid).map fun desc =>
    ⟨desc.vectorId, desc.ownerFrameId, desc.collectionId, item.score⟩

/-- What the codecs check of a query before they rotate it. -/
def CodecParams.prepareQuery (params : CodecParams) (query : List F32) : Result Unit :=
  match params with
  | .qamLloydMax pairs => do
      Outcome.ensure (query.length = pairs.dimension.toNat) (.format
        s!"QamLloydMaxCodec::prepare_query_rotated: dim mismatch (expected {pairs.dimension}, got {query.length})")
      Outcome.ensure (query.all F32.isFinite = true) (.format
        "QamLloydMaxCodec::prepare_query_rotated: non-finite input")
  | .upq rings => Outcome.ensure (query.length = rings.dimension.toNat) (.format
      s!"UpqCodec: query has {query.length} dims, codec expects {rings.dimension}")

/-- Vectors that wait for a commit, or a space without a codec, stop a search. -/
def searchCodec (space : EmbeddingSpaceDesc) (query : VectorSearchQuery) (noPrimary : String)
    (missing : CodecId → String) : SearchEngine CodecParams := do
  let handle ← Command.get
  lift (Outcome.ensure (∀ entry ∈ handle.engine.pendingVectorBatches,
      entry.1.1 ≠ query.embeddingSpaceId) (.format
    s!"vector_search: embedding_space {query.embeddingSpaceId} has uncommitted vectors; call commit() first"))
  match space.primaryCodecId with
  | none => lift (.err (.integrity noPrimary))
  | some codecId =>
      match valueAt UInt32.toNat codecId handle.engine.codecCache with
      | none => lift (.err (.integrity (missing codecId)))
      | some params => do
          lift (params.prepareQuery query.query)
          return params

section Rerank

variable (kernel : Kernel Score) (handle : SearchHandle) (base : VectorBasePtrs)
  (space : EmbeddingSpaceDesc) (query : VectorSearchQuery) (dimension : Nat)

def candidates : List UInt32 :=
  scanCandidates kernel handle.engine query.query
    (base.candidatesBySpace space.embeddingSpaceId)
    (query.candidatesBudget handle.vectorByIdCache.length) dimension

def scoreOne (score : VectorMetric → List F32 → List F32 → Score)
    (candidate : UInt32 × BasePtr) : ScoreItem Score :=
  ⟨score space.metric query.query (handle.engine.baseAt candidate.2), candidate.1, candidate.2⟩

def rescore (item : ScoreItem Score) : ScoreItem Score :=
  scoreOne handle space query kernel.full (item.vid, item.ptr)

/-- Candidates are scored in the order of their addresses. -/
def sketchThenRerankImpl : List (VectorHit Score) :=
  let slice := ((candidates kernel handle base space query dimension).filterMap
    (rerankCandidate handle base query)).insertionSort fun first second =>
      first.2.rank ≤ second.2.rank
  let top := topItems query.poolSize (slice.map (scoreOne handle space query kernel.lossy))
  match query.fidelity with
  | .full => makeHits handle
      ((sortItems (top.map (rescore kernel handle space query))).take query.k.toNat)
  | .lossy => makeHits handle top

/-- The same for the codec with a decoded cache: candidates are scored in the order of their ids. -/
def upqSketchThenRerank : List (VectorHit Score) :=
  let slice := ((candidates kernel handle base space query dimension).filterMap
    (rerankCandidate handle base query)).insertionSort fun first second => first.1 ≤ second.1
  let top := topItems query.poolSize (slice.map (scoreOne handle space query kernel.lossy))
  match query.fidelity with
  | .full => makeHits handle
      (((sortItems (top.map (rescore kernel handle space query))).take query.k.toNat).take
        query.k.toNat)
  | .lossy => makeHits handle (top.take query.k.toNat)

end Rerank

/-! ### Without a sketch index -/

def sortHits (hits : List (VectorHit Score)) : List (VectorHit Score) :=
  hits.insertionSort fun first second => first.score ≤ second.score

/-- A hit is scored again on its decoded row. -/
def decodeHit (kernel : Kernel Score) (handle : SearchHandle) (metric : VectorMetric)
    (query : List F32) (hit : VectorHit Score) : Result (VectorHit Score) :=
  match find (CatalogTableKind.rowId .vector) hit.vectorId.toNat handle.vectorByIdCache with
  | none => .panic
  | some desc =>
      match handle.engine.basePtr desc with
      | none => .err (.integrity
          s!"vector_search rerank: segment {desc.dataSegmentId} not in registry")
      | some ptr => return { hit with
          score := kernel.decoded metric query (handle.engine.baseAt ptr) }

def decodeHits (kernel : Kernel Score) (handle : SearchHandle) (metric : VectorMetric)
    (query : List F32) : List (VectorHit Score) → Result (List (VectorHit Score))
  | [] => return []
  | hit :: hits => do
      let decoded ← decodeHit kernel handle metric query hit
      let rest ← decodeHits kernel handle metric query hits
      return decoded :: rest

/-- Here the filter is applied before the nearest are kept. -/
def bruteForceHits (kernel : Kernel Score) (handle : SearchHandle) (base : VectorBasePtrs)
    (space : EmbeddingSpaceDesc) (query : VectorSearchQuery) : Result (List (VectorHit Score)) :=
  let k := max query.k 1
  let filtered := (base.candidatesBySpace space.embeddingSpaceId).filter fun row =>
    query.collectionFilter = none ∨
      ((handle.vectorById row.1).any fun desc => query.allows desc.collectionId)
  let scored := filtered.map (scoreOne handle space query kernel.lossy)
  match query.fidelity with
  | .full => do
      let hits ← decodeHits kernel handle space.metric query.query
        (sortHits (makeHits handle ((sortItems scored).take (3 * k).toNat)))
      return (sortHits hits).take k.toNat
  | .lossy => return sortHits (makeHits handle ((sortItems scored).take k.toNat))

variable (kernels : CodecParams → Kernel Score) (base : VectorBasePtrs)
  (space : EmbeddingSpaceDesc) (query : VectorSearchQuery)

def bruteForceVector : SearchEngine (List (VectorHit Score)) := do
  let params ← searchCodec space query
    s!"brute_force_vector: embedding_space {space.embeddingSpaceId} has no primary_codec_id"
    fun codecId => s!"brute_force_vector: codec {codecId} missing from cache"
  let handle ← Command.get
  lift (bruteForceHits (kernels params) handle base space query)

def sketchHits (params : CodecParams) (handle : SearchHandle) : List (VectorHit Score) :=
  match params with
  | .qamLloydMax pairs => sketchThenRerankImpl (kernels params) handle base space query
      pairs.dimension.toNat
  | .upq rings => upqSketchThenRerank (kernels params) handle base space query
      rings.dimension.toNat

def sketchThenRerank : SearchEngine (List (VectorHit Score)) := do
  let params ← searchCodec space query
    s!"vector_search: space {space.embeddingSpaceId} has no primary_codec_id"
    fun codecId => s!"sketch_then_rerank: primary codec {codecId} missing from cache"
  let handle ← Command.get
  return sketchHits kernels base space query params handle

/-- A space has sketches as soon as it has a row. -/
def vectorSearch : SearchEngine (List (VectorHit Score)) := do
  let handle ← Command.get
  match find (CatalogTableKind.rowId .embeddingSpace) query.embeddingSpaceId.toNat
      (handle.engine.tables .embeddingSpace) with
  | none => lift (.err (.format
      s!"vector_search: unknown embedding_space_id {query.embeddingSpaceId}"))
  | some space => do
      lift (Outcome.ensure (query.query.length = space.dimension.toNat) (.format
        s!"vector_search: query has {query.query.length} dims but embedding space {space.embeddingSpaceId} expects {space.dimension}"))
      lift (Outcome.ensure (¬space.dtype.isF8) (.unsupported
        "vector_search: f8 distance kernels land in a follow-up"))
      let base ← ensureVectorBaseLoaded
      if base.candidatesBySpace space.embeddingSpaceId = [] then
        bruteForceVector kernels base space query
      else sketchThenRerank kernels base space query

end Search

end Valise
