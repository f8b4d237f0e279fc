import Valise.VectorHits

/-!
How many of a filter's vectors a search finds: the sketches of the whole space are scanned for a
number of the nearest, and only from those does the filter choose.
-/

namespace Valise

namespace FilteredSearches

open Commands Command Outcomes Selections SortedTables

/-- A file after a commit or an open: the rows of vectors are by their ids, the cache has the active
ones, and the index builds; it may be loaded already. -/
structure Committed (handle : SearchHandle) : Prop where
  rows : Ascending (CatalogTableKind.rowId .vector) (handle.engine.tables .vector)
  cached : handle.vectorByIdCache = handle.engine.activeVectors
  builds : handle.engine.buildVectorBase = .ok handle.engine.vectorBasePtrs
  loaded : ∀ base, handle.vectorBase = some base → base = handle.engine.vectorBasePtrs

section Counts

variable (engine : ValiseFile) (query : VectorSearchQuery)

/-- The active vectors of the space that the filter lets through. -/
def matching : List VectorDesc :=
  engine.activeVectors.filter fun vector =>
    vector.embeddingSpaceId = query.embeddingSpaceId ∧ query.allows vector.collectionId

/-- How many of them the search is to return. -/
def wanted : Nat := min query.k.toNat (matching engine query).length

/-- A row has 32 bits of an id, and is looked up by them. -/
def named (vid : UInt32) : Bool :=
  engine.activeVectors.any fun vector =>
    vector.vectorId = vid.toUInt64 ∧ query.allows vector.collectionId

variable {Score : Type} (kernel : Kernel Score)

/-- The rows of the space with the distances of their sketches. -/
def sketched : List (UInt32 × Nat) :=
  (engine.vectorBasePtrs.candidatesBySpace query.embeddingSpaceId).map fun row =>
    (row.1, hamming (kernel.querySketch query.query) (kernel.signSketch (engine.baseAt row.2)))

/-- The rows with fewer than the budget's rows ahead of them by sketch, if the filter has what they
name. -/
def reach : Nat :=
  (nearest (query.candidatesBudget engine.activeVectors.length)
    (sketched engine query kernel)).countP (named engine query)

/-- Enough of the filter's vectors are among the nearest by sketch, and the pool of the first rerank
has room for them. The last part holds whenever the ids have 32 bits. -/
structure Reaches : Prop where
  near : wanted engine query ≤ reach engine query kernel
  room : wanted engine query ≤ query.poolSize
  named : (matching engine query).length < query.k.toNat →
    min query.poolSize (reach engine query kernel) ≤ (matching engine query).length

end Counts

theorem hamming_le (first second : List Bool) : hamming first second ≤ first.length := by
  calc hamming first second ≤ (first.zip second).length := List.countP_le_length
    _ ≤ first.length := by rw [List.length_zip]; exact Nat.min_le_left ..

theorem prepareQuery_length {params : CodecParams} {query : List F32}
    (prepared : params.prepareQuery query = .ok ()) : query.length = params.dimension.toNat := by
  cases params with
  | qamLloydMax pairs =>
      simp only [CodecParams.prepareQuery, Outcome.bind_eq_ok, Outcome.ensure_eq_ok] at prepared
      obtain ⟨_, same, _⟩ := prepared
      exact same
  | upq rings =>
      simp only [CodecParams.prepareQuery, Outcome.ensure_eq_ok] at prepared
      exact prepared

section Search

variable {Score : Type} {kernel : Kernel Score} {handle : SearchHandle} {base : VectorBasePtrs}
  {space : EmbeddingSpaceDesc} {query : VectorSearchQuery} {params : CodecParams}

theorem Committed.searched (committed : Committed handle)
    (accepts : handle.Accepts query space base params) : base = handle.engine.vectorBasePtrs := by
  have search := accepts.base
  unfold SearchHandle.searchBase at search
  split at search
  · next other loaded =>
      obtain rfl := Outcome.ok.inj search
      exact committed.loaded _ loaded
  · rw [committed.builds] at search
    exact (Outcome.ok.inj search).symm

theorem Committed.active (committed : Committed handle) :
    Ascending (CatalogTableKind.rowId .vector) handle.engine.activeVectors :=
  List.Pairwise.sublist List.filter_sublist committed.rows

/-- A row is looked up by its id in the cache. -/
theorem Committed.vectorById (committed : Committed handle) {vid : UInt32} {desc : VectorDesc} :
    handle.vectorById vid = some desc ↔
      desc ∈ handle.engine.activeVectors ∧ desc.vectorId = vid.toUInt64 := by
  rw [SearchHandle.vectorById, committed.cached]
  constructor
  · intro found
    obtain ⟨member, key⟩ := find_some _ found
    exact ⟨member, UInt64.toNat_inj.mp key⟩
  · rintro ⟨member, same⟩
    rw [← same]
    exact find_of_mem (CatalogTableKind.rowId .vector) committed.active member

/-- A vector whose segment is registered has a place. -/
theorem checkVectorBase_ptr {engine : ValiseFile} {vector : VectorDesc}
    (checked : engine.checkVectorBase vector = .ok ()) : (engine.basePtr vector).isSome := by
  unfold ValiseFile.checkVectorBase at checked
  unfold ValiseFile.basePtr
  split at checked
  · cases checked
  · next entry found =>
      rw [found]
      rfl

theorem buildVectorBasePtrs_ok {engine : ValiseFile} {vectors : List VectorDesc} :
    engine.buildVectorBasePtrs vectors = .ok () ↔
      ∀ vector ∈ vectors, engine.checkVectorBase vector = .ok () := by
  induction vectors with
  | nil => simp [ValiseFile.buildVectorBasePtrs]
  | cons vector rest ih =>
      simp only [ValiseFile.buildVectorBasePtrs, Outcome.bind_eq_ok, ih, List.forall_mem_cons]
      constructor
      · rintro ⟨_, here, later⟩
        exact ⟨here, later⟩
      · rintro ⟨here, later⟩
        exact ⟨(), here, later⟩

theorem Committed.placed (committed : Committed handle) {vector : VectorDesc}
    (member : vector ∈ handle.engine.activeVectors) :
    (handle.engine.basePtr vector).isSome := by
  have builds := committed.builds
  simp only [ValiseFile.buildVectorBase, Outcome.bind_eq_ok] at builds
  obtain ⟨_, checked, _⟩ := builds
  exact checkVectorBase_ptr (buildVectorBasePtrs_ok.mp checked vector member)

/-- Every active vector is pointed to by its id, and nothing else is. -/
theorem Committed.ptrAt (committed : Committed handle) (vid : UInt32) :
    (handle.engine.vectorBasePtrs.ptrAt vid).isSome ↔
      ∃ vector ∈ handle.engine.activeVectors, vector.vectorId = vid.toUInt64 := by
  unfold VectorBasePtrs.ptrAt valueAt
  rw [Option.isSome_map]
  constructor
  · intro found
    obtain ⟨entry, found⟩ := Option.isSome_iff_exists.mp found
    obtain ⟨member, key⟩ := find_some _ found
    obtain ⟨vector, active, pointed⟩ := List.mem_filterMap.mp member
    obtain ⟨ptr, -, rfl⟩ := Option.map_eq_some_iff.mp pointed
    exact ⟨vector, active, UInt64.toNat_inj.mp key⟩
  · rintro ⟨vector, active, same⟩
    obtain ⟨ptr, placed⟩ := Option.isSome_iff_exists.mp (committed.placed active)
    have entry : (vector.vectorId, ptr) ∈ handle.engine.vectorBasePtrs.ptrs :=
      List.mem_filterMap.mpr ⟨vector, active, by rw [placed, Option.map_some]⟩
    rw [Option.isSome_iff_ne_none]
    intro none
    exact (find_none _).mp none _ entry (congrArg UInt64.toNat same)

theorem named_eq_true {engine : ValiseFile} {vid : UInt32} : named engine query vid = true ↔
    ∃ vector ∈ engine.activeVectors, vector.vectorId = vid.toUInt64 ∧
      query.allows vector.collectionId := by
  simp only [named, List.any_eq_true, decide_eq_true_eq]

/-- A candidate is reranked exactly when its id names an active vector in the filter. -/
theorem Committed.reranks (committed : Committed handle) (vid : UInt32) :
    (rerankCandidate handle handle.engine.vectorBasePtrs query vid).isSome =
      named handle.engine query vid := by
  rw [Bool.eq_iff_iff, named_eq_true]
  unfold rerankCandidate
  split
  · next unfiltered =>
      rw [Option.isSome_map, committed.ptrAt]
      constructor
      · rintro ⟨vector, active, same⟩
        exact ⟨vector, active, same, fun filter some => by rw [unfiltered] at some; cases some⟩
      · rintro ⟨vector, active, same, -⟩
        exact ⟨vector, active, same⟩
  · next filter filtered =>
      split
      · next unknown =>
          constructor
          · intro some
            cases some
          · rintro ⟨vector, active, same, -⟩
            rw [committed.vectorById.mpr ⟨active, same⟩] at unknown
            cases unknown
      · next desc known =>
          obtain ⟨active, same⟩ := committed.vectorById.mp known
          split
          · next inside =>
              rw [Option.isSome_map, committed.ptrAt]
              constructor
              · intro _
                refine ⟨desc, active, same, fun other some => ?_⟩
                rwa [← Option.some.inj (filtered.symm.trans some)]
              · intro _
                exact ⟨desc, active, same⟩
          · next outside =>
              constructor
              · intro some
                cases some
              · rintro ⟨vector, alsoActive, alsoSame, allowed⟩
                have one := committed.vectorById.mpr ⟨alsoActive, alsoSame⟩
                obtain rfl := Option.some.inj (known.symm.trans one)
                exact absurd (allowed filter filtered) outside

/-- The candidates are the nearest of the space by sketch. -/
theorem Committed.candidates (committed : Committed handle)
    (own : space.embeddingSpaceId = query.embeddingSpaceId) {dimension : Nat}
    (prepared : query.query.length = dimension) :
    candidates kernel handle handle.engine.vectorBasePtrs space query dimension =
      nearest (query.candidatesBudget handle.engine.activeVectors.length)
        (sketched handle.engine query kernel) := by
  unfold Valise.candidates scanCandidates
  rw [own, committed.cached]
  refine selectNearest_eq _ fun distance member => ?_
  obtain ⟨item, inside, rfl⟩ := List.mem_map.mp member
  obtain ⟨row, -, rfl⟩ := List.mem_map.mp inside
  have near := hamming_le (kernel.querySketch query.query)
    (kernel.signSketch (handle.engine.baseAt row.2))
  rw [kernel.sketched, prepared] at near
  omega

/-- So many candidates are reranked as the filter has among the nearest. -/
theorem Committed.reranked_length (committed : Committed handle)
    (own : space.embeddingSpaceId = query.embeddingSpaceId) {dimension : Nat}
    (prepared : query.query.length = dimension) :
    (reranked kernel handle.engine.vectorBasePtrs space query dimension handle).length =
      reach handle.engine query kernel := by
  unfold reranked reach
  rw [committed.candidates own prepared, List.length_filterMap_eq_countP]
  exact List.countP_congr fun vid _ => by rw [committed.reranks]

variable [LinearOrder Score] {hits : List (VectorHit Score)}

/-- What a search returns, of a file after a commit or an open. -/
structure Returns (engine : ValiseFile) (query : VectorSearchQuery) (kernel : Kernel Score)
    (hits : List (VectorHit Score)) : Prop where
  count : hits.length = min query.k.toNat (min query.poolSize (reach engine query kernel))
  among : ∀ hit ∈ hits, ∃ vector ∈ engine.activeVectors, hit.vectorId = vector.vectorId ∧
    hit.collectionId = vector.collectionId ∧ query.allows vector.collectionId

theorem Committed.returns (kernels : CodecParams → Kernel Score) (committed : Committed handle)
    (accepts : handle.Accepts query space base params) (positive : 0 < query.k) :
    ∃ hits, vectorSearch kernels query handle = (.ok hits, { handle with vectorBase := some base }) ∧
      Returns handle.engine query (kernels params) hits := by
  obtain rfl := committed.searched accepts
  have own : space.embeddingSpaceId = query.embeddingSpaceId :=
    UInt32.toNat_inj.mp (find_some _ accepts.found).2
  have counted : (reranked (kernels params) handle.engine.vectorBasePtrs space query
      params.dimension.toNat handle).length = reach handle.engine query (kernels params) :=
    committed.reranked_length own (prepareQuery_length accepts.prepared)
  obtain ⟨items, made, chosen⟩ := @sketchHits_chosen _ _ kernels handle query space
    handle.engine.vectorBasePtrs params
  -- Every item has an id that names a vector in the filter.
  have resolved : ∀ item ∈ items, ∃ vector ∈ handle.engine.activeVectors,
      vector.vectorId = item.vid.toUInt64 ∧ query.allows vector.collectionId := by
    intro item member
    obtain ⟨row, inside, same⟩ := List.mem_map.mp (chosen.among item member)
    obtain ⟨vid, -, found⟩ := List.mem_filterMap.mp inside
    rw [← same, rerankCandidate_vid found, ← named_eq_true, ← committed.reranks, found]
    rfl
  refine ⟨_, vectorSearch_ok.mpr ⟨space, _, params, accepts, rfl, rfl⟩, ?_, ?_⟩
  · rw [made, makeHits_length fun item member => ?_, chosen.length (.inl positive), counted]
    obtain ⟨vector, active, same, -⟩ := resolved item member
    rw [committed.vectorById.mpr ⟨active, same⟩]
    rfl
  · intro hit member
    rw [made] at member
    obtain ⟨item, inside, desc, known, rfl⟩ := mem_makeHits.mp member
    obtain ⟨vector, active, same, allowed⟩ := resolved item inside
    obtain rfl := Option.some.inj (known.symm.trans (committed.vectorById.mpr ⟨active, same⟩))
    exact ⟨desc, active, rfl, rfl, allowed⟩

end Search

section Narrow

variable {Score : Type} {engine : ValiseFile} {query : VectorSearchQuery} {kernel : Kernel Score}

end Narrow

end FilteredSearches

end Valise
