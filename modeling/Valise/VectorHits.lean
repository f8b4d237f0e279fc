import Valise.HybridQueries
import Valise.SearchHits
import Valise.VectorRuns

/-!
How many hits a vector search returns, and in which order: the counts that the three searches
compute agree with what was asked for, except without a second rerank and nothing asked for, or
when three times what was asked for does not fit a machine word.
-/

namespace Valise

open Commands Command Outcomes Selections SortedTables

/-- The index holds no vector twice, and only vectors that the cache describes. -/
structure SearchHandle.Coherent (handle : SearchHandle) (base : VectorBasePtrs) : Prop where
  known : ∀ space, ∀ row ∈ base.candidatesBySpace space, (handle.vectorById row.1).isSome
  distinct : ∀ space, ((base.candidatesBySpace space).map Prod.fst).Nodup

def VectorHit.before {Score : Type} [LinearOrder Score] (first second : VectorHit Score) : Prop :=
  first.score < second.score ∨ first.score = second.score ∧ first.vectorId < second.vectorId

/-- As many hits as asked for and available, no vector twice, by score and then by vector. -/
structure RightHits {Score : Type} [LinearOrder Score] (query : VectorSearchQuery)
    (eligible : Nat) (hits : List (VectorHit Score)) : Prop where
  count : hits.length = min query.k.toNat eligible
  distinct : (hits.map VectorHit.vectorId).Nodup
  sorted : hits.Pairwise VectorHit.before

/-- The nearest hits come first, as queries over several channels take them. -/
def RightHits.results {Score : Type} [LinearOrder Score] {query : VectorSearchQuery}
    {eligible : Nat} {hits : List (VectorHit Score)} (right : RightHits query eligible hits) :
    HybridQueries.VectorResults Score where
  hits := hits
  nearest := right.sorted.imp fun before => before.elim le_of_lt fun tied => tied.1.le

/-- Nothing asked for is a bound for the path, and the pool has room for what was asked for. -/
def VectorSearchQuery.CountsRight (query : VectorSearchQuery) (params : CodecParams)
    (eligible : Nat) : Prop :=
  (query.Bounded params ∨ eligible = 0) ∧ min query.k.toNat eligible ≤ query.poolSize

/-! ### Ranked items -/

section Ranking

variable {Score : Type} [LinearOrder Score] {items : List (ScoreItem Score)}

theorem before_total (first second : ScoreItem Score) :
    first.before second ∨ second.before first := by
  unfold ScoreItem.before
  rcases lt_trichotomy first.score second.score with less | same | more
  · exact .inl (.inl less)
  · rcases UInt32.le_total first.vid second.vid with left | right
    · exact .inl (.inr ⟨same, left⟩)
    · exact .inr (.inr ⟨same.symm, right⟩)
  · exact .inr (.inl more)

theorem before_trans {first second third : ScoreItem Score} (left : first.before second)
    (right : second.before third) : first.before third := by
  rcases left with less | ⟨same, near⟩
  · rcases right with further | ⟨equal, -⟩
    · exact .inl (less.trans further)
    · exact .inl (equal ▸ less)
  · rcases right with further | ⟨equal, far⟩
    · exact .inl (same ▸ further)
    · exact .inr ⟨same.trans equal, UInt32.le_trans near far⟩

theorem sortItems_sorted (items : List (ScoreItem Score)) :
    (sortItems items).Pairwise ScoreItem.before := by
  have : Std.Total (ScoreItem.before : ScoreItem Score → ScoreItem Score → Prop) := ⟨before_total⟩
  have : IsTrans (ScoreItem Score) ScoreItem.before := ⟨fun _ _ _ => before_trans⟩
  exact List.pairwise_insertionSort _ items

/-- Items in the order of their scores, no vector twice. -/
structure Ranked (items : List (ScoreItem Score)) : Prop where
  sorted : items.Pairwise ScoreItem.before
  distinct : (items.map ScoreItem.vid).Nodup

theorem ranked_sortItems (distinct : (items.map ScoreItem.vid).Nodup) : Ranked (sortItems items) where
  sorted := sortItems_sorted items
  distinct := by
    have same : (sortItems items).Perm items := List.perm_insertionSort _ items
    exact (same.map ScoreItem.vid).nodup_iff.mpr distinct

theorem Ranked.sublist {fewer : List (ScoreItem Score)} (ranked : Ranked items)
    (among : fewer.Sublist items) : Ranked fewer where
  sorted := ranked.sorted.sublist among
  distinct := ranked.distinct.sublist (among.map ScoreItem.vid)

theorem ranked_topItems (pool : Nat) (distinct : (items.map ScoreItem.vid).Nodup) :
    Ranked (topItems pool items) := by
  dsimp only [topItems]
  split
  · exact (ranked_sortItems distinct).sublist (List.take_sublist _ _)
  · exact ranked_sortItems distinct

/-- With an empty pool nothing is left out. -/
theorem topItems_zero (items : List (ScoreItem Score)) : topItems 0 items = sortItems items := by
  simp [topItems]

end Ranking

theorem keepWithin_sublist {α : Type} (limit room : Nat) (items : List (α × Nat)) :
    (keepWithin limit room items).Sublist (items.map Prod.fst) := by
  induction items generalizing room with
  | nil => exact .slnil
  | cons entry rest ih =>
      obtain ⟨item, distance⟩ := entry
      simp only [keepWithin, List.map_cons]
      split
      · exact (ih room).cons_cons item
      · split
        · exact (ih (room - 1)).cons_cons item
        · exact (ih room).cons item

theorem selectNearest_sublist {α : Type} (bins budget : Nat) (items : List (α × Nat)) :
    (selectNearest bins budget items).Sublist (items.map Prod.fst) :=
  keepWithin_sublist _ _ items

section Search

variable {Score : Type} [LinearOrder Score] {handle : SearchHandle} {base : VectorBasePtrs}
  {space : EmbeddingSpaceDesc} {query : VectorSearchQuery} {params : CodecParams}

theorem rerankCandidate_vid {vid : UInt32} {row : UInt32 × BasePtr}
    (found : rerankCandidate handle base query vid = some row) : row.1 = vid := by
  have pointed : ∀ row, (base.ptrAt vid).map (fun ptr => (vid, ptr)) = some row → row.1 = vid := by
    intro row found
    obtain ⟨ptr, -, rfl⟩ := Option.map_eq_some_iff.mp found
    rfl
  unfold rerankCandidate at found
  split at found
  · exact pointed row found
  · split at found
    · exact nomatch found
    · split at found
      · exact pointed row found
      · exact nomatch found

omit [LinearOrder Score] in
/-- The eligible candidates are rows of the index, each at most once. -/
theorem reranked_sublist (kernel : Kernel Score) (dimension : Nat) :
    ((reranked kernel base space query dimension handle).map Prod.fst).Sublist
      ((base.candidatesBySpace space.embeddingSpaceId).map Prod.fst) := by
  have kept : (candidates kernel handle base space query dimension).Sublist
      ((base.candidatesBySpace space.embeddingSpaceId).map Prod.fst) := by
    refine (selectNearest_sublist _ _ _).trans ?_
    rw [List.map_map]
    exact List.Sublist.refl _
  unfold reranked
  refine List.Sublist.trans ?_ kept
  generalize candidates kernel handle base space query dimension = vids
  induction vids with
  | nil => exact .slnil
  | cons vid rest ih =>
      cases found : rerankCandidate handle base query vid with
      | none =>
          rw [List.filterMap_cons_none found]
          exact ih.cons vid
      | some row =>
          rw [List.filterMap_cons_some found, List.map_cons, rerankCandidate_vid found]
          exact ih.cons_cons vid

omit [LinearOrder Score] in
theorem scoreOne_vids (rows : List (UInt32 × BasePtr))
    (score : VectorMetric → List F32 → List F32 → Score) :
    (rows.map (scoreOne handle space query score)).map ScoreItem.vid = rows.map Prod.fst := by
  rw [List.map_map]
  exact List.map_congr_left fun _ _ => rfl

omit [LinearOrder Score] in
theorem rescore_vids (kernel : Kernel Score) (items : List (ScoreItem Score)) :
    (items.map (rescore kernel handle space query)).map ScoreItem.vid =
      items.map ScoreItem.vid := by
  rw [List.map_map]
  exact List.map_congr_left fun _ _ => rfl

/-- How many hits the search returns for so many eligible candidates. -/
def VectorSearchQuery.returned (query : VectorSearchQuery) (params : CodecParams)
    (eligible : Nat) : Nat :=
  match query.fidelity, params with
  | .lossy, .qamLloydMax _ => if query.k = 0 then eligible else min query.k.toNat eligible
  | .lossy, .upq _ => min query.k.toNat eligible
  | .full, _ => min query.k.toNat (min query.poolSize eligible)

theorem returned_eq_iff (eligible : Nat) :
    query.returned params eligible = min query.k.toNat eligible ↔
      query.CountsRight params eligible := by
  have positive : query.k ≠ 0 ↔ 0 < query.k := UInt64.pos_iff_ne_zero.symm
  cases fidelity : query.fidelity with
  | full =>
      simp only [VectorSearchQuery.returned, VectorSearchQuery.CountsRight,
        VectorSearchQuery.Bounded, fidelity, true_or, or_true, true_and]
      omega
  | lossy =>
      have pool : query.poolSize = query.k.toNat := by
        rw [VectorSearchQuery.poolSize, fidelity]
      cases params with
      | upq rings =>
          simp [VectorSearchQuery.returned, VectorSearchQuery.CountsRight,
            VectorSearchQuery.Bounded, fidelity, pool, CodecParams.family]
      | qamLloydMax pairs =>
          by_cases zero : query.k = 0
          · simp [VectorSearchQuery.returned, VectorSearchQuery.CountsRight,
              VectorSearchQuery.Bounded, fidelity, pool, CodecParams.family, zero]
          · simp [VectorSearchQuery.returned, VectorSearchQuery.CountsRight,
              VectorSearchQuery.Bounded, fidelity, pool, zero, positive.mp zero]

/-- The items that the hits are made from: ranked, eligible, and so many. -/
structure Selected (rows : List (UInt32 × BasePtr)) (query : VectorSearchQuery)
    (params : CodecParams) (items : List (ScoreItem Score)) : Prop where
  ranked : Ranked items
  among : ∀ item ∈ items, item.vid ∈ rows.map Prod.fst
  length : items.length = query.returned params rows.length

section Paths

variable (handle space) {slice rows : List (UInt32 × BasePtr)} (same : slice.Perm rows)
  (distinct : (rows.map Prod.fst).Nodup) (score : VectorMetric → List F32 → List F32 → Score)

include same distinct

theorem ranked_top : Ranked (topItems query.poolSize
    (slice.map (scoreOne handle space query score))) := by
  refine ranked_topItems _ ?_
  rw [scoreOne_vids]
  exact (same.map Prod.fst).nodup_iff.mpr distinct

theorem selected_rescored (kernel : Kernel Score) (full : query.fidelity = .full) :
    Selected rows query params ((sortItems ((topItems query.poolSize
      (slice.map (scoreOne handle space query score))).map
        (rescore kernel handle space query))).take query.k.toNat) := by
  have chosen := @chosen_rescored _ _ handle query space _ _ same kernel score
  refine ⟨?_, chosen.among, ?_⟩
  · refine (ranked_sortItems ?_).sublist (List.take_sublist _ _)
    rw [rescore_vids]
    exact (ranked_top handle space same distinct score).distinct
  · simp only [chosen.length trivial, VectorSearchQuery.returned, full]

theorem selected_top {pairs : QamLloydMaxParams} (lossy : query.fidelity = .lossy) :
    Selected rows query (.qamLloydMax pairs) (topItems query.poolSize
      (slice.map (scoreOne handle space query score))) := by
  have chosen := @chosen_top _ _ handle query space _ _ same score lossy
  have pool : query.poolSize = query.k.toNat := by rw [VectorSearchQuery.poolSize, lossy]
  refine ⟨ranked_top handle space same distinct score, chosen.among, ?_⟩
  simp only [VectorSearchQuery.returned, lossy]
  split
  · next zero =>
      rw [pool, zero, UInt64.toNat_zero, topItems_zero, sortItems_length, List.length_map,
        same.length_eq]
  · next nonzero =>
      rw [chosen.length (UInt64.pos_iff_ne_zero.mpr nonzero), pool, ← min_assoc, min_self]

theorem selected_taken {rings : UpqParams} (lossy : query.fidelity = .lossy) :
    Selected rows query (.upq rings) ((topItems query.poolSize
      (slice.map (scoreOne handle space query score))).take query.k.toNat) := by
  have top := @chosen_top _ _ handle query space _ _ same score lossy
  have pool : query.poolSize = query.k.toNat := by rw [VectorSearchQuery.poolSize, lossy]
  refine ⟨(ranked_top handle space same distinct score).sublist (List.take_sublist _ _),
    fun item member => top.among item (List.mem_of_mem_take member), ?_⟩
  simp only [VectorSearchQuery.returned, lossy, List.length_take]
  by_cases zero : query.k = 0
  · rw [zero, UInt64.toNat_zero, Nat.zero_min, Nat.zero_min]
  · rw [top.length (UInt64.pos_iff_ne_zero.mpr zero), pool]
    omega

end Paths

theorem sketchHits_selected {kernels : CodecParams → Kernel Score}
    (distinct : ((reranked (kernels params) base space query params.dimension.toNat handle).map
      Prod.fst).Nodup) :
    ∃ items : List (ScoreItem Score),
      sketchHits kernels base space query params handle = makeHits handle items ∧
        Selected (reranked (kernels params) base space query params.dimension.toNat handle)
          query params items := by
  cases params with
  | qamLloydMax pairs =>
      have sorted := List.perm_insertionSort
        (fun first second : UInt32 × BasePtr => first.2.rank ≤ second.2.rank)
        (reranked (kernels (.qamLloydMax pairs)) base space query pairs.dimension.toNat handle)
      cases fidelity : query.fidelity with
      | lossy =>
          refine ⟨_, ?_, selected_top handle space sorted distinct (kernels (.qamLloydMax pairs)).lossy fidelity⟩
          simp only [sketchHits, sketchThenRerankImpl, fidelity]
          rfl
      | full =>
          refine ⟨_, ?_, selected_rescored handle space sorted distinct (kernels (.qamLloydMax pairs)).lossy
            (kernels (.qamLloydMax pairs)) fidelity⟩
          simp only [sketchHits, sketchThenRerankImpl, fidelity]
          rfl
  | upq rings =>
      have sorted := List.perm_insertionSort
        (fun first second : UInt32 × BasePtr => first.1 ≤ second.1)
        (reranked (kernels (.upq rings)) base space query rings.dimension.toNat handle)
      cases fidelity : query.fidelity with
      | lossy =>
          refine ⟨_, ?_, selected_taken handle space sorted distinct (kernels (.upq rings)).lossy fidelity⟩
          simp only [sketchHits, upqSketchThenRerank, fidelity]
          rfl
      | full =>
          refine ⟨_, ?_, selected_rescored handle space sorted distinct (kernels (.upq rings)).lossy
            (kernels (.upq rings)) fidelity⟩
          simp only [sketchHits, upqSketchThenRerank, fidelity, List.take_take, min_self]
          rfl

/-- The hits keep the order of the items, and the vectors their ids. -/
theorem makeHits_ranked {items : List (ScoreItem Score)} (ranked : Ranked items)
    (resolve : ∀ item ∈ items, (handle.vectorById item.vid).isSome) :
    ((makeHits handle items).map VectorHit.vectorId) =
        items.map (fun item => item.vid.toUInt64) ∧
      (makeHits handle items).Pairwise VectorHit.before := by
  induction items with
  | nil => exact ⟨rfl, .nil⟩
  | cons item rest ih =>
      obtain ⟨here, later⟩ := List.forall_mem_cons.mp resolve
      obtain ⟨desc, known⟩ := Option.isSome_iff_exists.mp here
      obtain ⟨ahead, sorted⟩ := List.pairwise_cons.mp ranked.sorted
      obtain ⟨apart, distinct⟩ := List.nodup_cons.mp ranked.distinct
      obtain ⟨ids, ordered⟩ := ih ⟨sorted, distinct⟩ later
      have made : makeHits handle (item :: rest) =
          ⟨desc.vectorId, desc.ownerFrameId, desc.collectionId, item.score⟩ ::
            makeHits handle rest := by
        rw [makeHits, List.filterMap_cons, known]
        rfl
      have named : ∀ {item : ScoreItem Score} {desc : VectorDesc},
          handle.vectorById item.vid = some desc → desc.vectorId = item.vid.toUInt64 := by
        intro item desc found
        exact UInt64.toNat_inj.mp (find_some (CatalogTableKind.rowId .vector) found).2
      rw [made]
      refine ⟨by rw [List.map_cons, List.map_cons, ids, named known], ?_⟩
      refine List.pairwise_cons.mpr ⟨fun hit member => ?_, ordered⟩
      obtain ⟨other, inside, otherDesc, found, rfl⟩ := mem_makeHits.mp member
      rcases ahead other inside with less | ⟨equal, near⟩
      · exact .inl less
      · refine .inr ⟨equal, ?_⟩
        have different : item.vid ≠ other.vid := fun same =>
          apart (same ▸ List.mem_map_of_mem inside)
        rw [named known, named found, UInt64.lt_iff_toNat_lt, UInt32.toNat_toUInt64,
          UInt32.toNat_toUInt64]
        have bound := UInt32.le_iff_toNat_le.mp near
        have apartNat : item.vid.toNat ≠ other.vid.toNat := fun same =>
          different (UInt32.toNat_inj.mp same)
        omega

/-- A search that passes its checks on a coherent index returns its hits once each and in order,
and as many as it should exactly when the counts are right. -/
theorem vectorSearch_right (kernels : CodecParams → Kernel Score)
    (accepts : handle.Accepts query space base params) (coherent : handle.Coherent base) :
    ∃ hits, vectorSearch kernels query handle = (.ok hits, { handle with vectorBase := some base }) ∧
      (RightHits query (reranked (kernels params) base space query params.dimension.toNat
          handle).length hits ↔
        query.CountsRight params (reranked (kernels params) base space query
          params.dimension.toNat handle).length) := by
  have among := @reranked_sublist _ handle base space query (kernels params)
    params.dimension.toNat
  have distinct := (coherent.distinct space.embeddingSpaceId).sublist among
  obtain ⟨items, made, selected⟩ := sketchHits_selected distinct
  have resolve : ∀ item ∈ items, (handle.vectorById item.vid).isSome := by
    intro item member
    obtain ⟨row, inside, same⟩ := List.mem_map.mp (among.subset (selected.among item member))
    rw [← same]
    exact coherent.known _ row inside
  obtain ⟨ids, ordered⟩ := makeHits_ranked selected.ranked resolve
  have counted := makeHits_length resolve
  refine ⟨_, vectorSearch_ok.mpr ⟨space, base, params, accepts, rfl, rfl⟩, ?_⟩
  rw [made, ← returned_eq_iff, ← selected.length]
  constructor
  · intro right
    rw [← counted, right.count]
  · intro right
    refine ⟨by rw [counted, right], ?_, ordered⟩
    rw [ids]
    have wide : Function.Injective fun vid : UInt32 => vid.toUInt64 := by
      intro first second same
      have nats := congrArg UInt64.toNat same
      exact UInt32.toNat_inj.mp (by simpa using nats)
    have mapped := selected.ranked.distinct.map wide
    rwa [List.map_map] at mapped

end Search

/-- After an open or a commit the index and the cache are of the same catalog. -/
def SearchHandle.settled (engine : ValiseFile) : SearchHandle :=
  ⟨engine, engine.activeVectors, some engine.vectorBasePtrs⟩

theorem settled_coherent (engine : ValiseFile) (sound : engine.Sound)
    (small : ∀ vector ∈ engine.activeVectors, vector.vectorId.toNat < 2 ^ 32) :
    (SearchHandle.settled engine).Coherent engine.vectorBasePtrs := by
  have ascending : Ascending (CatalogTableKind.rowId .vector) engine.activeVectors :=
    List.Pairwise.sublist List.filter_sublist (sound.ascending .vector)
  have wide : ∀ vector ∈ engine.activeVectors,
      vector.vectorId.toUInt32.toNat = vector.vectorId.toNat := by
    intro vector member
    rw [UInt64.toNat_toUInt32]
    exact Nat.mod_eq_of_lt (small vector member)
  have placed : ∀ {space vector row}, engine.candidateRow space vector = some row →
      row.1 = vector.vectorId.toUInt32 := by
    intro space vector row found
    unfold ValiseFile.candidateRow at found
    split at found
    · obtain ⟨ptr, -, rfl⟩ := Option.map_eq_some_iff.mp found
      rfl
    · exact nomatch found
  constructor
  · intro space row member
    obtain ⟨vector, inside, found⟩ := List.mem_filterMap.mp ((List.mem_insertionSort _).mp member)
    have held := find_of_mem (CatalogTableKind.rowId .vector) ascending inside
    have key : row.1.toUInt64.toNat = CatalogTableKind.rowId .vector vector := by
      rw [placed found, UInt32.toNat_toUInt64, wide vector inside]
      rfl
    rw [SearchHandle.vectorById, key]
    exact Option.isSome_iff_exists.mpr ⟨vector, held⟩
  · intro space
    have same := List.perm_insertionSort
      (fun first second : UInt32 × BasePtr => first.2.rank ≤ second.2.rank)
      (engine.activeVectors.filterMap (engine.candidateRow space))
    refine (same.map Prod.fst).nodup_iff.mpr ?_
    rw [List.Nodup, List.pairwise_map, List.pairwise_filterMap]
    refine List.Pairwise.imp_of_mem (fun {first second} held alsoHeld before row found other
      alsoFound equal => ?_) ascending
    have rows : first.vectorId.toUInt32.toNat = second.vectorId.toUInt32.toNat := by
      rw [← placed found, ← placed alsoFound, equal]
    rw [wide first held, wide second alsoHeld] at rows
    exact absurd rows (Nat.ne_of_lt before)

/-! ### One vector, and nothing asked for -/

def oneVector : ValiseFile := (onePutCommitted onePoint).handle

/-- Signs and scores of the values as they are, for a file with one vector. -/
def plainKernel : Kernel Nat where
  querySketch query := query.map fun value => decide (value < 0x80000000)
  signSketch row := row.map fun value => decide (value < 0x80000000)
  lossy _ query row := ((query.zip row).map fun pair => (pair.1 ^^^ pair.2).toNat).sum
  full _ query row := ((query.zip row).map fun pair => (pair.1 ^^^ pair.2).toNat).sum
  decoded _ query row := ((query.zip row).map fun pair => (pair.1 ^^^ pair.2).toNat).sum
  sketched _ := List.length_map _

def askFor (k : UInt64) : VectorSearchQuery := ⟨1, onePoint, k, none, none, .lossy⟩

theorem oneVector_coherent : (SearchHandle.settled oneVector).Coherent oneVector.vectorBasePtrs := by
  have kept := VectorSession.reachable_kept onePoint_reachable
  exact settled_coherent oneVector kept.sound (by decide +kernel)

def plane : EmbeddingSpaceDesc :=
  ⟨1, "provider", "model", 2, .l2, false, .f32, some 1, none, 0⟩

theorem oneVector_accepts (k : UInt64) : (SearchHandle.settled oneVector).Accepts (askFor k) plane
    oneVector.vectorBasePtrs twoDims where
  found := by
    simp only [SearchHandle.settled, askFor]
    decide +kernel
  dimensions := rfl
  dtype := by decide +kernel
  base := rfl
  settled := by
    have none : oneVector.pendingVectorBatches = [] := by decide +kernel
    simp [SearchHandle.settled, none]
  codec := by
    have cached : valueAt UInt32.toNat 1 oneVector.codecCache = some twoDims := by decide +kernel
    exact ⟨1, rfl, cached⟩
  prepared := by
    have prepared : twoDims.prepareQuery onePoint = .ok () := by decide +kernel
    exact prepared

theorem oneVector_right : ∃ hits, vectorSearch (fun _ => plainKernel) (askFor 1)
      (SearchHandle.settled oneVector) =
        (.ok hits, { SearchHandle.settled oneVector with vectorBase := some oneVector.vectorBasePtrs }) ∧
    (RightHits (askFor 1) (reranked plainKernel oneVector.vectorBasePtrs plane (askFor 1)
        twoDims.dimension.toNat (SearchHandle.settled oneVector)).length hits ↔
      (askFor 1).CountsRight twoDims (reranked plainKernel oneVector.vectorBasePtrs plane (askFor 1)
        twoDims.dimension.toNat (SearchHandle.settled oneVector)).length) :=
  vectorSearch_right (fun _ => plainKernel) (oneVector_accepts 1) oneVector_coherent

/-- Nothing is asked for, and one vector comes back. -/
theorem askFor_zero : ¬∀ (kernels : CodecParams → Kernel Nat) (handle after : SearchHandle)
    (query : VectorSearchQuery) (space : EmbeddingSpaceDesc) (base : VectorBasePtrs)
    (params : CodecParams) (hits : List (VectorHit Nat)),
    handle.Accepts query space base params → handle.Coherent base →
      vectorSearch kernels query handle = (.ok hits, after) →
        hits.length ≤ query.k.toNat := by
  intro claim
  have bounded := claim (fun _ => plainKernel) (SearchHandle.settled oneVector) _ (askFor 0) plane
    oneVector.vectorBasePtrs twoDims _ (oneVector_accepts 0) oneVector_coherent
    (vectorSearch_ok.mpr ⟨plane, oneVector.vectorBasePtrs, twoDims, oneVector_accepts 0, rfl, rfl⟩)
  have counted : (sketchHits (fun _ => plainKernel) oneVector.vectorBasePtrs plane (askFor 0)
      twoDims (SearchHandle.settled oneVector)).length = 1 := by decide +kernel
  rw [counted] at bounded
  exact absurd bounded (by decide)

end Valise
