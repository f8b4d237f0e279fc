import Valise.VectorSearch

/-!
What a vector search returns: when it succeeds, how many hits it has, and which candidates they
come from.
-/

namespace Valise

open Commands Command Outcomes Selections SortedTables

section Accepted

variable {handle : SearchHandle} {query : VectorSearchQuery} {space : EmbeddingSpaceDesc}
  {base : VectorBasePtrs} {params : CodecParams}

/-- The index that a search uses. -/
def SearchHandle.searchBase (handle : SearchHandle) : Result VectorBasePtrs :=
  match handle.vectorBase with
  | some base => .ok base
  | none => handle.engine.buildVectorBase

/-- The checks of a search pass. -/
structure SearchHandle.Accepts (handle : SearchHandle) (query : VectorSearchQuery)
    (space : EmbeddingSpaceDesc) (base : VectorBasePtrs) (params : CodecParams) : Prop where
  found : find (CatalogTableKind.rowId .embeddingSpace) query.embeddingSpaceId.toNat
    (handle.engine.tables .embeddingSpace) = some space
  dimensions : query.query.length = space.dimension.toNat
  dtype : ¬space.dtype.isF8
  base : handle.searchBase = .ok base
  settled : ∀ entry ∈ handle.engine.pendingVectorBatches, entry.1.1 ≠ query.embeddingSpaceId
  codec : ∃ codecId, space.primaryCodecId = some codecId ∧
    valueAt UInt32.toNat codecId handle.engine.codecCache = some params
  prepared : params.prepareQuery query.query = .ok ()

theorem ensureVectorBaseLoaded_ok {after : SearchHandle} :
    ensureVectorBaseLoaded handle = (.ok base, after) ↔
      handle.searchBase = .ok base ∧ after = { handle with vectorBase := some base } := by
  obtain ⟨engine, byId, loaded⟩ := handle
  cases loaded with
  | some present =>
      change (Outcome.ok present, _) = _ ↔ Outcome.ok present = _ ∧ _
      rw [Prod.mk.injEq]
      constructor
      · rintro ⟨same, rfl⟩
        obtain rfl := Outcome.ok.inj same
        exact ⟨rfl, rfl⟩
      · rintro ⟨same, rfl⟩
        obtain rfl := Outcome.ok.inj same
        exact ⟨rfl, rfl⟩
  | none =>
      change (lift engine.buildVectorBase >>= fun base => _) _ = _ ↔ engine.buildVectorBase = _ ∧ _
      rw [bind_eq_ok]
      constructor
      · rintro ⟨built, middle, lifted, done⟩
        obtain ⟨made, rfl⟩ := lift_eq_ok.mp lifted
        obtain ⟨same, rfl⟩ := Prod.mk.inj done
        obtain rfl := Outcome.ok.inj same
        exact ⟨made, rfl⟩
      · rintro ⟨made, rfl⟩
        exact ⟨base, _, lift_eq_ok.mpr ⟨made, rfl⟩, rfl⟩

theorem searchCodec_ok {noPrimary : String} {missing : CodecId → String} {after : SearchHandle} :
    searchCodec space query noPrimary missing handle = (.ok params, after) ↔
      (∀ entry ∈ handle.engine.pendingVectorBatches, entry.1.1 ≠ query.embeddingSpaceId) ∧
      (∃ codecId, space.primaryCodecId = some codecId ∧
        valueAt UInt32.toNat codecId handle.engine.codecCache = some params) ∧
      params.prepareQuery query.query = .ok () ∧ after = handle := by
  change (lift _ >>= fun _ => _) handle = _ ↔ _
  rw [bind_eq_ok]
  constructor
  · rintro ⟨_, _, checked, done⟩
    obtain ⟨settled, rfl⟩ := lift_eq_ok.mp checked
    refine ⟨Outcome.ensure_eq_ok.mp settled, ?_⟩
    cases primary : space.primaryCodecId with
    | none =>
        rw [primary] at done
        exact nomatch (lift_eq_ok.mp done).1
    | some codecId =>
        simp only [primary] at done
        cases cached : valueAt UInt32.toNat codecId handle.engine.codecCache with
        | none =>
            rw [cached] at done
            exact nomatch (lift_eq_ok.mp done).1
        | some found =>
            simp only [cached] at done
            obtain ⟨_, _, lifted, returned⟩ := bind_eq_ok.mp done
            obtain ⟨prepared, rfl⟩ := lift_eq_ok.mp lifted
            obtain ⟨same, rfl⟩ := Prod.mk.inj returned
            obtain rfl := Outcome.ok.inj same
            exact ⟨⟨codecId, rfl, cached⟩, prepared, rfl⟩
  · rintro ⟨settled, ⟨codecId, primary, cached⟩, prepared, rfl⟩
    refine ⟨(), _, lift_eq_ok.mpr ⟨Outcome.ensure_true _ settled, rfl⟩, ?_⟩
    simp only [primary, cached, bind_eq_ok]
    exact ⟨(), _, lift_eq_ok.mpr ⟨prepared, rfl⟩, rfl⟩

end Accepted

section Items

variable {Score : Type} {handle : SearchHandle} {query : VectorSearchQuery} {condition : Prop}
  {rows : List (UInt32 × BasePtr)} {items : List (ScoreItem Score)}

/-- A hit for each item whose vector is in the cache. -/
theorem makeHits_length 
    (resolve : ∀ item ∈ items, (handle.vectorById item.vid).isSome) :
    (makeHits handle items).length = items.length := by
  induction items with
  | nil => rfl
  | cons item rest ih =>
      obtain ⟨here, later⟩ := List.forall_mem_cons.mp resolve
      obtain ⟨desc, known⟩ := Option.isSome_iff_exists.mp here
      have counted := ih later
      unfold makeHits at counted ⊢
      rw [List.filterMap_cons, known, Option.map_some, List.length_cons, counted, List.length_cons]

theorem mem_makeHits {hit : VectorHit Score} :
    hit ∈ makeHits handle items ↔ ∃ item ∈ items, ∃ desc, handle.vectorById item.vid = some desc ∧
      hit = ⟨desc.vectorId, desc.ownerFrameId, desc.collectionId, item.score⟩ := by
  simp only [makeHits, List.mem_filterMap, Option.map_eq_some_iff, eq_comm (a := hit)]

/-- The items that the hits are made from: some of the reranked candidates, and under the
condition as many as asked for as far as there are. -/
structure Chosen (condition : Prop) (candidates : List (UInt32 × BasePtr))
    (query : VectorSearchQuery) (items : List (ScoreItem Score)) : Prop where
  among : ∀ item ∈ items, item.vid ∈ candidates.map Prod.fst
  length : condition → items.length = min query.k.toNat (min query.poolSize candidates.length)

/-- Nothing asked for is nothing taken. -/
theorem chosen_take (among : ∀ item ∈ items, item.vid ∈ rows.map Prod.fst)
    (length : 0 < query.k →
      min query.k.toNat items.length = min query.k.toNat (min query.poolSize rows.length)) :
    Chosen True rows query (items.take query.k.toNat) where
  among item member := among item (List.mem_of_mem_take member)
  length _ := by
    rw [List.length_take]
    by_cases positive : 0 < query.k
    · exact length positive
    · have zero : query.k.toNat = 0 := by
        rw [UInt64.lt_iff_toNat_lt] at positive
        exact Nat.eq_zero_of_not_pos positive
      rw [zero, Nat.zero_min, Nat.zero_min]

theorem Chosen.weaken {weaker : Prop} (chosen : Chosen condition rows query items)
    (implies : weaker → condition) : Chosen weaker rows query items :=
  ⟨chosen.among, fun holds => chosen.length (implies holds)⟩

end Items

section Hits

variable {Score : Type} [LinearOrder Score] {kernels : CodecParams → Kernel Score}
  {handle after : SearchHandle} {query : VectorSearchQuery} {space : EmbeddingSpaceDesc}
  {base : VectorBasePtrs} {params : CodecParams} {hits : List (VectorHit Score)}
  {slice rows : List (UInt32 × BasePtr)}

theorem bruteForceHits_none {kernel : Kernel Score}
    (none : base.candidatesBySpace space.embeddingSpaceId = []) :
    bruteForceHits kernel handle base space query = .ok [] := by
  simp only [bruteForceHits, none, List.filter_nil, List.map_nil, sortItems,
    List.insertionSort_nil, List.take_nil, makeHits, List.filterMap_nil, sortHits, decodeHits,
    Outcome.pure_eq, Outcome.ok_bind]
  cases query.fidelity with
  | lossy => rfl
  | full => rfl

theorem sketchHits_none (none : base.candidatesBySpace space.embeddingSpaceId = []) :
    sketchHits kernels base space query params handle = [] := by
  have scanned : ∀ kernel : Kernel Score, ∀ dimension,
      candidates kernel handle base space query dimension = [] := by
    intro kernel dimension
    simp only [candidates, scanCandidates, none, List.map_nil, selectNearest, keepWithin]
  cases params <;> cases fidelity : query.fidelity <;>
    simp [sketchHits, sketchThenRerankImpl, upqSketchThenRerank, scanned, fidelity, topItems,
      sortItems, makeHits]

/-- A search succeeds exactly when its checks pass, and returns the reranked candidates. -/
theorem vectorSearch_ok : vectorSearch kernels query handle = (.ok hits, after) ↔
    ∃ space base params, handle.Accepts query space base params ∧
      hits = sketchHits kernels base space query params handle ∧
      after = { handle with vectorBase := some base } := by
  unfold vectorSearch
  rw [get_bind]
  cases found : find (CatalogTableKind.rowId .embeddingSpace) query.embeddingSpaceId.toNat
      (handle.engine.tables .embeddingSpace) with
  | none =>
      constructor
      · intro done
        exact nomatch (lift_eq_ok.mp done).1
      · rintro ⟨space, base, params, accepts, -⟩
        exact nomatch found.symm.trans accepts.found
  | some space =>
      dsimp only
      rw [bind_eq_ok]
      constructor
      · rintro ⟨_, _, checked, rest⟩
        obtain ⟨dimensions, rfl⟩ := lift_eq_ok.mp checked
        obtain ⟨_, _, checked, rest⟩ := bind_eq_ok.mp rest
        obtain ⟨dtype, rfl⟩ := lift_eq_ok.mp checked
        obtain ⟨base, _, loaded, rest⟩ := bind_eq_ok.mp rest
        obtain ⟨built, rfl⟩ := ensureVectorBaseLoaded_ok.mp loaded
        have searched : ∀ {noPrimary missing params middle}, searchCodec space query noPrimary
            missing { handle with vectorBase := some base } = (.ok params, middle) →
            handle.Accepts query space base params ∧
              middle = { handle with vectorBase := some base } := by
          intro noPrimary missing params middle codec
          obtain ⟨settled, cached, prepared, same⟩ := searchCodec_ok.mp codec
          exact ⟨⟨found, Outcome.ensure_eq_ok.mp dimensions, Outcome.ensure_eq_ok.mp dtype, built,
            settled, cached, prepared⟩, same⟩
        split at rest
        · next none =>
            obtain ⟨params, _, codec, rest⟩ := bind_eq_ok.mp rest
            obtain ⟨accepts, rfl⟩ := searched codec
            obtain ⟨brute, rfl⟩ := lift_eq_ok.mp rest
            rw [bruteForceHits_none none] at brute
            refine ⟨space, base, params, accepts, ?_, rfl⟩
            rw [sketchHits_none none, ← Outcome.ok.inj brute]
        · obtain ⟨params, _, codec, rest⟩ := bind_eq_ok.mp rest
          obtain ⟨accepts, rfl⟩ := searched codec
          obtain ⟨same, rfl⟩ := Prod.mk.inj rest
          exact ⟨space, base, params, accepts, (Outcome.ok.inj same).symm, rfl⟩
      · rintro ⟨other, base, params, accepts, rfl, rfl⟩
        obtain rfl := Option.some.inj (found.symm.trans accepts.found)
        have codec : ∀ noPrimary missing, searchCodec space query noPrimary missing
            { handle with vectorBase := some base } =
              (.ok params, { handle with vectorBase := some base }) := fun _ _ =>
          searchCodec_ok.mpr ⟨accepts.settled, accepts.codec, accepts.prepared, rfl⟩
        refine ⟨(), _, lift_eq_ok.mpr ⟨Outcome.ensure_true _ accepts.dimensions, rfl⟩, ?_⟩
        refine bind_eq_ok.mpr ⟨(), _, lift_eq_ok.mpr ⟨Outcome.ensure_true _ accepts.dtype, rfl⟩, ?_⟩
        refine bind_eq_ok.mpr ⟨base, _, ensureVectorBaseLoaded_ok.mpr ⟨accepts.base, rfl⟩, ?_⟩
        split
        · next none =>
            refine bind_eq_ok.mpr ⟨params, _, codec _ _, ?_⟩
            rw [sketchHits_none none]
            exact lift_eq_ok.mpr ⟨bruteForceHits_none none, rfl⟩
        · exact bind_eq_ok.mpr ⟨params, _, codec _ _, rfl⟩

/-- The candidates that the first rerank scores. -/
def reranked (kernel : Kernel Score) (base : VectorBasePtrs) (space : EmbeddingSpaceDesc)
    (query : VectorSearchQuery) (dimension : Nat) (handle : SearchHandle) :
    List (UInt32 × BasePtr) :=
  (candidates kernel handle base space query dimension).filterMap
    (rerankCandidate handle base query)

theorem mem_sortItems {item : ScoreItem Score} {items : List (ScoreItem Score)} :
    item ∈ sortItems items ↔ item ∈ items :=
  List.mem_insertionSort _

@[simp] theorem sortItems_length (items : List (ScoreItem Score)) :
    (sortItems items).length = items.length :=
  List.length_insertionSort _ _

theorem mem_topItems {pool : Nat} {item : ScoreItem Score} {scored : List (ScoreItem Score)}
    (member : item ∈ topItems pool scored) : item ∈ scored := by
  dsimp only [topItems] at member
  split at member
  · exact mem_sortItems.mp (List.mem_of_mem_take member)
  · exact mem_sortItems.mp member

theorem topItems_length {pool : Nat} (positive : 0 < pool) (scored : List (ScoreItem Score)) :
    (topItems pool scored).length = min pool scored.length := by
  dsimp only [topItems]
  split
  · next more => rw [List.length_take, sortItems_length, min_assoc, min_self]
  · next few =>
      rw [sortItems_length]
      omega

/-- Three times a word is zero only for zero, also when it wraps. -/
theorem tripled_pos {word : Nat} (positive : 0 < word) (bounded : word < 2 ^ 64) :
    0 < 3 * word % 2 ^ 64 := by
  refine Nat.pos_of_ne_zero fun zero => ?_
  have apart : Nat.Coprime (2 ^ 64) 3 := by decide
  have divides := apart.dvd_of_dvd_mul_left (Nat.dvd_of_mod_eq_zero zero)
  exact Nat.not_lt_of_le (Nat.le_of_dvd positive divides) bounded

theorem poolSize_pos (positive : 0 < query.k) : 0 < query.poolSize := by
  have known : 0 < query.k.toNat := UInt64.lt_iff_toNat_lt.mp positive
  unfold VectorSearchQuery.poolSize
  split
  · rw [UInt64.toNat_mul]
    exact tripled_pos known query.k.toNat_lt
  · exact known

/-- The survivors of the first rerank of the candidates in some order. -/
theorem chosen_top (same : slice.Perm rows) (score : VectorMetric → List F32 → List F32 → Score)
    (lossy : query.fidelity = .lossy) : Chosen (0 < query.k) rows query
      (topItems query.poolSize (slice.map (scoreOne handle space query score))) where
  among item member := by
    obtain ⟨row, there, rfl⟩ := List.mem_map.mp (mem_topItems member)
    exact List.mem_map_of_mem (same.mem_iff.mp there)
  length positive := by
    rw [topItems_length (poolSize_pos positive), List.length_map, same.length_eq,
      VectorSearchQuery.poolSize, lossy, ← min_assoc, min_self]

/-- Scoring the survivors again drops none but those after the first `k`. -/
theorem chosen_rescored (same : slice.Perm rows) (kernel : Kernel Score)
    (score : VectorMetric → List F32 → List F32 → Score) : Chosen True rows query
      ((sortItems ((topItems query.poolSize (slice.map (scoreOne handle space query score))).map
        (rescore kernel handle space query))).take query.k.toNat) := by
  refine chosen_take (fun item member => ?_) fun positive => ?_
  · obtain ⟨first, there, rfl⟩ := List.mem_map.mp (mem_sortItems.mp member)
    obtain ⟨row, known, rfl⟩ := List.mem_map.mp (mem_topItems there)
    exact List.mem_map_of_mem (f := Prod.fst) (same.mem_iff.mp known)
  · rw [sortItems_length, List.length_map, topItems_length (poolSize_pos positive),
      List.length_map, same.length_eq]

/-- Only a first rerank with no second one and nothing asked for returns more than asked for. -/
def VectorSearchQuery.Bounded (query : VectorSearchQuery) (params : CodecParams) : Prop :=
  0 < query.k ∨ query.fidelity = .full ∨ params.family = .upq

theorem sketchHits_chosen : ∃ items : List (ScoreItem Score),
    sketchHits kernels base space query params handle = makeHits handle items ∧
      Chosen (query.Bounded params)
        (reranked (kernels params) base space query params.dimension.toNat handle) query items := by
  cases params with
  | qamLloydMax pairs =>
      have sorted := List.perm_insertionSort
        (fun first second : UInt32 × BasePtr => first.2.rank ≤ second.2.rank)
        (reranked (kernels (.qamLloydMax pairs)) base space query pairs.dimension.toNat handle)
      cases fidelity : query.fidelity with
      | lossy =>
          refine ⟨_, ?_, (@chosen_top Score _ handle query space _ _ sorted
            (kernels (.qamLloydMax pairs)).lossy fidelity).weaken ?_⟩
          · simp only [sketchHits, sketchThenRerankImpl, fidelity]
            rfl
          · rintro (positive | full | upq)
            · exact positive
            · exact nomatch fidelity.symm.trans full
            · cases upq
      | full =>
          refine ⟨_, ?_, (@chosen_rescored Score _ handle query space _ _ sorted
            (kernels (.qamLloydMax pairs)) (kernels (.qamLloydMax pairs)).lossy).weaken fun _ => trivial⟩
          simp only [sketchHits, sketchThenRerankImpl, fidelity]
          rfl
  | upq rings =>
      have sorted := List.perm_insertionSort
        (fun first second : UInt32 × BasePtr => first.1 ≤ second.1)
        (reranked (kernels (.upq rings)) base space query rings.dimension.toNat handle)
      cases fidelity : query.fidelity with
      | lossy =>
          have top := @chosen_top Score _ handle query space _ _ sorted (kernels (.upq rings)).lossy
            fidelity
          refine ⟨_, ?_, (chosen_take top.among fun positive => ?_).weaken fun _ => trivial⟩
          · simp only [sketchHits, upqSketchThenRerank, fidelity]
            rfl
          · rw [top.length positive, ← min_assoc, min_self]
      | full =>
          refine ⟨_, ?_, (@chosen_rescored Score _ handle query space _ _ sorted
            (kernels (.upq rings)) (kernels (.upq rings)).lossy).weaken fun _ => trivial⟩
          simp only [sketchHits, upqSketchThenRerank, fidelity, List.take_take, min_self]
          rfl

end Hits

end Valise
