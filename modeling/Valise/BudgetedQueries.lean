import Valise.TextBudgets

/-!
The scored queries with a budget that has room for every posting of their terms agree with those
without one, as far as the pool of the rerank and the default count of hits allow.
-/

namespace Valise

open ByteLists Caching Outcomes SortedTables TopKs

section Queries

variable {K : Type} [Field K] [LinearOrder K] [FloorSemiring K] [IsStrictOrderedRing K]
  (ln sqrt : K → K) {space : ScoredSpace} {tombstoned : List FrameId} {arena : QueryArena K}

omit [Field K] [LinearOrder K] [FloorSemiring K] [IsStrictOrderedRing K] in
/-- The pool holds the hits that are asked for. -/
theorem take_pool (hits : List (Hit K)) (topK : Option Nat) :
    (hits.take ((rerankPoolSize topK).getD wordLimit)).take
      (topK.getD ((rerankPoolSize topK).getD wordLimit)) = hits.take (topK.getD wordLimit) := by
  cases topK with
  | none =>
      simp only [rerankPoolSize, Option.map_none, Option.getD_none, List.take_take, Nat.min_self]
  | some count =>
      simp only [rerankPoolSize, Option.map_some, Option.getD_some, List.take_take]
      rw [Nat.min_eq_left (Nat.le_max_right _ _)]

/-! ### BM25 -/

theorem executeBm25Query_agree (tidy : space.Tidy) (sound : arena.Sound) (docNormalizer : List K)
    {terms : List (TermMeta K)} (k1 : K) {topK : Option Nat} {k : Nat}
    (weighed : Weighed space (terms.map fun term =>
      (⟨term.termId, term.idf, space.text.dfFor term.termId⟩ : BudgetTerm K)))
    (enough : (terms.map fun term => (space.text.dfFor term.termId).toNat).sum ≤ k * terms.length)
    (few : topK = none →
      (matchingFrames space tombstoned (terms.map (·.termId))).length ≤ defaultTopK) :
    Agree (TextQueryCache.Coherent ln sqrt space)
      (executeBm25Query space tombstoned docNormalizer terms k1 topK (some k) arena)
      (executeBm25Query space tombstoned docNormalizer terms k1 topK none arena) := by
  let gains : List (TermId × Gain K) :=
    terms.map fun term => (term.termId, bm25Gain docNormalizer k1 term)
  let whole := voteValue space tombstoned none gains arena
  have ids : gains.map Prod.fst = terms.map (·.termId) := by
    rw [List.map_map]
    rfl
  have full : voteValue space tombstoned (readLimits (some k) (terms.map fun term =>
      (⟨term.termId, term.idf, space.text.dfFor term.termId⟩ : BudgetTerm K))) gains arena =
        whole := by
    refine readLimits_vote tidy weighed ?_ ?_ arena
    · rw [List.map_map, List.length_map]
      exact enough
    · intro gain member _
      obtain ⟨term, among, rfl⟩ := List.mem_map.mp member
      exact ⟨_, List.mem_map_of_mem among, rfl⟩
  have totals := voteValue_totals space tombstoned sound gains
  have distinct := touchedHits_nodup totals
  have bounded := whole_length totals
  rw [ids] at bounded
  have budgeted := (vote_serves ln sqrt space tombstoned
    (readLimits (some k) (terms.map fun term =>
      (⟨term.termId, term.idf, space.text.dfFor term.termId⟩ : BudgetTerm K))) gains arena)
  rw [full] at budgeted
  have exact := vote_serves ln sqrt space tombstoned none gains arena
  let ranked := (touchedHits whole.touched whole.scores).insertionSort Hit.Before
  have same (pool : Nat) : (ranked.take pool).filterMap (fun hit =>
      if space.docLengths.length ≤ hit.frameId.toNat then none
      else
        let exact := exactSum (originalsValue space (terms.map (·.termId))) gains hit.frameId
        if exact = 0 then none else some ⟨hit.frameId, exact⟩) = ranked.take pool := by
    refine (List.filterMap_congr fun hit member => ?_).trans List.filterMap_some
    have member := (List.perm_insertionSort _ _).mem_iff.mp (List.mem_of_mem_take member)
    have sum := exactSum_whole totals tidy member
    rw [ids] at sum
    have counts := ((mem_touchedHits totals space.addressable).mp member).2
    dsimp only
    rw [if_neg (Nat.not_le.mpr (whole_hit totals member).1), sum, if_neg counts]
  refine ⟨ranked.take (topK.getD defaultTopK), whole, whole, ?_, ?_⟩
  · refine budgeted.bind ((originalPostings_serves ln sqrt _).bind ?_)
    dsimp only
    rw [selectSigned_eq totals, same, take_insertionSort distinct]
    have cut : ranked.take (topK.getD wordLimit) = ranked.take (topK.getD defaultTopK) := by
      cases topK with
      | none =>
          have small : ranked.length ≤ defaultTopK := by
            rw [List.length_insertionSort]
            exact bounded.trans (few rfl)
          have limit : defaultTopK ≤ wordLimit := by decide
          rw [Option.getD_none, Option.getD_none, List.take_of_length_le small,
            List.take_of_length_le (small.trans limit)]
      | some count => rfl
    change Serves _ (pure (_, whole)) _
    rw [take_pool, cut]
    exact serves_pure _
  · refine exact.bind ?_
    dsimp only
    split
    · rename_i nothing
      rw [nothing, List.take_zero]
      exact serves_pure _
    · rw [selectSigned_eq totals]
      exact serves_pure _

/-! ### Tf-idf and the cosines -/

/-- What the queries rely on of the square root. -/
structure Roots (sqrt : K → K) : Prop where
  zero : sqrt 0 = 0
  positive : ∀ x, 0 < x → 0 < sqrt x

omit [FloorSemiring K] [IsStrictOrderedRing K] in
variable {sqrt} in
theorem Roots.nonneg (roots : Roots sqrt) {x : K} (nonneg : 0 ≤ x) : 0 ≤ sqrt x := by
  rcases nonneg.eq_or_lt with zero | positive
  · rw [← zero, roots.zero]
  · exact (roots.positive x positive).le

theorem foldl_rescored {α β : Type} (rescore : α → Option β) (items : List α) (start : List β) :
    items.foldl (fun kept item => kept ++ (rescore item).toList) start =
      start ++ items.filterMap rescore := by
  induction items generalizing start with
  | nil => exact (List.append_nil start).symm
  | cons item rest ih =>
      rw [List.foldl_cons, ih, List.filterMap_cons, List.append_assoc]
      cases rescore item with
      | none => rfl
      | some value => rfl

omit [FloorSemiring K] [IsStrictOrderedRing K] in
/-- The pool has room for every frame that the lists name. -/
theorem pool_room {gains : List (TermId × Gain K)}
    (totals : arena.Totals space.docLengths.length (gains.flatMap (termGains space tombstoned)))
    {topK : Option Nat} (covered : ∀ count, topK = some count →
      (matchingFrames space tombstoned (gains.map Prod.fst)).length ≤ 4 * count) :
    (touchedHits arena.touched arena.scores).length ≤ (rerankPoolSize topK).getD wordLimit := by
  have small : (touchedHits arena.touched arena.scores).length ≤ wordLimit :=
    (List.length_filterMap_le _ _).trans ((words_length totals.nodup).trans (by decide))
  cases topK with
  | none => exact small
  | some count =>
      have bound := (whole_length totals).trans (covered count rfl)
      simp only [rerankPoolSize, Option.map_some, Option.getD_some]
      refine (Nat.le_min.mpr ⟨?_, small⟩).trans (Nat.le_max_left _ _)
      rwa [Nat.mul_comm]

section Norms

variable {norms : StateM (TextQueryCache K) (List K)} {l2 : List K}
  (served : Serves (TextQueryCache.Coherent ln sqrt space) norms l2)

/-- The norm of a frame, from the norms of the documents or from its length. -/
def normAt (sqrt : K → K) (space : ScoredSpace) (l2 : List K) (source : NormSource)
    (idx : Nat) : K :=
  match source with
  | .exact => l2.getD idx 0
  | .sqrtDocLen => sqrt (docLengthAt space idx)

include served

omit [LinearOrder K] [FloorSemiring K] [IsStrictOrderedRing K] in
theorem docNorm_serves (source : NormSource) (idx : Nat) :
    Serves (TextQueryCache.Coherent ln sqrt space) (docNorm sqrt space norms source idx)
      (normAt sqrt space l2 source idx) := by
  cases source with
  | exact => exact served.bind (serves_pure _)
  | sqrtDocLen => exact serves_pure _

omit [FloorSemiring K] in
theorem applyNorm_serves (roots : Roots sqrt) (source : NormSource) (qNorm : K)
    (arena : QueryArena K) : Serves (TextQueryCache.Coherent ln sqrt space)
      (applyNorm sqrt space norms source qNorm arena)
      { arena with
        scores := arena.touched.foldl (fun scores frame => scores.modify frame.toNat
          (divideScore (0 < normAt sqrt space l2 source frame.toNat)
            (qNorm * normAt sqrt space l2 source frame.toNat))) arena.scores } := by
  cases source with
  | exact => exact served.bind (serves_pure _)
  | sqrtDocLen =>
      have same (length : Nat) (scale score : K) :
          divideScore (0 < length) (scale * sqrt length) score =
            divideScore (0 < sqrt (length : K)) (scale * sqrt length) score := by
        unfold divideScore
        rcases Nat.eq_zero_or_pos length with rfl | positive
        · rw [Nat.cast_zero, roots.zero, if_neg (Nat.lt_irrefl 0), if_neg (lt_irrefl 0)]
        · rw [if_pos positive, if_pos (roots.positive _ (Nat.cast_pos.mpr positive))]
      have value : normalizeByLength sqrt space qNorm arena = { arena with
          scores := arena.touched.foldl (fun scores frame => scores.modify frame.toNat
            (divideScore (0 < normAt sqrt space l2 .sqrtDocLen frame.toNat)
              (qNorm * normAt sqrt space l2 .sqrtDocLen frame.toNat))) arena.scores } := by
        unfold normalizeByLength
        congr 2
        funext scores frame
        exact congrArg (scores.modify frame.toNat) (funext fun score => same _ _ _)
      rw [← value]
      exact serves_pure _

/-- The division of a score by the norms. -/
def divideAt (norm : Nat → K) (qNorm : K) (idx : Nat) : K → K :=
  divideScore (0 < norm idx) (qNorm * norm idx)

omit [FloorSemiring K] [IsStrictOrderedRing K] served in
theorem divideAt_zero (norm : Nat → K) (qNorm : K) (idx : Nat) : divideAt norm qNorm idx 0 = 0 := by
  unfold divideAt divideScore
  rw [zero_div, ite_self]

omit [FloorSemiring K] served in
theorem divideAt_nonneg (norm : Nat → K) {qNorm : K} (nonneg : 0 ≤ qNorm) (idx : Nat) {score : K}
    (gained : 0 ≤ score) : 0 ≤ divideAt norm qNorm idx score := by
  unfold divideAt divideScore
  split
  · rename_i usable
    exact div_nonneg gained (mul_nonneg nonneg usable.le)
  · exact le_rfl

/-- What the rerank makes of a hit. -/
def rescored (norm : Nat → K) (qNorm : K) (originals : List (TermId × List TermRow))
    (gains : List (TermId × Gain K)) (hit : Hit K) : Option (Hit K) :=
  let score := exactSum originals gains hit.frameId / (qNorm * norm hit.frameId.toNat)
  if 0 < norm hit.frameId.toNat ∧ 0 < score then some ⟨hit.frameId, score⟩ else none

omit [FloorSemiring K] served in
theorem rescored_eq (norm : Nat → K) {qNorm : K} (nonneg : 0 ≤ qNorm)
    {originals : List (TermId × List TermRow)} {gains : List (TermId × Gain K)} {hit : Hit K}
    (gained : 0 ≤ hit.score) (sum : exactSum originals gains hit.frameId = hit.score) :
    rescored norm qNorm originals gains hit =
      if divideAt norm qNorm hit.frameId.toNat hit.score = 0 then none
      else some ⟨hit.frameId, divideAt norm qNorm hit.frameId.toNat hit.score⟩ := by
  have nonneg := divideAt_nonneg norm nonneg hit.frameId.toNat gained
  unfold rescored
  unfold divideAt divideScore at nonneg ⊢
  dsimp only
  rw [sum]
  by_cases usable : 0 < norm hit.frameId.toNat
  · rw [if_pos usable] at nonneg ⊢
    by_cases counts : hit.score / (qNorm * norm hit.frameId.toNat) = 0
    · rw [if_pos counts, if_neg fun kept => counts.not_gt kept.2]
    · rw [if_neg counts, if_pos ⟨usable, nonneg.lt_of_ne fun none => counts none.symm⟩]
  · rw [if_neg usable, if_pos rfl, if_neg fun kept => usable kept.1]

omit [FloorSemiring K] [IsStrictOrderedRing K] in
theorem rerankNormed_serves (source : NormSource) (qNorm : K)
    (originals : List (TermId × List TermRow)) (terms : List (TermId × Gain K))
    (reranked : List (Hit K)) (hit : Hit K) : Serves (TextQueryCache.Coherent ln sqrt space)
      (rerankNormed sqrt space norms source qNorm originals terms reranked hit)
      (reranked ++ (rescored (normAt sqrt space l2 source) qNorm originals terms hit).toList) := by
  refine (docNorm_serves ln sqrt served source _).bind ?_
  unfold rescored
  dsimp only
  split
  · exact serves_pure _
  · rw [Option.toList_none, List.append_nil]
    exact serves_pure _

theorem cosineQuery_agree (roots : Roots sqrt) (tidy : space.Tidy) (sound : arena.Sound)
    (source : NormSource) {qNorm : K} (nonneg : 0 ≤ qNorm)
    {limits : Option (List (TermId × Nat))} {gains : List (TermId × Gain K)} {topK : Option Nat}
    {k : Nat} (full : voteValue space tombstoned limits gains arena =
      voteValue space tombstoned none gains arena)
    (gaining : ∀ gain ∈ gains, ∀ idx termFreq delta,
      gain.2 idx termFreq = some delta → 0 ≤ delta)
    (covered : ∀ count, topK = some count →
      (matchingFrames space tombstoned (gains.map Prod.fst)).length ≤ 4 * count) :
    Agree (TextQueryCache.Coherent ln sqrt space)
      (cosineQuery sqrt space tombstoned norms source qNorm limits gains topK (some k) arena)
      (cosineQuery sqrt space tombstoned norms source qNorm none gains topK none arena) := by
  have totals := voteValue_totals space tombstoned sound gains
  have budgeted := vote_serves ln sqrt space tombstoned limits gains arena
  rw [full] at budgeted
  have exact := vote_serves ln sqrt space tombstoned none gains arena
  generalize voteValue space tombstoned none gains arena = whole at totals budgeted exact
  have gained (hit : Hit K) (member : hit ∈ touchedHits whole.touched whole.scores) :=
    whole_nonneg totals gaining member
  have same := rerank_divided totals.nodup (divideAt (normAt sqrt space l2 source) qNorm)
    (divideAt_zero _ qNorm) whole.scores (fun hit member =>
      rescored_eq _ nonneg (gained hit member) (exactSum_whole totals tidy member))
    (fun hit member => divideAt_nonneg _ nonneg _ (gained hit member))
    (pool_room totals covered) topK
  have normed := applyNorm_serves ln sqrt served roots source qNorm whole
  have reranked := serves_foldlM (rerankNormed_serves ln sqrt served source qNorm
    (originalsValue space (gains.map Prod.fst)) gains) (selectTopKFromTouched whole.touched
      whole.scores ((rerankPoolSize topK).getD wordLimit)) []
  rw [foldl_rescored, List.nil_append, select_eq totals.nodup gained] at reranked
  refine ⟨_, whole, _, ?_, exact.bind (normed.bind (serves_pure _))⟩
  refine budgeted.bind ((originalPostings_serves ln sqrt _).bind ?_)
  dsimp only
  rw [select_eq totals.nodup gained]
  refine reranked.bind ?_
  rw [same]
  exact serves_pure _

end Norms

omit [LinearOrder K] [FloorSemiring K] [IsStrictOrderedRing K] in
theorem exactTfidfTerms_serves (gains : List (TermId × Gain K)) (frameId : FrameId) (start : K) :
    Serves (TextQueryCache.Coherent ln sqrt space)
      (gains.foldlM (exactTfidfTerm space frameId) start)
      (gains.foldl (fun sum term =>
        addGain (space.lookupPostingsSparse term.1) frameId term.2 sum) start) := by
  have each (sum : K) (term : TermId × Gain K) : Serves (TextQueryCache.Coherent ln sqrt space)
      (exactTfidfTerm space frameId sum term)
      (addGain (space.lookupPostingsSparse term.1) frameId term.2 sum) :=
    (lookupOrDecodeOriginalPosting_serves ln sqrt term.1).bind (serves_pure _)
  exact serves_foldlM each gains start

/-- What the rerank of a tf-idf query makes of a hit. -/
def tfidfRescored (space : ScoredSpace) (l2 : Option (List K)) (gains : List (TermId × Gain K))
    (hit : Hit K) : Option (Hit K) :=
  let exact := gains.foldl (fun sum term =>
    addGain (space.lookupPostingsSparse term.1) hit.frameId term.2 sum) 0
  let score := match l2 with
    | none => exact
    | some l2 =>
        let norm := l2.getD hit.frameId.toNat 0
        divideScore (0 < norm) norm exact
  if 0 < score then some ⟨hit.frameId, score⟩ else none

omit [FloorSemiring K] [IsStrictOrderedRing K] in
variable (space) in
theorem rerankTfidf_serves (l2 : Option (List K)) (gains : List (TermId × Gain K))
    (reranked : List (Hit K)) (hit : Hit K) : Serves (TextQueryCache.Coherent ln sqrt space)
      (rerankTfidf space l2 gains reranked hit)
      (reranked ++ (tfidfRescored space l2 gains hit).toList) := by
  refine (exactTfidfTerms_serves ln sqrt gains hit.frameId 0).bind ?_
  unfold tfidfRescored
  have kept (score : K) : Serves (TextQueryCache.Coherent ln sqrt space)
      (if 0 < score then return reranked ++ [⟨hit.frameId, score⟩] else return reranked)
      (reranked ++ (if 0 < score then some ⟨hit.frameId, score⟩ else none).toList) := by
    split
    · exact serves_pure _
    · rw [Option.toList_none, List.append_nil]
      exact serves_pure _
  cases l2 with
  | none => exact kept _
  | some l2 => exact kept _

section Whole

variable {gains : List (TermId × Gain K)} {hit : Hit K} (tidy : space.Tidy)
  (totals : arena.Totals space.docLengths.length (gains.flatMap (termGains space tombstoned)))
  (member : hit ∈ touchedHits arena.touched arena.scores) (gained : 0 ≤ hit.score)

include tidy totals member gained

omit [FloorSemiring K] [IsStrictOrderedRing K] in
theorem tfidfRescored_none : tfidfRescored space none gains hit = some hit := by
  have counts := ((mem_touchedHits totals space.addressable).mp member).2
  unfold tfidfRescored
  dsimp only
  rw [sum_whole totals tidy space.lookupPostingsSparse (fun _ _ => rfl) member,
    if_pos (gained.lt_of_ne counts.symm)]

omit [FloorSemiring K] in
theorem tfidfRescored_some (l2 : List K) : tfidfRescored space (some l2) gains hit =
    if divideAt (fun idx => l2.getD idx 0) 1 hit.frameId.toNat hit.score = 0 then none
    else some ⟨hit.frameId,
      divideAt (fun idx => l2.getD idx 0) 1 hit.frameId.toNat hit.score⟩ := by
  have nonneg := divideAt_nonneg (fun idx => l2.getD idx 0) zero_le_one hit.frameId.toNat gained
  have value : divideScore (0 < l2.getD hit.frameId.toNat 0) (l2.getD hit.frameId.toNat 0)
      hit.score = divideAt (fun idx => l2.getD idx 0) 1 hit.frameId.toNat hit.score := by
    unfold divideAt
    rw [one_mul]
  unfold tfidfRescored
  dsimp only
  rw [sum_whole totals tidy space.lookupPostingsSparse (fun _ _ => rfl) member, value]
  generalize divideAt (fun idx => l2.getD idx 0) 1 hit.frameId.toNat hit.score = score at nonneg
  by_cases counts : score = 0
  · rw [if_pos counts, if_neg counts.not_gt]
  · rw [if_neg counts, if_pos (nonneg.lt_of_ne fun none => counts none.symm)]

end Whole

/-- The part of a tf-idf query that follows the checks. -/
theorem tfidf_agree (tidy : space.Tidy) (sound : arena.Sound)
    {norms : StateM (TextQueryCache K) (List K)} {l2 : List K}
    (served : Serves (TextQueryCache.Coherent ln sqrt space) norms l2) (normMode : NormMode)
    {limits : Option (List (TermId × Nat))} {gains : List (TermId × Gain K)} {topK : Option Nat}
    (full : voteValue space tombstoned limits gains arena =
      voteValue space tombstoned none gains arena)
    (gaining : ∀ gain ∈ gains, ∀ idx termFreq delta,
      gain.2 idx termFreq = some delta → 0 ≤ delta)
    (covered : normMode = .l2 → ∀ count, topK = some count →
      (matchingFrames space tombstoned (gains.map Prod.fst)).length ≤ 4 * count) :
    Agree (TextQueryCache.Coherent ln sqrt space)
      (do
        let arena ← vote space tombstoned limits gains arena
        let candidates := selectTopKFromTouched arena.touched arena.scores
          ((rerankPoolSize topK).getD wordLimit)
        let l2 ← lookupNorms norms normMode
        let reranked ← candidates.foldlM (rerankTfidf space l2 gains) []
        return (sortAndTruncate reranked topK, arena))
      (do
        let arena ← vote space tombstoned none gains arena
        let l2 ← lookupNorms norms normMode
        let arena := match l2 with
          | none => arena
          | some l2 => normalizeInPlace l2 1 arena
        return (selectTopKFromTouched arena.touched arena.scores (topK.getD wordLimit),
          arena)) := by
  have totals := voteValue_totals space tombstoned sound gains
  have budgeted := vote_serves ln sqrt space tombstoned limits gains arena
  rw [full] at budgeted
  have exact := vote_serves ln sqrt space tombstoned none gains arena
  generalize voteValue space tombstoned none gains arena = whole at totals budgeted exact
  have gained (hit : Hit K) (member : hit ∈ touchedHits whole.touched whole.scores) :=
    whole_nonneg totals gaining member
  let candidates := ((touchedHits whole.touched whole.scores).insertionSort Hit.Before).take
    ((rerankPoolSize topK).getD wordLimit)
  have reranked (l2 : Option (List K)) : Serves (TextQueryCache.Coherent ln sqrt space)
      (candidates.foldlM (rerankTfidf space l2 gains) [])
      (candidates.filterMap (tfidfRescored space l2 gains)) := by
    have each := serves_foldlM (rerankTfidf_serves ln sqrt space l2 gains) candidates []
    rwa [foldl_rescored, List.nil_append] at each
  cases normMode with
  | none =>
      have same (pool : Nat) : (((touchedHits whole.touched whole.scores).insertionSort
          Hit.Before).take pool).filterMap (tfidfRescored space none gains) =
            ((touchedHits whole.touched whole.scores).insertionSort Hit.Before).take pool := by
        refine (List.filterMap_congr fun hit among => ?_).trans List.filterMap_some
        have among := (List.perm_insertionSort _ _).mem_iff.mp (List.mem_of_mem_take among)
        exact tfidfRescored_none tidy totals among (gained hit among)
      have rerank := reranked none
      rw [same] at rerank
      refine ⟨_, whole, whole, ?_, exact.bind ((serves_pure none).bind (serves_pure _))⟩
      refine budgeted.bind ((serves_pure none).bind ?_)
      dsimp only
      rw [select_eq totals.nodup gained]
      refine rerank.bind ?_
      rw [take_insertionSort (touchedHits_nodup totals), take_pool, select_eq totals.nodup gained]
      exact serves_pure _
  | l2 =>
      have norm : Serves (TextQueryCache.Coherent ln sqrt space)
          (lookupNorms norms .l2) (some l2) := served.bind (serves_pure _)
      have same := rerank_divided totals.nodup (divideAt (fun idx => l2.getD idx 0) 1)
        (divideAt_zero _ 1) whole.scores
        (fun hit member => tfidfRescored_some tidy totals member (gained hit member) l2)
        (fun hit member => divideAt_nonneg _ zero_le_one _ (gained hit member))
        (pool_room totals (covered rfl)) topK
      refine ⟨_, whole, normalizeInPlace l2 1 whole, ?_,
        exact.bind (norm.bind (serves_pure _))⟩
      refine budgeted.bind (norm.bind ?_)
      dsimp only
      rw [select_eq totals.nodup gained]
      refine (reranked (some l2)).bind ?_
      rw [same]
      exact serves_pure _

end Queries

end Valise
