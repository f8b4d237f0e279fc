import Valise.BudgetedQueries

/-!
Every scored query of a text space with a budget for all postings of its terms returns what it
returns without a budget, but for what the pool of its rerank and its default count of hits leave
out.
-/

namespace Valise

open ByteLists Caching Outcomes SortedTables TopKs

section Weights

variable {K : Type} [Field K] [LinearOrder K] [IsStrictOrderedRing K] (ln : K → K)
  {space : ScoredSpace}

/-- What the queries rely on of the logarithm. -/
structure Logs (ln : K → K) : Prop where
  one : ln 1 = 0
  mono : ∀ x y, 0 < x → x < y → ln x < ln y

/-- The argument of the logarithm, as one fraction. -/
theorem bm25Idf_eq (n df : K) (nonneg : 0 ≤ df) :
    bm25Idf ln n df = ln ((n + 1) / (df + 1 / 2)) := by
  have half : df + 1 / 2 ≠ 0 := (add_pos_of_nonneg_of_pos nonneg one_half_pos).ne'
  unfold bm25Idf
  congr 1
  rw [div_add_one half]
  congr 1
  ring

variable {ln} (logs : Logs ln)

include logs

theorem Logs.positive {x : K} (above : 1 < x) : 0 < ln x := by
  have more := logs.mono 1 x zero_lt_one above
  rwa [logs.one] at more

theorem scoreTf_nonneg (mode : TfMode) (termFreq : UInt32) : 0 ≤ scoreTf ln mode termFreq := by
  unfold scoreTf
  cases mode with
  | raw => exact Nat.cast_nonneg _
  | log =>
      dsimp only
      split
      · rename_i some
        rcases (Nat.one_le_cast (α := K)).mpr some |>.eq_or_lt with one | above
        · rw [← one, logs.one, add_zero]
          exact zero_le_one
        · exact (add_pos zero_lt_one (logs.positive above)).le
      · exact le_rfl

theorem tfidfIdf_positive {nActive : K} (active : 0 < nActive) {df : UInt32} (some : df ≠ 0) :
    0 < tfidfIdf ln nActive df := by
  have count : (0 : K) < df.toNat := Nat.cast_pos.mpr (Nat.pos_of_ne_zero fun none =>
    some (UInt32.toNat_inj.mp none))
  exact logs.positive (lt_add_of_pos_right _ (div_pos active count))

theorem tfidfIdf_antitone {nActive : K} (active : 0 < nActive) {df more : UInt32} (some : df ≠ 0)
    (fewer : df < more) : tfidfIdf ln nActive more < tfidfIdf ln nActive df := by
  have count : (0 : K) < df.toNat := Nat.cast_pos.mpr (Nat.pos_of_ne_zero fun none =>
    some (UInt32.toNat_inj.mp none))
  have less : (df.toNat : K) < more.toNat := Nat.cast_lt.mpr (UInt32.lt_iff_toNat_lt.mp fewer)
  refine logs.mono _ _ ?_ ?_
  · exact add_pos zero_lt_one (div_pos active (count.trans less))
  · exact add_lt_add_right (div_lt_div_of_pos_left active count less) 1

theorem bm25Idf_positive {nActive : Nat} {df : UInt32} (bound : df.toNat ≤ nActive) :
    0 < bm25Idf ln (nActive : K) (df.toNat : K) := by
  have nonneg : (0 : K) ≤ df.toNat := Nat.cast_nonneg _
  have fits : (df.toNat : K) ≤ nActive := Nat.cast_le.mpr bound
  rw [bm25Idf_eq ln _ _ nonneg]
  refine logs.positive ?_
  rw [one_lt_div (add_pos_of_nonneg_of_pos nonneg one_half_pos)]
  exact add_lt_add_of_le_of_lt fits one_half_lt_one

theorem bm25Idf_antitone (nActive : Nat) {df more : UInt32} (fewer : df < more) :
    bm25Idf ln (nActive : K) (more.toNat : K) < bm25Idf ln (nActive : K) (df.toNat : K) := by
  have nonneg (df : UInt32) : (0 : K) ≤ df.toNat := Nat.cast_nonneg _
  have room (df : UInt32) : (0 : K) < df.toNat + 1 / 2 :=
    add_pos_of_nonneg_of_pos (nonneg df) one_half_pos
  have active : (0 : K) < nActive + 1 := add_pos_of_nonneg_of_pos (Nat.cast_nonneg _) zero_lt_one
  have less : (df.toNat : K) < more.toNat := Nat.cast_lt.mpr (UInt32.lt_iff_toNat_lt.mp fewer)
  rw [bm25Idf_eq ln _ _ (nonneg more), bm25Idf_eq ln _ _ (nonneg df)]
  refine logs.mono _ _ (div_pos active (room more)) ?_
  exact div_lt_div_of_pos_left active (room df) (add_lt_add_left less _)

end Weights

section Terms

variable {K : Type} {space : ScoredSpace}

theorem budgetTerms_ids (qCounts : List (TermId × Nat)) (idf : UInt32 → K) :
    (budgetTerms space qCounts idf).map (·.termId) =
      (qCounts.map Prod.fst).filter (space.text.dfFor · ≠ 0) := by
  induction qCounts with
  | nil => rfl
  | cons first rest ih =>
      unfold budgetTerms at ih ⊢
      rw [List.filterMap_cons, List.map_cons]
      by_cases absent : space.text.dfFor first.1 = 0
      · rw [List.filter_cons_of_neg (by simpa using absent), ← ih]
        simp only [absent, if_true]
      · rw [List.filter_cons_of_pos (by simpa using absent), ← ih]
        simp only [absent, if_false, List.map_cons]

theorem mem_budgetTerms {qCounts : List (TermId × Nat)} {idf : UInt32 → K} {term : BudgetTerm K} :
    term ∈ budgetTerms space qCounts idf ↔ ∃ item ∈ qCounts, space.text.dfFor item.1 ≠ 0 ∧
      term = ⟨item.1, idf (space.text.dfFor item.1), space.text.dfFor item.1⟩ := by
  unfold budgetTerms
  rw [List.mem_filterMap]
  refine exists_congr fun item => and_congr_right fun _ => ?_
  dsimp only
  split
  · rename_i absent
    simp [absent]
  · rename_i some
    simp [some, eq_comm]

theorem weighed_budgetTerms [Field K] [LinearOrder K] {qCounts : List (TermId × Nat)}
    {idf : UInt32 → K}
    (distinct : (qCounts.map Prod.fst).Nodup)
    (positive : ∀ item ∈ qCounts, space.text.dfFor item.1 ≠ 0 →
      0 < idf (space.text.dfFor item.1))
    (antitone : ∀ df more : UInt32, df ≠ 0 → df < more → idf more < idf df) :
    Weighed space (budgetTerms space qCounts idf) where
  distinct := by
    rw [budgetTerms_ids]
    exact distinct.filter _
  counted := by
    intro term member
    obtain ⟨item, _, _, rfl⟩ := mem_budgetTerms.mp member
    rfl
  positive := by
    intro term member
    obtain ⟨item, among, some, rfl⟩ := mem_budgetTerms.mp member
    exact positive item among some
  antitone := by
    intro first one second two fewer
    obtain ⟨item, _, some, rfl⟩ := mem_budgetTerms.mp one
    obtain ⟨other, _, _, rfl⟩ := mem_budgetTerms.mp two
    exact antitone _ _ some fewer

/-- How many postings each term of a query has that has any. -/
def queryDfs (space : ScoredSpace) (tokens : List Bytes) : List Nat :=
  (((resolveQueryTerms space.text tokens).map Prod.fst).filter
    (space.text.dfFor · ≠ 0)).map fun termId => (space.text.dfFor termId).toNat

variable (space) in
theorem budgetTerms_dfs (tokens : List Bytes) (idf : UInt32 → K) :
    (budgetTerms space (resolveQueryTerms space.text tokens) idf).map (·.df.toNat) =
      queryDfs space tokens := by
  unfold queryDfs
  rw [← budgetTerms_ids _ idf, List.map_map]
  refine List.map_congr_left fun term member => ?_
  obtain ⟨item, _, _, rfl⟩ := mem_budgetTerms.mp member
  rfl

/-- The live frames that hold a term of a query. -/
def queryMatches (space : ScoredSpace) (tombstoned : List FrameId) (tokens : List Bytes) :
    List FrameId :=
  matchingFrames space tombstoned ((resolveQueryTerms space.text tokens).map Prod.fst)

theorem queryMatches_length {tombstoned : List FrameId} {tokens : List Bytes}
    {ids : List TermId} (among : ids ⊆ (resolveQueryTerms space.text tokens).map Prod.fst) :
    (matchingFrames space tombstoned ids).length ≤
      (queryMatches space tombstoned tokens).length := by
  refine (List.subperm_of_subset (List.nodup_dedup _) fun frame member => ?_).length_le
  unfold queryMatches matchingFrames at *
  rw [List.mem_dedup, List.mem_filter] at member ⊢
  refine ⟨?_, member.2⟩
  obtain ⟨termId, known, listed⟩ := List.mem_flatMap.mp member.1
  exact List.mem_flatMap.mpr ⟨termId, among known, listed⟩

end Terms

section Agreement

variable {K : Type} [Field K] [LinearOrder K] [FloorSemiring K] [IsStrictOrderedRing K]
  {ln sqrt : K → K} {space : ScoredSpace} {arena : QueryArena K}

/-- BM25 reads the tombstones only where their count says that there are any. -/
def TextAlgorithm.tombstones (frames : List FrameStub) (tombstonedFrameCount : Nat) :
    TextAlgorithm K → List FrameId
  | .bm25 _ _ => if 0 < tombstonedFrameCount then buildTombstoneSet frames else []
  | _ => buildTombstoneSet frames

/-- Where a query reranks all that it selects from without a budget: a pool of four times the hits
asked for has every match where the scores are normed; BM25 has no more matches than its default
count where no count is asked for, and no term that more frames hold than are live. -/
def TextAlgorithm.Covered (space : ScoredSpace) (tombstoned : List FrameId) (tokens : List Bytes)
    (topK : Option Nat) : TextAlgorithm K → Prop
  | .bm25 _ _ =>
      (∀ df ∈ queryDfs space tokens, df ≤ (activeCorpusStats space.docLengths tombstoned).1) ∧
        (topK = none → (queryMatches space tombstoned tokens).length ≤ defaultTopK)
  | .tfidf _ .none => True
  | _ => ∀ count, topK = some count →
      (queryMatches space tombstoned tokens).length ≤ 4 * count

omit [FloorSemiring K] [IsStrictOrderedRing K] in
theorem prepareQuery_some {frames : List FrameStub} {any : Bool} {k1 b : K} {tokens : List Bytes}
    {prepared : Bm25Prepared K}
    (ready : (prepareQuery space frames any k1 b tokens {}).1 = .ok (some prepared)) :
    prepared.tombstoned = (if any then buildTombstoneSet frames else []) ∧
      prepared.nActive = (activeCorpusStats space.docLengths prepared.tombstoned).1 ∧
      prepared.queryTermQfs = resolveQueryTerms space.text tokens := by
  have none : any = false → (if any then buildTombstoneSet frames else []) = [] := by
    rintro rfl
    rfl
  have built : ({} : Bm25QueryCache K).BuiltFrom space := ⟨nofun, nofun, nofun⟩
  have stats := (lookupCorpusStats_spec built none).1
  unfold prepareQuery prepareBm25 at ready
  dsimp only at ready
  generalize (if any then buildTombstoneSet frames else []) = tombstoned at ready stats ⊢
  rw [stats] at ready
  split at ready
  · cases ready
  split at ready
  · cases ready
  split at ready
  · cases ready
  split at ready
  · cases ready
  split at ready
  · cases ready
  split at ready
  · cases ready
  cases ready
  exact ⟨rfl, rfl, rfl⟩

omit [LinearOrder K] [FloorSemiring K] [IsStrictOrderedRing K] in
variable (ln space) in
theorem termMeta_budget (nActive : Nat) (qfs : List (TermId × Nat)) :
    (termMeta ln space.text nActive qfs).map (fun term =>
      (⟨term.termId, term.idf, space.text.dfFor term.termId⟩ : BudgetTerm K)) =
        budgetTerms space qfs fun df => bm25Idf ln (nActive : K) (df.toNat : K) := by
  unfold termMeta budgetTerms
  rw [List.map_filterMap]
  congr 1
  funext item
  dsimp only
  split
  · rfl
  · rfl

theorem bm25Query_agree (logs : Logs ln) (tidy : space.Tidy) (sound : arena.Sound)
    (frames : List FrameStub) (any : Bool) (k1 b : K) (tokens : List Bytes) {topK : Option Nat}
    {k : Nat} (enough : (queryDfs space tokens).sum ≤ k * (queryDfs space tokens).length)
    (covered : (TextAlgorithm.bm25 k1 b).Covered space
      (if any then buildTombstoneSet frames else []) tokens topK) :
    Agree (TextQueryCache.Coherent ln sqrt space)
      (bm25Query ln space frames any k1 b tokens topK (some k) arena)
      (bm25Query ln space frames any k1 b tokens topK none arena) := by
  obtain ⟨value, serves⟩ : Transparent (TextQueryCache.Coherent ln sqrt space)
      (prepareQuery space frames any k1 b tokens) :=
    prepareQuery_transparent ln sqrt frames any k1 b tokens
  refine serves.agree ?_
  rcases value with (_ | prepared) | error | _
  · exact agree_pure _ _ _
  · obtain ⟨tombstones, active, qfs⟩ :=
      prepareQuery_some (serves {} (coherent_empty ln sqrt space)).1
    rw [← tombstones] at covered
    have budget := termMeta_budget ln space prepared.nActive
      prepared.queryTermQfs
    have dfs : (termMeta ln space.text prepared.nActive prepared.queryTermQfs).map
        (fun term => (space.text.dfFor term.termId).toNat) = queryDfs space tokens := by
      rw [← budgetTerms_dfs space tokens fun df => bm25Idf ln (prepared.nActive : K) (df.toNat : K),
        ← qfs, ← budget, List.map_map]
      rfl
    have ids : (termMeta ln space.text prepared.nActive prepared.queryTermQfs).map (·.termId) ⊆
        (resolveQueryTerms space.text tokens).map Prod.fst := by
      rw [← qfs]
      intro termId member
      obtain ⟨term, listed, rfl⟩ := List.mem_map.mp member
      obtain ⟨item, among, found⟩ := List.mem_filterMap.mp listed
      dsimp only at found
      split at found
      · cases found
      · rw [← Option.some.inj found]
        exact List.mem_map_of_mem among
    refine Agree.ite (agree_pure _ _ _) fun _ => ?_
    have weighed : Weighed space ((termMeta ln space.text prepared.nActive
        prepared.queryTermQfs).map fun term =>
          (⟨term.termId, term.idf, space.text.dfFor term.termId⟩ : BudgetTerm K)) := by
      rw [budget, qfs]
      refine weighed_budgetTerms (resolveQueryTerms_nodup _ _) ?_ ?_
      · intro item among some
        refine bm25Idf_positive logs ?_
        rw [active]
        refine covered.1 _ (List.mem_map.mpr ⟨item.1, List.mem_filter.mpr ⟨?_, ?_⟩, rfl⟩)
        · exact List.mem_map_of_mem among
        · exact decide_eq_true some
      · exact fun df more _ fewer => bm25Idf_antitone logs _ fewer
    have room : ((termMeta ln space.text prepared.nActive prepared.queryTermQfs).map
        fun term => (space.text.dfFor term.termId).toNat).sum ≤
          k * (termMeta ln space.text prepared.nActive prepared.queryTermQfs).length := by
      have lengths := congrArg List.length dfs
      rw [List.length_map] at lengths
      rwa [dfs, lengths]
    obtain ⟨hits, left, right, one, two⟩ := executeBm25Query_agree ln sqrt tidy sound
      prepared.docNormalizer k1 weighed room
      (fun unasked => (queryMatches_length ids).trans (covered.2 unasked))
    exact ⟨.ok hits, left, right, one.bind (serves_pure _), two.bind (serves_pure _)⟩
  · exact agree_pure _ _ _
  · exact agree_pure _ _ _

omit [FloorSemiring K] in
theorem activeCount_pos {tombstoned : List FrameId}
    (active : activeCount (K := K) space tombstoned ≠ 0) :
    0 < activeCount (K := K) space tombstoned :=
  (Nat.cast_nonneg _).lt_of_ne active.symm

omit [FloorSemiring K] in
theorem weighed_tfidf (logs : Logs ln) {tombstoned : List FrameId} (tokens : List Bytes)
    (active : 0 < activeCount (K := K) space tombstoned) :
    Weighed space (budgetTerms space (resolveQueryTerms space.text tokens)
      (tfidfIdf ln (activeCount space tombstoned))) :=
  weighed_budgetTerms (resolveQueryTerms_nodup _ _)
    (fun _ _ some => tfidfIdf_positive logs active some)
    (fun _ _ some fewer => tfidfIdf_antitone logs active some fewer)

omit [Field K] [LinearOrder K] [FloorSemiring K] [IsStrictOrderedRing K] in
/-- The budget of a query is enough for its terms, whatever they weigh. -/
theorem budget_enough {tokens : List Bytes} {k : Nat}
    (enough : (queryDfs space tokens).sum ≤ k * (queryDfs space tokens).length)
    (idf : UInt32 → K) : ((budgetTerms space (resolveQueryTerms space.text tokens) idf).map
      (·.df.toNat)).sum ≤
        k * (budgetTerms space (resolveQueryTerms space.text tokens) idf).length := by
  have dfs := budgetTerms_dfs space tokens idf
  have lengths := congrArg List.length dfs
  rw [List.length_map] at lengths
  rwa [dfs, lengths]

theorem tfidfQuery_agree (logs : Logs ln) (tidy : space.Tidy) (sound : arena.Sound)
    (frames : List FrameStub) (tfMode : TfMode) (normMode : NormMode) (tokens : List Bytes)
    {topK : Option Nat} {k : Nat}
    (enough : (queryDfs space tokens).sum ≤ k * (queryDfs space tokens).length)
    (covered : (TextAlgorithm.tfidf (K := K) tfMode normMode).Covered space
      (buildTombstoneSet frames) tokens topK) :
    Agree (TextQueryCache.Coherent ln sqrt space)
      (tfidfQuery ln sqrt space frames tfMode normMode tokens topK (some k) arena)
      (tfidfQuery ln sqrt space frames tfMode normMode tokens topK none arena) := by
  refine Agree.ite (agree_pure _ _ _) fun checks => ?_
  have active := activeCount_pos fun none => checks (.inr (.inl none))
  have weighed := weighed_tfidf logs tokens active
  have served : Serves (TextQueryCache.Coherent ln sqrt space) (lookupOrBuildTfidfL2Norms ln sqrt
      space (buildTombstoneSet frames) (activeCount space (buildTombstoneSet frames)) tfMode) _ :=
    lookupOrBuildTfidfL2Norms_serves ln sqrt _ _ tfMode
  have ids : ((budgetTerms space (resolveQueryTerms space.text tokens)
      (tfidfIdf ln (activeCount space (buildTombstoneSet frames)))).map fun term =>
        ((term.termId, fun _ termFreq => some (scoreTf ln tfMode termFreq * term.idf)) :
          TermId × Gain K)).map Prod.fst ⊆
        (resolveQueryTerms space.text tokens).map Prod.fst := by
    rw [List.map_map]
    intro termId member
    obtain ⟨term, listed, rfl⟩ := List.mem_map.mp member
    obtain ⟨item, among, _, rfl⟩ := mem_budgetTerms.mp listed
    exact List.mem_map_of_mem among
  refine tfidf_agree ln sqrt tidy sound served normMode ?_ ?_ ?_
  · refine readLimits_vote tidy weighed (budget_enough enough _) (fun gain member _ => ?_) arena
    obtain ⟨term, among, rfl⟩ := List.mem_map.mp member
    exact ⟨term, among, rfl⟩
  · intro gain member idx termFreq delta given
    obtain ⟨term, among, rfl⟩ := List.mem_map.mp member
    rw [← Option.some.inj given]
    exact mul_nonneg (scoreTf_nonneg logs tfMode termFreq) (weighed.positive term among).le
  · rintro rfl count asked
    exact (queryMatches_length ids).trans (covered count asked)

theorem tfidfCosineQuery_agree (logs : Logs ln) (roots : Roots sqrt) (tidy : space.Tidy)
    (sound : arena.Sound) (frames : List FrameStub) (tfMode : TfMode) (source : NormSource)
    (tokens : List Bytes) {topK : Option Nat} {k : Nat}
    (enough : (queryDfs space tokens).sum ≤ k * (queryDfs space tokens).length)
    (covered : ∀ count, topK = some count →
      (queryMatches space (buildTombstoneSet frames) tokens).length ≤ 4 * count) :
    Agree (TextQueryCache.Coherent ln sqrt space)
      (tfidfCosineQuery ln sqrt space frames tfMode source tokens topK (some k) arena)
      (tfidfCosineQuery ln sqrt space frames tfMode source tokens topK none arena) := by
  refine Agree.ite (agree_pure _ _ _) fun checks => ?_
  have active := activeCount_pos fun none => checks (.inr (.inl none))
  have weighed := weighed_tfidf logs tokens active
  have served : Serves (TextQueryCache.Coherent ln sqrt space) (lookupOrBuildTfidfL2Norms ln sqrt
      space (buildTombstoneSet frames) (activeCount space (buildTombstoneSet frames)) tfMode) _ :=
    lookupOrBuildTfidfL2Norms_serves ln sqrt _ _ tfMode
  refine cosineQuery_agree ln sqrt served roots tidy sound source ?_ ?_ ?_ ?_
  · exact roots.nonneg (List.sum_nonneg fun square member => by
      obtain ⟨item, _, rfl⟩ := List.mem_map.mp member
      exact mul_self_nonneg _)
  · refine readLimits_vote tidy weighed (budget_enough enough _) (fun gain member some => ?_) arena
    obtain ⟨weight, listed, rfl⟩ := List.mem_map.mp member
    obtain ⟨item, among, found⟩ := List.mem_filterMap.mp listed
    dsimp only at found
    split at found
    · cases found
    · rename_i counted
      rw [← Option.some.inj found]
      exact ⟨_, mem_budgetTerms.mpr ⟨item, among, counted, rfl⟩, rfl⟩
  · intro gain member idx termFreq delta given
    obtain ⟨weight, listed, rfl⟩ := List.mem_map.mp member
    obtain ⟨item, among, found⟩ := List.mem_filterMap.mp listed
    dsimp only at found
    split at found
    · cases found
    · rename_i counted
      have idf := (tfidfIdf_positive logs active counted).le
      rw [← Option.some.inj given, ← Option.some.inj found]
      exact mul_nonneg (mul_nonneg (scoreTf_nonneg logs tfMode _) idf)
        (mul_nonneg (scoreTf_nonneg logs tfMode _) idf)
  · intro count asked
    refine (queryMatches_length fun termId member => ?_).trans (covered count asked)
    rw [List.map_map] at member
    obtain ⟨weight, listed, rfl⟩ := List.mem_map.mp member
    obtain ⟨item, among, found⟩ := List.mem_filterMap.mp listed
    dsimp only at found
    split at found
    · cases found
    · rw [← Option.some.inj found]
      exact List.mem_map_of_mem among

/-- Without a live document that has a length, every posting is of a dead one. -/
theorem dead_of_inactive (tidy : space.Tidy) {tombstoned : List FrameId}
    (inactive : ¬0 < activeCount (K := K) space tombstoned) (termId : TermId) :
    ∀ row ∈ termRows space termId, row.frameId ∈ tombstoned := by
  intro row listed
  by_contra kept
  have known := (sortByImpact_perm _).mem_iff.mp listed
  have active := ScoredSpace.mem_activeFrames kept (tidy.measured termId row known)
  refine inactive (Nat.cast_pos.mpr ?_)
  rw [activeCorpusStats_eq]
  exact Finset.card_pos.mpr ⟨_, active⟩

theorem countCosineQuery_agree (logs : Logs ln) (roots : Roots sqrt) (tidy : space.Tidy)
    (sound : arena.Sound) (frames : List FrameStub) (source : NormSource) (tokens : List Bytes)
    {topK : Option Nat} {k : Nat}
    (enough : (queryDfs space tokens).sum ≤ k * (queryDfs space tokens).length)
    (covered : ∀ count, topK = some count →
      (queryMatches space (buildTombstoneSet frames) tokens).length ≤ 4 * count) :
    Agree (TextQueryCache.Coherent ln sqrt space)
      (countCosineQuery ln sqrt space frames source tokens topK (some k) arena)
      (countCosineQuery ln sqrt space frames source tokens topK none arena) := by
  refine Agree.ite (agree_pure _ _ _) fun _ => ?_
  have served : Serves (TextQueryCache.Coherent ln sqrt space)
      (lookupOrBuildCountL2Norms sqrt space (buildTombstoneSet frames)) _ :=
    lookupOrBuildCountL2Norms_serves ln sqrt _
  refine cosineQuery_agree ln sqrt served roots tidy sound source ?_ ?_ ?_ ?_
  · exact roots.nonneg (List.sum_nonneg fun square member => by
      obtain ⟨item, _, rfl⟩ := List.mem_map.mp member
      exact mul_self_nonneg _)
  · by_cases active : 0 < activeCount (K := K) space (buildTombstoneSet frames)
    · have weighed := weighed_tfidf logs tokens active
      simp only [active, if_true]
      refine readLimits_vote tidy weighed (budget_enough enough _) (fun gain member some => ?_)
        arena
      obtain ⟨item, among, rfl⟩ := List.mem_map.mp member
      exact ⟨_, mem_budgetTerms.mpr ⟨item, among, some, rfl⟩, rfl⟩
    · rw [voteValue_dead fun term _ => dead_of_inactive tidy active term.1,
        voteValue_dead fun term _ => dead_of_inactive tidy active term.1]
  · intro gain member idx termFreq delta given
    obtain ⟨item, _, rfl⟩ := List.mem_map.mp member
    rw [← Option.some.inj given]
    exact mul_nonneg (Nat.cast_nonneg _) (Nat.cast_nonneg _)
  · intro count asked
    refine (queryMatches_length fun termId member => ?_).trans (covered count asked)
    rwa [List.map_map] at member

omit [LinearOrder K] [FloorSemiring K] [IsStrictOrderedRing K] in
theorem succeed_agree {run other : StateM (TextQueryCache K) (List (Hit K) × QueryArena K)}
    (agree : Agree (TextQueryCache.Coherent ln sqrt space) run other) :
    Agree (TextQueryCache.Coherent ln sqrt space) (succeed run) (succeed other) := by
  obtain ⟨hits, left, right, one, two⟩ := agree
  exact ⟨.ok hits, left, right, one.bind (serves_pure _), two.bind (serves_pure _)⟩

/-- With a budget that has room for all postings of its terms a query returns the same hits, with
the same scores and in the same order, as without a budget. -/
theorem queryText_budget (logs : Logs ln) (roots : Roots sqrt) (tidy : space.Tidy)
    (sound : arena.Sound) (frames : List FrameStub) (tombstonedFrameCount : Nat)
    (algorithm : TextAlgorithm K) (tokens : List Bytes) (topK : Option Nat) (k : Nat)
    (enough : (queryDfs space tokens).sum ≤ k * (queryDfs space tokens).length)
    (covered : algorithm.Covered space (algorithm.tombstones frames tombstonedFrameCount) tokens
      topK) {cache : TextQueryCache K} (coherent : cache.Coherent ln sqrt space) :
    (queryText ln sqrt space frames tombstonedFrameCount algorithm tokens topK (some k) arena
      cache).1.1 = (queryText ln sqrt space frames tombstonedFrameCount algorithm tokens topK none
        arena cache).1.1 := by
  refine Agree.same ?_ coherent
  cases algorithm with
  | bm25 k1 b =>
      refine bm25Query_agree logs tidy sound frames _ k1 b tokens enough ?_
      simpa only [TextAlgorithm.tombstones, decide_eq_true_eq] using covered
  | tfidf tfMode normMode =>
      exact succeed_agree (tfidfQuery_agree logs tidy sound frames tfMode normMode tokens enough
        covered)
  | countCosine source =>
      exact succeed_agree (countCosineQuery_agree logs roots tidy sound frames source tokens enough
        covered)
  | tfidfCosine tfMode source =>
      exact succeed_agree (tfidfCosineQuery_agree logs roots tidy sound frames tfMode source tokens
        enough covered)

end Agreement

/-! ### Four long documents and a short one -/

def longDocument (frameId : FrameId) : FrameId × PendingFrameIndex :=
  (frameId, PendingFrameIndex.fromTokens 1 (List.replicate 3 [97] ++ List.replicate 4 [98]))

/-- The long documents have the first word three times and another four times, the short one has the
first word alone. -/
def fiveDocuments : ScoredSpace where
  text := (buildFlushOutput [longDocument 1, longDocument 2, longDocument 3, longDocument 4,
    (5, PendingFrameIndex.fromTokens 1 [[97]])] {}).1
  docLengths := [0, 7, 7, 7, 7, 1]
  addressable := by decide

theorem fiveDocuments_unlisted {termId : TermId} (first : termId ≠ 0) (second : termId ≠ 1) :
    fiveDocuments.lookupPostingsSparse termId = none ∧ fiveDocuments.text.dfFor termId = 0 := by
  have absent {β : Type} {map : List (TermId × β)} (keys : map.map Prod.fst = [0, 1]) :
      valueAt termRank termId map = none := by
    refine Option.map_eq_none_iff.mpr ((find_none _).mpr fun entry member same => ?_)
    have key : entry.1 ∈ map.map Prod.fst := List.mem_map_of_mem member
    rw [keys, termRank_injective same] at key
    simp [first, second] at key
  have lists : fiveDocuments.text.postingsByTerm.map Prod.fst = [0, 1] := by decide +kernel
  have counts : fiveDocuments.text.dfByTerm.map Prod.fst = [0, 1] := by decide +kernel
  have index : fiveDocuments.text.singleSegmentDirIndex = [] := by decide +kernel
  have locators : fiveDocuments.text.postingsLocator = [] := by decide +kernel
  have entry : fiveDocuments.text.indexedEntry termId = none := by
    unfold TextSpaceState.indexedEntry
    rw [index]
    rfl
  constructor
  · have dense : fiveDocuments.dense = [] := rfl
    unfold ScoredSpace.lookupPostingsSparse TextSpaceState.lookupPostings
    rw [dense, entry, locators, absent lists]
    rfl
  · unfold TextSpaceState.dfFor
    rw [entry, absent counts]
    rfl

theorem fiveDocuments_tidy : fiveDocuments.Tidy := by
  have each (termId : TermId) :
      (((fiveDocuments.lookupPostingsSparse termId).getD []).map TermRow.frameId).Nodup ∧
        ((fiveDocuments.lookupPostingsSparse termId).getD []).length =
          (fiveDocuments.text.dfFor termId).toNat ∧
        ∀ row ∈ (fiveDocuments.lookupPostingsSparse termId).getD [],
          0 < fiveDocuments.docLength row.frameId.toNat := by
    by_cases first : termId = 0
    · rw [first]
      exact ⟨by decide +kernel, by decide +kernel, by decide +kernel⟩
    by_cases second : termId = 1
    · rw [second]
      exact ⟨by decide +kernel, by decide +kernel, by decide +kernel⟩
    obtain ⟨rows, df⟩ := fiveDocuments_unlisted first second
    rw [rows, df]
    exact ⟨List.nodup_nil, rfl, nofun⟩
  exact ⟨fun termId => (each termId).1, fun termId => (each termId).2.1,
    fun termId => (each termId).2.2⟩

theorem log_logs : Logs Real.log :=
  ⟨Real.log_one, fun _ _ positive less => Real.log_lt_log positive less⟩

theorem sqrt_roots : Roots Real.sqrt :=
  ⟨Real.sqrt_zero, fun _ => Real.sqrt_pos.mpr⟩

/-- A pool of eight has all five documents. -/
theorem fiveDocuments_budget :
    (queryText Real.log Real.sqrt fiveDocuments [] 0 (.countCosine .exact) [[97]] (some 2) (some 5)
      {} {}).1.1 = (queryText Real.log Real.sqrt fiveDocuments [] 0 (.countCosine .exact) [[97]]
        (some 2) none {} {}).1.1 := by
  refine queryText_budget log_logs sqrt_roots fiveDocuments_tidy QueryArena.empty_sound [] 0
    (.countCosine .exact) [[97]] (some 2) 5 (by decide +kernel) ?_ (coherent_empty _ _ _)
  intro count asked
  obtain rfl := Option.some.inj asked
  decide +kernel

/-- A line that rises through zero at one and, at two, through the 32-bit logarithm of two. -/
def lineLog (x : ℚ) : ℚ := (x - 1) * (11629080 / 16777216)

theorem lineLog_logs : Logs lineLog where
  one := by decide +kernel
  mono x y _ less := by
    unfold lineLog
    exact mul_lt_mul_of_pos_right (sub_lt_sub_right less 1) (by norm_num)

/-- The square roots of nought, one and twenty-five. -/
def knownRoot (x : ℚ) : ℚ := if x = 0 then 0 else if x = 25 then 5 else 1

theorem knownRoot_roots : Roots knownRoot where
  zero := rfl
  positive x positive := by
    unfold knownRoot
    rw [if_neg positive.ne']
    split
    · norm_num
    · norm_num

/-- The hit that is asked for is the short document; the pool of four has the long ones alone. -/
theorem shortDocument_missed : ¬∀ (ln sqrt : ℚ → ℚ), Logs ln → Roots sqrt →
    ∀ space : ScoredSpace, space.Tidy → ∀ arena : QueryArena ℚ, arena.Sound →
    ∀ (frames : List FrameStub) (tombstonedFrameCount : Nat) (algorithm : TextAlgorithm ℚ)
      (tokens : List Bytes) (topK : Option Nat) (k : Nat),
    (queryDfs space tokens).sum ≤ k * (queryDfs space tokens).length →
    ∀ cache : TextQueryCache ℚ, cache.Coherent ln sqrt space →
    (queryText ln sqrt space frames tombstonedFrameCount algorithm tokens topK (some k) arena
      cache).1.1 = (queryText ln sqrt space frames tombstonedFrameCount algorithm tokens topK none
        arena cache).1.1 := by
  intro same
  have equal := same lineLog knownRoot lineLog_logs knownRoot_roots fiveDocuments
    fiveDocuments_tidy {} QueryArena.empty_sound [] 0 (.countCosine .exact) [[97]] (some 1) 5
    (by decide +kernel) {} (coherent_empty _ _ _)
  let first (result : Result (List (Hit ℚ))) : Option (List FrameId) :=
    result.toOption.map fun hits => hits.map (·.frameId)
  have different : first (queryText lineLog knownRoot fiveDocuments [] 0 (.countCosine .exact)
      [[97]] (some 1) (some 5) {} {}).1.1 ≠ first (queryText lineLog knownRoot fiveDocuments [] 0
        (.countCosine .exact) [[97]] (some 1) none {} {}).1.1 := by
    decide +kernel
  exact different (congrArg first equal)

end Valise
