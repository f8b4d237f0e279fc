import Valise.TextCaches

/-!
The scored queries of a text space, with and without a budget of reads: each votes over the lists in
order of term frequency, and reranks the best of a budgeted vote on the whole lists. What a query
returns does not depend on what the caches already hold.
-/

namespace Valise

open ByteLists Caching Outcomes SortedTables TopKs

section Queries

variable {K : Type} [Field K] [LinearOrder K] [FloorSemiring K] (ln sqrt : K → K)
  (space : ScoredSpace) (tombstoned : List FrameId)

/-- What a posting adds to the score of its frame, if anything. -/
abbrev Gain (K : Type) := Nat → UInt32 → Option K

def wordLimit : Nat := 2 ^ 64 - 1

/-! ### Voting and reranking -/

def readLimits (channelK : Option Nat) (terms : List (BudgetTerm K)) :
    Option (List (TermId × Nat)) :=
  channelK.map fun k => waterFillBudget terms (min (k * terms.length) wordLimit)

def voteRow (nFrames : Nat) (gain : Gain K) (arena : QueryArena K) (row : TermRow) : QueryArena K :=
  if row.frameId ∈ tombstoned then arena
  else if nFrames ≤ row.frameId.toNat then arena
  else
    match gain row.frameId.toNat row.termFreq with
    | none => arena
    | some delta => arena.accumulate row.frameId.toNat delta

/-- A term without a limit of its own is not read under a budget. -/
def voteTerm (limits : Option (List (TermId × Nat))) (arena : QueryArena K)
    (term : TermId × Gain K) : StateM (TextQueryCache K) (QueryArena K) := do
  let rows ← lookupOrBuildImpactPosting space term.1
  let read := match limits with
    | none => rows
    | some limits => rows.take (limitOf term.1 limits)
  return read.foldl (voteRow tombstoned space.docLengths.length term.2) arena

def vote (limits : Option (List (TermId × Nat))) (terms : List (TermId × Gain K))
    (arena : QueryArena K) : StateM (TextQueryCache K) (QueryArena K) :=
  terms.foldlM (voteTerm space tombstoned limits) (arena.beginQuery space.docLengths.length)

/-- The scores of these queries are not negative, so that their bits are in their order. -/
def selectTopKFromTouched (touched : List UInt32) (scores : List K) (cap : Nat) : List (Hit K) :=
  if cap = 0 ∨ touched = [] then []
  else if touched.length ≤ cap then (touchedHits touched scores).insertionSort Hit.Before
  else (boundedTop Hit.Before cap
    ((touchedHits touched scores).filter fun hit => 0 < hit.score)).insertionSort Hit.Before

omit [FloorSemiring K] in
/-- The hits are the first of all, if no score is below zero or all hits are asked for. -/
theorem selectTopKFromTouched_isTop {touched : List UInt32} {scores : List K}
    (distinct : touched.Nodup) (cap : Nat)
    (simple : (∀ hit ∈ touchedHits touched scores, 0 ≤ hit.score) ∨ touched.length ≤ cap) :
    IsTop Hit.Before cap (touchedHits touched scores) (selectTopKFromTouched touched scores cap) := by
  have nodup := touchedHits_distinct distinct scores
  unfold selectTopKFromTouched
  split
  · rename_i nothing
    refine ⟨.nil, (fun _ member => by cases member), Nat.zero_le _, fun hit member => ?_⟩
    rcases nothing with zero | none
    · exact .inr ⟨zero.symm, fun _ better => by cases better⟩
    · rw [none] at member
      cases member
  · rename_i some
    split
    · rename_i room
      exact isTop_all before_ranks nodup ((List.length_filterMap_le _ _).trans room)
    · rename_i noRoom
      have nonneg := simple.resolve_right noRoom
      have all : (touchedHits touched scores).filter (fun hit => 0 < hit.score) =
          touchedHits touched scores := by
        refine List.filter_eq_self.mpr fun hit member => decide_eq_true ?_
        exact (nonneg hit member).lt_of_ne (mem_touchedHits_iff.mp member).2.2.symm
      rw [all]
      exact (boundedTop_isTop before_ranks
        (Nat.pos_iff_ne_zero.mpr fun none => some (.inl none)) nodup).sort before_ranks

def rerankPoolSize (topK : Option Nat) : Option Nat :=
  topK.map fun k => max (min (k * 4) wordLimit) k

def sortAndTruncate (hits : List (Hit K)) (topK : Option Nat) : List (Hit K) :=
  match topK with
  | none => hits.insertionSort Hit.Before
  | some k => (hits.insertionSort Hit.Before).take k

/-- A binary search of a list in frame order. -/
def tfForFid (rows : List TermRow) (frameId : FrameId) : Option UInt32 :=
  (rows.find? (·.frameId = frameId)).map (·.termFreq)

def originalPosting (held : List (TermId × List TermRow)) (termId : TermId) :
    StateM (TextQueryCache K) (List (TermId × List TermRow)) := do
  let posting ← lookupOrDecodeOriginalPosting space termId
  match posting with
  | none => return held
  | some rows => return store termRank termId rows held

def originalPostings (terms : List TermId) :
    StateM (TextQueryCache K) (List (TermId × List TermRow)) :=
  terms.foldlM (originalPosting space) []

def addGain (rows : Option (List TermRow)) (frameId : FrameId) (gain : Gain K) (sum : K) : K :=
  match (rows.bind fun rows => tfForFid rows frameId).bind (gain frameId.toNat) with
  | none => sum
  | some delta => sum + delta

def exactSum (originals : List (TermId × List TermRow)) (terms : List (TermId × Gain K))
    (frameId : FrameId) : K :=
  terms.foldl (fun sum term =>
    addGain (valueAt termRank term.1 originals) frameId term.2 sum) 0

/-! ### BM25 -/

def bm25Gain (docNormalizer : List K) (k1 : K) (term : TermMeta K) : Gain K := fun idx termFreq =>
  let tf : K := termFreq.toNat
  let denom := tf + docNormalizer.getD idx 0
  if denom ≤ 0 then none else some ((term.qf : K) * term.idf * (k1 + 1) * tf / denom)

def executeBm25Query (docNormalizer : List K) (terms : List (TermMeta K)) (k1 : K)
    (topK channelK : Option Nat) (arena : QueryArena K) :
    StateM (TextQueryCache K) (List (Hit K) × QueryArena K) := do
  let limits := readLimits channelK (terms.map fun term =>
    ⟨term.termId, term.idf, space.text.dfFor term.termId⟩)
  let gains := terms.map fun term => (term.termId, bm25Gain docNormalizer k1 term)
  let arena ← vote space tombstoned limits gains arena
  match channelK with
  | none =>
      let cap := topK.getD defaultTopK
      if cap = 0 then return ([], arena)
      else return (selectTopKFromTouchedSigned arena.touched arena.scores cap, arena)
  | some _ =>
      let candidates := selectTopKFromTouchedSigned arena.touched arena.scores
        ((rerankPoolSize topK).getD wordLimit)
      let originals ← originalPostings space (terms.map (·.termId))
      let reranked := candidates.filterMap fun hit =>
        if space.docLengths.length ≤ hit.frameId.toNat then none
        else
          let exact := exactSum originals gains hit.frameId
          if exact = 0 then none else some ⟨hit.frameId, exact⟩
      return (sortAndTruncate reranked topK, arena)

/-- The checks of the parameters and the tokens come before the first lookup. -/
def prepareQuery (frames : List FrameStub) (anyTombstoned : Bool) (k1 b : K)
    (tokens : List Bytes) : StateM (TextQueryCache K) (Result (Option (Bm25Prepared K))) :=
  fun cache =>
    let (prepared, held) := prepareBm25 space frames anyTombstoned k1 b tokens
      cache.toBm25QueryCache
    (prepared, { cache with toBm25QueryCache := held })

def bm25Query (frames : List FrameStub) (anyTombstoned : Bool) (k1 b : K) (tokens : List Bytes)
    (topK channelK : Option Nat) (arena : QueryArena K) :
    StateM (TextQueryCache K) (Result (List (Hit K)) × QueryArena K) := do
  let prepared ← prepareQuery space frames anyTombstoned k1 b tokens
  match prepared with
  | .err error => return (.err error, arena)
  | .panic => return (.panic, arena)
  | .ok none => return (.ok [], arena)
  | .ok (some prepared) =>
      let terms := termMeta ln space.text prepared.nActive prepared.queryTermQfs
      if terms = [] then return (.ok [], arena)
      else
        let (hits, arena) ← executeBm25Query space prepared.tombstoned prepared.docNormalizer terms
          k1 topK channelK arena
        return (.ok hits, arena)

/-! ### Tf-idf and the cosines -/

inductive NormSource where
  | exact
  | sqrtDocLen
deriving DecidableEq, Repr

def docLengthAt (idx : Nat) : Nat := (space.docLengths.getD idx 0).toNat

def divideScore (usable : Prop) [Decidable usable] (divisor score : K) : K :=
  if usable then score / divisor else 0

/-- The scores of the touched frames, divided in place. -/
def normalizeInPlace (norms : List K) (scale : K) (arena : QueryArena K) : QueryArena K :=
  { arena with
    scores := arena.touched.foldl (fun scores frame =>
      let norm := norms.getD frame.toNat 0
      scores.modify frame.toNat (divideScore (0 < norm) (scale * norm))) arena.scores }

def normalizeByLength (scale : K) (arena : QueryArena K) : QueryArena K :=
  { arena with
    scores := arena.touched.foldl (fun scores frame =>
      let length := docLengthAt space frame.toNat
      scores.modify frame.toNat (divideScore (0 < length) (scale * sqrt length))) arena.scores }

def applyNorm (norms : StateM (TextQueryCache K) (List K)) (source : NormSource) (qNorm : K)
    (arena : QueryArena K) : StateM (TextQueryCache K) (QueryArena K) :=
  match source with
  | .exact => do
      let l2 ← norms
      return normalizeInPlace l2 qNorm arena
  | .sqrtDocLen => return normalizeByLength sqrt space qNorm arena

def docNorm (norms : StateM (TextQueryCache K) (List K)) (source : NormSource) (idx : Nat) :
    StateM (TextQueryCache K) K :=
  match source with
  | .exact => do
      let l2 ← norms
      return l2.getD idx 0
  | .sqrtDocLen => return sqrt (docLengthAt space idx)

def rerankNormed (norms : StateM (TextQueryCache K) (List K)) (source : NormSource) (qNorm : K)
    (originals : List (TermId × List TermRow)) (terms : List (TermId × Gain K))
    (reranked : List (Hit K)) (hit : Hit K) : StateM (TextQueryCache K) (List (Hit K)) := do
  let norm ← docNorm sqrt space norms source hit.frameId.toNat
  let score := exactSum originals terms hit.frameId / (qNorm * norm)
  if 0 < norm ∧ 0 < score then return reranked ++ [⟨hit.frameId, score⟩] else return reranked

/-- What the two cosine queries do once their terms have weights. -/
def cosineQuery (norms : StateM (TextQueryCache K) (List K)) (source : NormSource) (qNorm : K)
    (limits : Option (List (TermId × Nat))) (terms : List (TermId × Gain K))
    (topK channelK : Option Nat) (arena : QueryArena K) :
    StateM (TextQueryCache K) (List (Hit K) × QueryArena K) := do
  let arena ← vote space tombstoned limits terms arena
  match channelK with
  | none =>
      let arena ← applyNorm sqrt space norms source qNorm arena
      return (selectTopKFromTouched arena.touched arena.scores (topK.getD wordLimit), arena)
  | some _ =>
      let candidates := selectTopKFromTouched arena.touched arena.scores
        ((rerankPoolSize topK).getD wordLimit)
      let originals ← originalPostings space (terms.map Prod.fst)
      let reranked ← candidates.foldlM
        (rerankNormed sqrt space norms source qNorm originals terms) []
      return (sortAndTruncate reranked topK, arena)

def activeCount : K := ((activeCorpusStats space.docLengths tombstoned).1 : K)

/-- The terms that some document has, each with the weight of its rarity. -/
def budgetTerms (qCounts : List (TermId × Nat)) (idf : UInt32 → K) : List (BudgetTerm K) :=
  qCounts.filterMap fun item =>
    let df := space.text.dfFor item.1
    if df = 0 then none else some ⟨item.1, idf df, df⟩

def countCosineQuery (frames : List FrameStub) (source : NormSource) (tokens : List Bytes)
    (topK channelK : Option Nat) (arena : QueryArena K) :
    StateM (TextQueryCache K) (List (Hit K) × QueryArena K) :=
  let tombstoned := buildTombstoneSet frames
  let qCounts := resolveQueryTerms space.text tokens
  let qNorm := sqrt (qCounts.map fun item => (item.2 : K) * item.2).sum
  let nActive : K := activeCount space tombstoned
  let terms := budgetTerms space qCounts fun df => if 0 < nActive then tfidfIdf ln nActive df else 0
  if tokens = [] ∨ qCounts = [] ∨ qNorm = 0 ∨ terms.isEmpty then return ([], arena)
  else cosineQuery sqrt space tombstoned (lookupOrBuildCountL2Norms sqrt space tombstoned) source
    qNorm (readLimits channelK terms)
    (qCounts.map fun item => (item.1, fun _ termFreq => some ((item.2 : K) * termFreq.toNat)))
    topK channelK arena

def tfidfCosineQuery (frames : List FrameStub) (tfMode : TfMode) (source : NormSource)
    (tokens : List Bytes) (topK channelK : Option Nat) (arena : QueryArena K) :
    StateM (TextQueryCache K) (List (Hit K) × QueryArena K) :=
  let tombstoned := buildTombstoneSet frames
  let nActive : K := activeCount space tombstoned
  let qCounts := resolveQueryTerms space.text tokens
  let terms := budgetTerms space qCounts (tfidfIdf ln nActive)
  let weights := qCounts.filterMap fun item =>
    let df := space.text.dfFor item.1
    if df = 0 then none
    else
      let idf := tfidfIdf ln nActive df
      some (item.1, idf, scoreTf ln tfMode (UInt32.ofNat item.2) * idf)
  let qNorm := sqrt (weights.map fun item => item.2.2 * item.2.2).sum
  if tokens = [] ∨ nActive = 0 ∨ terms.isEmpty ∨ qNorm = 0 then return ([], arena)
  else cosineQuery sqrt space tombstoned
    (lookupOrBuildTfidfL2Norms ln sqrt space tombstoned nActive tfMode) source qNorm
    (readLimits channelK terms)
    (weights.map fun item =>
      (item.1, fun _ termFreq => some (item.2.2 * (scoreTf ln tfMode termFreq * item.2.1))))
    topK channelK arena

/-- Here each candidate looks its lists up anew. -/
def exactTfidfTerm (frameId : FrameId) (sum : K) (term : TermId × Gain K) :
    StateM (TextQueryCache K) K := do
  let posting ← lookupOrDecodeOriginalPosting space term.1
  return addGain posting frameId term.2 sum

def rerankTfidf (l2 : Option (List K)) (terms : List (TermId × Gain K)) (reranked : List (Hit K))
    (hit : Hit K) : StateM (TextQueryCache K) (List (Hit K)) := do
  let exact ← terms.foldlM (exactTfidfTerm space hit.frameId) 0
  let score := match l2 with
    | none => exact
    | some l2 =>
        let norm := l2.getD hit.frameId.toNat 0
        divideScore (0 < norm) norm exact
  if 0 < score then return reranked ++ [⟨hit.frameId, score⟩] else return reranked

def lookupNorms (norms : StateM (TextQueryCache K) (List K)) (normMode : NormMode) :
    StateM (TextQueryCache K) (Option (List K)) :=
  match normMode with
  | .none => return none
  | .l2 => do
      let l2 ← norms
      return some l2

def tfidfQuery (frames : List FrameStub) (tfMode : TfMode) (normMode : NormMode)
    (tokens : List Bytes) (topK channelK : Option Nat) (arena : QueryArena K) :
    StateM (TextQueryCache K) (List (Hit K) × QueryArena K) := do
  let tombstoned := buildTombstoneSet frames
  let nActive : K := activeCount space tombstoned
  let terms := budgetTerms space (resolveQueryTerms space.text tokens) (tfidfIdf ln nActive)
  let norms := lookupOrBuildTfidfL2Norms ln sqrt space tombstoned nActive tfMode
  let gains : List (TermId × Gain K) := terms.map fun term =>
    (term.termId, fun _ termFreq => some (scoreTf ln tfMode termFreq * term.idf))
  if tokens = [] ∨ nActive = 0 ∨ terms.isEmpty then return ([], arena)
  else
    let arena ← vote space tombstoned (readLimits channelK terms) gains arena
    match channelK with
    | none =>
        let l2 ← lookupNorms norms normMode
        let arena := match l2 with
          | none => arena
          | some l2 => normalizeInPlace l2 1 arena
        return (selectTopKFromTouched arena.touched arena.scores (topK.getD wordLimit), arena)
    | some _ =>
        let candidates := selectTopKFromTouched arena.touched arena.scores
          ((rerankPoolSize topK).getD wordLimit)
        let l2 ← lookupNorms norms normMode
        let reranked ← candidates.foldlM (rerankTfidf space l2 gains) []
        return (sortAndTruncate reranked topK, arena)

inductive TextAlgorithm (K : Type) where
  | bm25 (k1 b : K)
  | tfidf (tfMode : TfMode) (normMode : NormMode)
  | countCosine (source : NormSource)
  | tfidfCosine (tfMode : TfMode) (source : NormSource)

def succeed (run : StateM (TextQueryCache K) (List (Hit K) × QueryArena K)) :
    StateM (TextQueryCache K) (Result (List (Hit K)) × QueryArena K) := do
  let (hits, arena) ← run
  return (.ok hits, arena)

/-- The tombstones are read from the frames of the catalog; BM25 looks at their count first. -/
def queryText (frames : List FrameStub) (tombstonedFrameCount : Nat) (algorithm : TextAlgorithm K)
    (tokens : List Bytes) (topK channelK : Option Nat) (arena : QueryArena K) :
    StateM (TextQueryCache K) (Result (List (Hit K)) × QueryArena K) :=
  match algorithm with
  | .bm25 k1 b =>
      bm25Query ln space frames (0 < tombstonedFrameCount) k1 b tokens topK channelK arena
  | .tfidf tfMode normMode =>
      succeed (tfidfQuery ln sqrt space frames tfMode normMode tokens topK channelK arena)
  | .countCosine source =>
      succeed (countCosineQuery ln sqrt space frames source tokens topK channelK arena)
  | .tfidfCosine tfMode source =>
      succeed (tfidfCosineQuery ln sqrt space frames tfMode source tokens topK channelK arena)

/-! ### No query depends on what is cached -/

variable {space tombstoned}

omit [LinearOrder K] [FloorSemiring K] in
theorem vote_transparent (limits : Option (List (TermId × Nat))) (terms : List (TermId × Gain K))
    (arena : QueryArena K) : Transparent (TextQueryCache.Coherent ln sqrt space)
      (vote space tombstoned limits terms arena) := by
  refine transparent_foldlM (fun arena term => ?_) terms _
  exact (lookupOrBuildImpactPosting_serves ln sqrt term.1).transparent.bind fun rows =>
    transparent_pure _

omit [LinearOrder K] [FloorSemiring K] in
theorem originalPostings_transparent (terms : List TermId) :
    Transparent (TextQueryCache.Coherent ln sqrt space) (originalPostings space terms) := by
  refine transparent_foldlM (fun held termId => ?_) terms _
  refine (lookupOrDecodeOriginalPosting_serves ln sqrt termId).transparent.bind fun posting => ?_
  cases posting with
  | none => exact transparent_pure _
  | some rows => exact transparent_pure _

theorem executeBm25Query_transparent (docNormalizer : List K) (terms : List (TermMeta K)) (k1 : K)
    (topK channelK : Option Nat) (arena : QueryArena K) :
    Transparent (TextQueryCache.Coherent ln sqrt space)
      (executeBm25Query space tombstoned docNormalizer terms k1 topK channelK arena) := by
  refine (vote_transparent ln sqrt _ _ arena).bind fun arena => ?_
  cases channelK with
  | none => exact (transparent_pure _).ite (transparent_pure _)
  | some k =>
      exact (originalPostings_transparent ln sqrt _).bind fun originals => transparent_pure _

omit [FloorSemiring K] in
theorem prepareQuery_transparent (frames : List FrameStub) (anyTombstoned : Bool) (k1 b : K)
    (tokens : List Bytes) : Transparent (TextQueryCache.Coherent ln sqrt space)
      (prepareQuery space frames anyTombstoned k1 b tokens) := by
  let tombstones := if anyTombstoned then buildTombstoneSet frames else []
  have program : prepareQuery space frames anyTombstoned k1 b tokens =
      (if tokens = [] then pure (.ok none)
      else if k1 < 0 then pure (.err (.format "BM25: k1 must be finite and >= 0"))
      else if ¬(0 ≤ b ∧ b ≤ 1) then pure (.err (.format "BM25: b must be in [0, 1]"))
      else do
        let stats ← corpusStats space anyTombstoned tombstones
        if stats.1 = 0 then pure (.ok none)
        else
          let avgDl : K := (stats.2 : K) / (stats.1 : K)
          if avgDl ≤ 0 then pure (.ok none)
          else
            let queryTermQfs := resolveQueryTerms space.text tokens
            if queryTermQfs = [] then pure (.ok none)
            else do
              let docNormalizer ← lookupOrBuildDocNormalizer space k1 b avgDl
              pure (.ok (some ⟨tombstones, stats.1, docNormalizer, queryTermQfs⟩))) := by
    funext cache
    simp only [prepareQuery, prepareBm25]
    split
    · rfl
    split
    · rfl
    split
    · rfl
    change _ = StateT.bind (corpusStats space anyTombstoned tombstones) _ cache
    simp only [StateT.bind, corpusStats, tombstones, bind, pure]
    generalize lookupCorpusStats space anyTombstoned
      (if anyTombstoned then buildTombstoneSet frames else []) cache.toBm25QueryCache = found
    by_cases empty : found.1.1 = 0
    · simp only [empty, if_true]
      rfl
    by_cases flat : (found.1.2 : K) / (found.1.1 : K) ≤ 0
    · simp only [empty, flat, if_true, if_false]
      rfl
    by_cases unknown : resolveQueryTerms space.text tokens = []
    · simp only [empty, flat, unknown, if_true, if_false]
      rfl
    · simp only [empty, flat, unknown, if_false]
      rfl
  have settled : anyTombstoned = false → tombstones = [] := fun clear => by
    simp only [tombstones, clear, Bool.false_eq_true, if_false]
  rw [program]
  refine (transparent_pure _).ite ((transparent_pure _).ite ((transparent_pure _).ite ?_))
  refine (corpusStats_serves ln sqrt settled).transparent.bind fun stats => ?_
  refine (transparent_pure _).ite ((transparent_pure _).ite ((transparent_pure _).ite ?_))
  exact (lookupOrBuildDocNormalizer_serves ln sqrt k1 b _).transparent.bind fun docNormalizer =>
    transparent_pure _

theorem bm25Query_transparent (frames : List FrameStub) (anyTombstoned : Bool) (k1 b : K)
    (tokens : List Bytes) (topK channelK : Option Nat) (arena : QueryArena K) :
    Transparent (TextQueryCache.Coherent ln sqrt space)
      (bm25Query ln space frames anyTombstoned k1 b tokens topK channelK arena) := by
  refine (prepareQuery_transparent ln sqrt frames anyTombstoned k1 b tokens).bind fun prepared => ?_
  rcases prepared with (_ | prepared) | error | _
  · exact transparent_pure _
  · refine (transparent_pure _).ite ?_
    exact (executeBm25Query_transparent ln sqrt _ _ k1 topK channelK arena).bind fun found =>
      transparent_pure _
  · exact transparent_pure _
  · exact transparent_pure _

section Norms

variable {norms : StateM (TextQueryCache K) (List K)}
  (served : Transparent (TextQueryCache.Coherent ln sqrt space) norms)

include served

omit [LinearOrder K] [FloorSemiring K] in
theorem docNorm_transparent (source : NormSource) (idx : Nat) :
    Transparent (TextQueryCache.Coherent ln sqrt space) (docNorm sqrt space norms source idx) := by
  cases source with
  | exact => exact served.bind fun l2 => transparent_pure _
  | sqrtDocLen => exact transparent_pure _

omit [FloorSemiring K] in
theorem applyNorm_transparent (source : NormSource) (qNorm : K) (arena : QueryArena K) :
    Transparent (TextQueryCache.Coherent ln sqrt space)
      (applyNorm sqrt space norms source qNorm arena) := by
  cases source with
  | exact => exact served.bind fun l2 => transparent_pure _
  | sqrtDocLen => exact transparent_pure _

omit [FloorSemiring K] in
theorem cosineQuery_transparent (source : NormSource) (qNorm : K)
    (limits : Option (List (TermId × Nat))) (terms : List (TermId × Gain K))
    (topK channelK : Option Nat) (arena : QueryArena K) :
    Transparent (TextQueryCache.Coherent ln sqrt space)
      (cosineQuery sqrt space tombstoned norms source qNorm limits terms topK channelK arena) := by
  refine (vote_transparent ln sqrt limits terms arena).bind fun arena => ?_
  cases channelK with
  | none =>
      exact (applyNorm_transparent ln sqrt served source qNorm arena).bind fun arena =>
        transparent_pure _
  | some k =>
      refine (originalPostings_transparent ln sqrt _).bind fun originals => ?_
      refine (transparent_foldlM (fun reranked hit => ?_) _ _).bind fun reranked =>
        transparent_pure _
      exact (docNorm_transparent ln sqrt served source _).bind fun norm =>
        (transparent_pure _).ite (transparent_pure _)

omit [LinearOrder K] [FloorSemiring K] in
theorem lookupNorms_transparent (normMode : NormMode) :
    Transparent (TextQueryCache.Coherent ln sqrt space) (lookupNorms norms normMode) := by
  cases normMode with
  | none => exact transparent_pure _
  | l2 => exact served.bind fun l2 => transparent_pure _

end Norms

theorem countCosineQuery_transparent (frames : List FrameStub) (source : NormSource)
    (tokens : List Bytes) (topK channelK : Option Nat) (arena : QueryArena K) :
    Transparent (TextQueryCache.Coherent ln sqrt space)
      (countCosineQuery ln sqrt space frames source tokens topK channelK arena) := by
  refine (transparent_pure _).ite ?_
  exact cosineQuery_transparent ln sqrt (lookupOrBuildCountL2Norms_serves ln sqrt _).transparent
    source _ _ _ topK channelK arena

theorem tfidfCosineQuery_transparent (frames : List FrameStub) (tfMode : TfMode)
    (source : NormSource) (tokens : List Bytes) (topK channelK : Option Nat)
    (arena : QueryArena K) : Transparent (TextQueryCache.Coherent ln sqrt space)
      (tfidfCosineQuery ln sqrt space frames tfMode source tokens topK channelK arena) := by
  refine (transparent_pure _).ite ?_
  exact cosineQuery_transparent ln sqrt
    (lookupOrBuildTfidfL2Norms_serves ln sqrt _ _ tfMode).transparent source _ _ _ topK channelK
    arena

omit [FloorSemiring K] in
theorem rerankTfidf_transparent (l2 : Option (List K)) (terms : List (TermId × Gain K))
    (reranked : List (Hit K)) (hit : Hit K) : Transparent (TextQueryCache.Coherent ln sqrt space)
      (rerankTfidf space l2 terms reranked hit) := by
  refine (transparent_foldlM (fun sum term => ?_) terms 0).bind fun exact =>
    (transparent_pure _).ite (transparent_pure _)
  exact (lookupOrDecodeOriginalPosting_serves ln sqrt term.1).transparent.bind fun posting =>
    transparent_pure _

theorem tfidfQuery_transparent (frames : List FrameStub) (tfMode : TfMode) (normMode : NormMode)
    (tokens : List Bytes) (topK channelK : Option Nat) (arena : QueryArena K) :
    Transparent (TextQueryCache.Coherent ln sqrt space)
      (tfidfQuery ln sqrt space frames tfMode normMode tokens topK channelK arena) := by
  have served : Transparent (TextQueryCache.Coherent ln sqrt space) (lookupOrBuildTfidfL2Norms ln
      sqrt space (buildTombstoneSet frames) (activeCount space (buildTombstoneSet frames)) tfMode) :=
    (lookupOrBuildTfidfL2Norms_serves ln sqrt _ _ tfMode).transparent
  refine (transparent_pure _).ite ?_
  refine (vote_transparent ln sqrt _ _ arena).bind fun arena => ?_
  cases channelK with
  | none =>
      exact (lookupNorms_transparent ln sqrt served normMode).bind fun l2 => transparent_pure _
  | some k =>
      refine (lookupNorms_transparent ln sqrt served normMode).bind fun l2 => ?_
      exact (transparent_foldlM (rerankTfidf_transparent ln sqrt l2 _) _ _).bind fun reranked =>
        transparent_pure _

theorem queryText_transparent (frames : List FrameStub) (tombstonedFrameCount : Nat)
    (algorithm : TextAlgorithm K) (tokens : List Bytes) (topK channelK : Option Nat)
    (arena : QueryArena K) : Transparent (TextQueryCache.Coherent ln sqrt space)
      (queryText ln sqrt space frames tombstonedFrameCount algorithm tokens topK channelK arena) := by
  cases algorithm with
  | bm25 k1 b => exact bm25Query_transparent ln sqrt frames _ k1 b tokens topK channelK arena
  | tfidf tfMode normMode =>
      exact (tfidfQuery_transparent ln sqrt frames tfMode normMode tokens topK channelK arena).bind
        fun found => transparent_pure _
  | countCosine source =>
      exact (countCosineQuery_transparent ln sqrt frames source tokens topK channelK arena).bind
        fun found => transparent_pure _
  | tfidfCosine tfMode source =>
      exact (tfidfCosineQuery_transparent ln sqrt frames tfMode source tokens topK channelK
        arena).bind fun found => transparent_pure _

end Queries

end Valise
