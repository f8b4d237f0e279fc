import Valise.Bm25Scores
import Valise.Library.Caching
import Valise.WaterFill

/-!
The caches that the queries of a text space read through: what each holds, what it is built from,
and that it serves what would be computed anew.
-/

namespace Valise

open ByteLists Caching Outcomes SortedTables TopKs

structure CountL2Cache (K : Type) where
  nFrames : Nat
  vec : List K

structure TfidfL2Cache (K : Type) where
  tfMode : TfMode
  nActive : K
  nFrames : Nat
  vec : List K

/-- All six caches; the norms are cached only where nothing is tombstoned. -/
structure TextQueryCache (K : Type) extends Bm25QueryCache K where
  countL2Norms : Option (CountL2Cache K) := none
  tfidfL2Norms : List (TfidfL2Cache K) := []
  decodedPostings : List (TermId × List TermRow) := []

/-- Every term with a posting list, from the write-side maps if they have any. -/
def ScoredSpace.iterAllPostings (space : ScoredSpace) : List (TermId × List TermRow) :=
  if space.text.postingsByTerm ≠ [] then
    space.text.postingsByTerm.filterMap fun (termId, rows) =>
      if rows = [] then none
      else some (termId, rows.map fun row => ⟨row.frameId, row.termFreq⟩)
  else if space.text.singleSegmentDirIndex ≠ [] ∧ space.text.postingsSegments ≠ [] then
    (List.range space.text.singleSegmentDirIndex.length).filterMap fun slot =>
      (space.text.singleSegmentDirIndex[slot]?).join.bind fun _ =>
        (space.lookupPostingsSparse (UInt32.ofNat slot)).map (UInt32.ofNat slot, ·)
  else
    space.text.postingsLocator.filterMap fun (termId, _) =>
      (space.lookupPostingsSparse termId).map (termId, ·)

section Lookups

variable {K : Type} [Field K] [LinearOrder K] (ln sqrt : K → K) (space : ScoredSpace)

def scoreTf (mode : TfMode) (termFreq : UInt32) : K :=
  match mode with
  | .raw => termFreq.toNat
  | .log => if 0 < termFreq.toNat then 1 + ln termFreq.toNat else 0

def addSquares (tombstoned : List FrameId) (weight : TermId → UInt32 → Option K) (sums : List K)
    (posting : TermId × List TermRow) : List K :=
  posting.2.foldl (fun sums row =>
    if row.frameId ∈ tombstoned then sums
    else
      match weight posting.1 row.termFreq with
      | none => sums
      | some w => sums.modify row.frameId.toNat (· + w * w)) sums

/-- The frame of a posting has its statistics, so that the sums have a place for it. -/
def docL2NormsFull (tombstoned : List FrameId) (weight : TermId → UInt32 → Option K) : List K :=
  (space.iterAllPostings.foldl (addSquares tombstoned weight)
    (List.replicate space.docLengths.length 0)).map sqrt

def computeDocCountL2NormsFull (tombstoned : List FrameId) : List K :=
  docL2NormsFull sqrt space tombstoned fun _ termFreq => some (termFreq.toNat : K)

def tfidfIdf (nActive : K) (df : UInt32) : K := ln (1 + nActive / df.toNat)

def computeDocTfidfL2NormsFull (tombstoned : List FrameId) (nActive : K) (tfMode : TfMode) :
    List K :=
  docL2NormsFull sqrt space tombstoned fun termId termFreq =>
    if space.text.dfFor termId = 0 then none
    else some (scoreTf ln tfMode termFreq * tfidfIdf ln nActive (space.text.dfFor termId))

def corpusStats (anyTombstoned : Bool) (tombstoned : List FrameId) :
    StateM (TextQueryCache K) (Nat × Nat) := fun cache =>
  let (stats, held) := lookupCorpusStats space anyTombstoned tombstoned cache.toBm25QueryCache
  (stats, { cache with toBm25QueryCache := held })

def lookupOrBuildDocNormalizer (k1 b avgDl : K) : StateM (TextQueryCache K) (List K) := fun cache =>
  let (vec, held) := lookupDocNormalizer space k1 b avgDl cache.toBm25QueryCache
  (vec, { cache with toBm25QueryCache := held })

/-- A miss decodes the list once for both views of it. -/
def lookupOrBuildImpactPosting (termId : TermId) : StateM (TextQueryCache K) (List TermRow) :=
  fun cache =>
    match valueAt termRank termId cache.impactPostings with
    | some rows => (rows, cache)
    | none =>
        let (rows, held) := lookupImpactPosting space termId cache.toBm25QueryCache
        let cache := { cache with toBm25QueryCache := held }
        match space.lookupPostingsSparse termId with
        | none => (rows, cache)
        | some posting => (rows, { cache with
            decodedPostings := store termRank termId posting cache.decodedPostings })

def lookupOrDecodeOriginalPosting (termId : TermId) :
    StateM (TextQueryCache K) (Option (List TermRow)) := fun cache =>
  match valueAt termRank termId cache.decodedPostings with
  | some posting => (some posting, cache)
  | none =>
      let built := lookupOrBuildImpactPosting space termId cache
      (valueAt termRank termId built.2.decodedPostings, built.2)

def lookupOrBuildCountL2Norms (tombstoned : List FrameId) : StateM (TextQueryCache K) (List K) :=
  fun cache =>
    let nFrames := space.docLengths.length
    let build := fun _ : Unit =>
      let vec := computeDocCountL2NormsFull sqrt space tombstoned
      (vec, { cache with countL2Norms := some ⟨nFrames, vec⟩ })
    if tombstoned ≠ [] then (computeDocCountL2NormsFull sqrt space tombstoned, cache)
    else
      match cache.countL2Norms with
      | none => build ()
      | some held => if held.nFrames = nFrames then (held.vec, cache) else build ()

def lookupOrBuildTfidfL2Norms (tombstoned : List FrameId) (nActive : K) (tfMode : TfMode) :
    StateM (TextQueryCache K) (List K) := fun cache =>
  let nFrames := space.docLengths.length
  if tombstoned ≠ [] then (computeDocTfidfL2NormsFull ln sqrt space tombstoned nActive tfMode, cache)
  else
    match cache.tfidfL2Norms.find? fun held =>
        held.tfMode = tfMode ∧ held.nActive = nActive ∧ held.nFrames = nFrames with
    | some held => (held.vec, cache)
    | none =>
        let vec := computeDocTfidfL2NormsFull ln sqrt space tombstoned nActive tfMode
        (vec, { cache with
          tfidfL2Norms := cache.tfidfL2Norms ++ [⟨tfMode, nActive, nFrames, vec⟩] })

/-! ### What is cached is what would be computed -/

structure TextQueryCache.Coherent (cache : TextQueryCache K) : Prop where
  built : cache.toBm25QueryCache.BuiltFrom space
  count : ∀ held, cache.countL2Norms = some held →
    held.vec = computeDocCountL2NormsFull sqrt space []
  tfidf : ∀ held ∈ cache.tfidfL2Norms,
    held.vec = computeDocTfidfL2NormsFull ln sqrt space [] held.nActive held.tfMode
  decoded : ∀ termId posting, valueAt termRank termId cache.decodedPostings = some posting →
    space.lookupPostingsSparse termId = some posting
  complete : ∀ termId rows, valueAt termRank termId cache.impactPostings = some rows →
    valueAt termRank termId cache.decodedPostings = space.lookupPostingsSparse termId

omit [LinearOrder K] in
theorem coherent_empty : TextQueryCache.Coherent ln sqrt space ({} : TextQueryCache K) where
  built := ⟨nofun, nofun, nofun⟩
  count := nofun
  tfidf := nofun
  decoded := nofun
  complete := nofun

variable {space}

omit [LinearOrder K] in
theorem corpusStats_serves {anyTombstoned : Bool} {tombstoned : List FrameId}
    (none : anyTombstoned = false → tombstoned = []) :
    Serves (TextQueryCache.Coherent ln sqrt space) (corpusStats space anyTombstoned tombstoned)
      (activeCorpusStats space.docLengths tombstoned) := by
  intro cache coherent
  obtain ⟨value, kept⟩ := lookupCorpusStats_spec coherent.built none
  refine ⟨value, kept, coherent.count, coherent.tfidf, coherent.decoded, ?_⟩
  have same : (lookupCorpusStats space anyTombstoned tombstoned
      cache.toBm25QueryCache).2.impactPostings = cache.impactPostings := by
    unfold lookupCorpusStats
    split
    · rfl
    · split <;> rfl
  intro termId rows found
  exact coherent.complete termId rows (same ▸ found)

theorem lookupOrBuildDocNormalizer_serves (k1 b avgDl : K) :
    Serves (TextQueryCache.Coherent ln sqrt space) (lookupOrBuildDocNormalizer space k1 b avgDl)
      (buildDocNormalizer space.docLengths k1 b avgDl) := by
  intro cache coherent
  obtain ⟨value, kept⟩ := lookupDocNormalizer_spec coherent.built k1 b avgDl
  refine ⟨value, kept, coherent.count, coherent.tfidf, coherent.decoded, ?_⟩
  have same : (lookupDocNormalizer space k1 b avgDl
      cache.toBm25QueryCache).2.impactPostings = cache.impactPostings := by
    unfold lookupDocNormalizer
    dsimp only
    split
    · rfl
    · split <;> rfl
  intro termId rows found
  exact coherent.complete termId rows (same ▸ found)

omit [LinearOrder K] in
theorem lookupOrBuildImpactPosting_serves (termId : TermId) :
    Serves (TextQueryCache.Coherent ln sqrt space) (lookupOrBuildImpactPosting space termId)
      (sortByImpact ((space.lookupPostingsSparse termId).getD [])) := by
  intro cache coherent
  obtain ⟨value, kept⟩ := lookupImpactPosting_spec coherent.built termId
  unfold lookupOrBuildImpactPosting
  cases held : valueAt termRank termId cache.impactPostings with
  | some rows => exact ⟨coherent.built.impact termId rows held, coherent⟩
  | none =>
      have stored : (lookupImpactPosting space termId cache.toBm25QueryCache).2.impactPostings =
          store termRank termId (sortByImpact ((space.lookupPostingsSparse termId).getD []))
            cache.impactPostings := by
        unfold lookupImpactPosting
        rw [held]
      have others : ∀ other rows, valueAt termRank other
          (lookupImpactPosting space termId cache.toBm25QueryCache).2.impactPostings = some rows →
          other ≠ termId → valueAt termRank other cache.decodedPostings =
            space.lookupPostingsSparse other := by
        intro other rows found different
        rw [stored, valueAt_store termRank termRank_injective, if_neg different.symm] at found
        exact coherent.complete other rows found
      cases posting : space.lookupPostingsSparse termId with
      | none =>
          rw [posting] at value
          refine ⟨value, kept, coherent.count, coherent.tfidf, coherent.decoded, ?_⟩
          intro other rows found
          by_cases same : other = termId
          · rw [same, posting]
            cases decoded : valueAt termRank termId cache.decodedPostings with
            | none => rfl
            | some rows => exact nomatch posting.symm.trans (coherent.decoded termId rows decoded)
          · exact others other rows found same
      | some decoded =>
          rw [posting] at value
          refine ⟨value, kept, coherent.count, coherent.tfidf, ?_, ?_⟩
          · intro other rows found
            rw [valueAt_store termRank termRank_injective] at found
            split at found
            · next same => rw [← same, posting, ← found]
            · exact coherent.decoded other rows found
          · intro other rows found
            rw [valueAt_store termRank termRank_injective]
            split
            · next same => rw [← same, posting]
            · next different => exact others other rows found fun same => different same.symm

omit [Field K] [LinearOrder K] in
theorem lookupOrBuildImpactPosting_cached (termId : TermId) (cache : TextQueryCache K) :
    ∃ rows, valueAt termRank termId
      (lookupOrBuildImpactPosting space termId cache).2.impactPostings = some rows := by
  unfold lookupOrBuildImpactPosting
  cases held : valueAt termRank termId cache.impactPostings with
  | some rows => exact ⟨rows, held⟩
  | none =>
      have stored : (lookupImpactPosting space termId cache.toBm25QueryCache).2.impactPostings =
          store termRank termId (sortByImpact ((space.lookupPostingsSparse termId).getD []))
            cache.impactPostings := by
        unfold lookupImpactPosting
        rw [held]
      refine ⟨sortByImpact ((space.lookupPostingsSparse termId).getD []), ?_⟩
      have found : valueAt termRank termId
          (lookupImpactPosting space termId cache.toBm25QueryCache).2.impactPostings =
            some (sortByImpact ((space.lookupPostingsSparse termId).getD [])) := by
        rw [stored, valueAt_store termRank termRank_injective, if_pos rfl]
      dsimp only
      split
      · exact found
      · exact found

omit [LinearOrder K] in
theorem lookupOrDecodeOriginalPosting_serves (termId : TermId) :
    Serves (TextQueryCache.Coherent ln sqrt space) (lookupOrDecodeOriginalPosting space termId)
      (space.lookupPostingsSparse termId) := by
  intro cache coherent
  unfold lookupOrDecodeOriginalPosting
  cases held : valueAt termRank termId cache.decodedPostings with
  | some posting => exact ⟨(coherent.decoded termId posting held).symm, coherent⟩
  | none =>
      obtain ⟨-, kept⟩ := lookupOrBuildImpactPosting_serves ln sqrt termId cache coherent
      obtain ⟨rows, cached⟩ := lookupOrBuildImpactPosting_cached termId cache
      exact ⟨kept.complete termId rows cached, kept⟩

omit [LinearOrder K] in
theorem lookupOrBuildCountL2Norms_serves (tombstoned : List FrameId) :
    Serves (TextQueryCache.Coherent ln sqrt space)
      (lookupOrBuildCountL2Norms sqrt space tombstoned)
      (computeDocCountL2NormsFull sqrt space tombstoned) := by
  intro cache coherent
  unfold lookupOrBuildCountL2Norms
  by_cases none : tombstoned = []
  · subst none
    have fresh : TextQueryCache.Coherent ln sqrt space { cache with
        countL2Norms := some ⟨space.docLengths.length, computeDocCountL2NormsFull sqrt space []⟩ } := by
      refine ⟨coherent.built, ?_, coherent.tfidf, coherent.decoded, coherent.complete⟩
      rintro _ ⟨⟩
      rfl
    simp only [ne_eq, not_true_eq_false, if_false]
    cases held : cache.countL2Norms with
    | none => exact ⟨rfl, fresh⟩
    | some norms =>
        dsimp only
        split
        · exact ⟨coherent.count norms held, coherent⟩
        · exact ⟨rfl, fresh⟩
  · rw [if_pos none]
    exact ⟨rfl, coherent⟩

theorem lookupOrBuildTfidfL2Norms_serves (tombstoned : List FrameId) (nActive : K)
    (tfMode : TfMode) :
    Serves (TextQueryCache.Coherent ln sqrt space)
      (lookupOrBuildTfidfL2Norms ln sqrt space tombstoned nActive tfMode)
      (computeDocTfidfL2NormsFull ln sqrt space tombstoned nActive tfMode) := by
  intro cache coherent
  unfold lookupOrBuildTfidfL2Norms
  by_cases none : tombstoned = []
  · subst none
    simp only [ne_eq, not_true_eq_false, if_false]
    split
    · next held found =>
        have keys := List.find?_some found
        simp only [Bool.decide_and, Bool.and_eq_true, decide_eq_true_eq] at keys
        refine ⟨?_, coherent⟩
        rw [coherent.tfidf held (List.mem_of_find?_eq_some found), keys.1, keys.2.1]
    · refine ⟨rfl, coherent.built, coherent.count, ?_, coherent.decoded, coherent.complete⟩
      intro held member
      rcases List.mem_append.mp member with old | new
      · exact coherent.tfidf held old
      · rw [List.mem_singleton.mp new]
  · rw [if_pos none]
    exact ⟨rfl, coherent⟩

end Lookups

end Valise
