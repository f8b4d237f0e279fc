import Valise.Library.Runs
import Valise.TextFlushFacts
import Valise.TextQueries

/-!
Runs of one text space that is queried while frames are put, deleted and flushed: the caches are
dropped by the document statistics that a flush records, and serve in every state what would be
computed from the lists and the tombstones of that state.
-/

namespace Valise

open ByteLists Caching Outcomes Runs SortedTables

/-- The frames are those of the catalog, which several text spaces share. -/
structure TextSession (K : Type) where
  space : ScoredSpace
  frames : List FrameStub
  tombstonedFrameCount : Nat
  cache : TextQueryCache K := {}

def invalidateBm25Cache {K : Type} (_ : TextQueryCache K) : TextQueryCache K where
  corpusStats := none
  docNormalizer := none
  impactPostings := []
  countL2Norms := none
  tfidfL2Norms := []
  decodedPostings := []

def ensureFrameCapacity {K : Type} (frameId : FrameId)
    (held : List UInt32 × TextQueryCache K) : List UInt32 × TextQueryCache K :=
  let needed := min (frameId.toNat + 1) wordLimit
  if held.1.length < needed then (QueryArena.resize needed 0 held.1, invalidateBm25Cache held.2)
  else held

/-- The dense lengths of the documents, and the caches that depend on them. -/
def recordDocLength {K : Type} (held : List UInt32 × TextQueryCache K) (entry : DocStatsEntry) :
    List UInt32 × TextQueryCache K :=
  let held := ensureFrameCapacity entry.frameId held
  (held.1.set entry.frameId.toNat entry.totalTerms, invalidateBm25Cache held.2)

/-- A flush that fails while it assigns ids records no statistics; one that fails while it encodes
its segments has recorded them. -/
def recordedStats (pending : PendingFrames) (state : TextSpaceState) : List DocStatsEntry :=
  let assigned := assignTermIds state (newTermBytes state (pendingTokens pending))
  match assigned.2 with
  | .ok _ =>
      match flattenPending assigned.1.lookupTerm pending with
      | .ok _ => pending.map fun (frameId, frame) => docStatsRecord frameId frame
      | _ => []
  | _ => []

namespace TextSession

variable {K : Type}

def flushed (session : TextSession K) (pending : PendingFrames) : List UInt32 × TextQueryCache K :=
  (recordedStats pending session.space.text).foldl recordDocLength
    (session.space.docLengths, session.cache)

def tombstoned (session : TextSession K) : List FrameId := buildTombstoneSet session.frames

def putFrame (session : TextSession K) (frameId : FrameId) : TextSession K :=
  { session with frames := session.frames ++ [⟨frameId, .active⟩] }

def deleteFrame (session : TextSession K) (frameId : FrameId) : TextSession K :=
  { session with
    frames := session.frames.map fun stub =>
      if stub.frameId = frameId then ⟨stub.frameId, .tombstoned⟩ else stub
    tombstonedFrameCount :=
      if session.frames.any fun stub => stub.frameId = frameId ∧ stub.status ≠ .tombstoned then
        session.tombstonedFrameCount + 1
      else session.tombstonedFrameCount }

end TextSession

section Sessions

variable {K : Type} [Field K] [LinearOrder K] [FloorSemiring K] (ln sqrt : K → K)

/-- The reads through a cache, each of which may come between those of other queries. -/
inductive CacheLookup (K : Type) where
  | corpusStats
  | docNormalizer (k1 b avgDl : K)
  | countL2Norms
  | tfidfL2Norms (nActive : K) (tfMode : TfMode)
  | impactPosting (termId : TermId)
  | originalPosting (termId : TermId)

def TextSession.afterLookup (session : TextSession K) : CacheLookup K → TextQueryCache K
  | .corpusStats =>
      (corpusStats session.space (0 < session.tombstonedFrameCount) session.tombstoned
        session.cache).2
  | .docNormalizer k1 b avgDl =>
      (lookupOrBuildDocNormalizer session.space k1 b avgDl session.cache).2
  | .countL2Norms => (lookupOrBuildCountL2Norms sqrt session.space session.tombstoned
      session.cache).2
  | .tfidfL2Norms nActive tfMode =>
      (lookupOrBuildTfidfL2Norms ln sqrt session.space session.tombstoned nActive tfMode
        session.cache).2
  | .impactPosting termId => (lookupOrBuildImpactPosting session.space termId session.cache).2
  | .originalPosting termId => (lookupOrDecodeOriginalPosting session.space termId session.cache).2

def TextSession.query (session : TextSession K) (algorithm : TextAlgorithm K)
    (tokens : List Bytes) (topK channelK : Option Nat) (arena : QueryArena K) :
    StateM (TextQueryCache K) (Result (List (Hit K)) × QueryArena K) :=
  queryText ln sqrt session.space session.frames session.tombstonedFrameCount algorithm tokens topK
    channelK arena

/-- An open starts with empty caches and counts the tombstones. -/
structure TextSession.Opened (session : TextSession K) : Prop where
  cache : session.cache = {}
  counted : session.tombstonedFrameCount =
    session.frames.countP fun stub => stub.status = .tombstoned

inductive TextSessionStep : TextSession K → TextSession K → Prop where
  | commit {session} (pending) (space : ScoredSpace) :
      space.text = (buildFlushOutput pending session.space.text).1 →
      space.dense = session.space.dense → space.docLengths = (session.flushed pending).1 →
      TextSessionStep session { session with space, cache := (session.flushed pending).2 }
  | put {session} (frameId) : TextSessionStep session (session.putFrame frameId)
  | delete {session} (frameId) : TextSessionStep session (session.deleteFrame frameId)
  | lookup {session} (lookup) :
      TextSessionStep session { session with cache := session.afterLookup ln sqrt lookup }
  | query {session} (algorithm tokens topK channelK arena) :
      TextSessionStep session { session with
        cache := (session.query ln sqrt algorithm tokens topK channelK arena session.cache).2 }
  | reopen {session opened} : opened.Opened → TextSessionStep session opened

/-- What the caches serve is what would be computed from the session as it is. -/
structure ServesAnew (session : TextSession K) : Prop where
  corpusStats : (corpusStats session.space (0 < session.tombstonedFrameCount) session.tombstoned
    session.cache).1 = activeCorpusStats session.space.docLengths session.tombstoned
  docNormalizer : ∀ k1 b avgDl : K,
    (lookupOrBuildDocNormalizer session.space k1 b avgDl session.cache).1 =
      buildDocNormalizer session.space.docLengths k1 b avgDl
  countL2Norms : (lookupOrBuildCountL2Norms sqrt session.space session.tombstoned
    session.cache).1 = computeDocCountL2NormsFull sqrt session.space session.tombstoned
  tfidfL2Norms : ∀ nActive tfMode,
    (lookupOrBuildTfidfL2Norms ln sqrt session.space session.tombstoned nActive tfMode
      session.cache).1 =
        computeDocTfidfL2NormsFull ln sqrt session.space session.tombstoned nActive tfMode
  impactPosting : ∀ termId, (lookupOrBuildImpactPosting session.space termId session.cache).1 =
    sortByImpact ((session.space.lookupPostingsSparse termId).getD [])
  originalPosting : ∀ termId, (lookupOrDecodeOriginalPosting session.space termId
    session.cache).1 = session.space.lookupPostingsSparse termId
  queries : ∀ algorithm tokens topK channelK arena,
    (session.query ln sqrt algorithm tokens topK channelK arena session.cache).1 =
      (session.query ln sqrt algorithm tokens topK channelK arena {}).1

/-! ### What the steps keep -/

structure TextSession.Sound (session : TextSession K) : Prop where
  coherent : session.cache.Coherent ln sqrt session.space
  counted : session.tombstonedFrameCount = 0 → session.tombstoned = []

omit [Field K] [LinearOrder K] [FloorSemiring K] in
theorem recordAll_cache (entries : List DocStatsEntry) (held : List UInt32 × TextQueryCache K) :
    entries = [] ∧ entries.foldl recordDocLength held = held ∨
      (entries.foldl recordDocLength held).2 = {} := by
  induction entries using List.reverseRecOn with
  | nil => exact .inl ⟨rfl, rfl⟩
  | append_singleton entries entry ih =>
      rw [List.foldl_append]
      exact .inr rfl

theorem assignTermIds_terms (tokens : List Bytes) (state : TextSpaceState) :
    ∃ known next, (assignTermIds state tokens).1 =
      { state with termIdByBytes := known, nextTermId := next } := by
  induction tokens generalizing state with
  | nil => exact ⟨state.termIdByBytes, state.nextTermId, rfl⟩
  | cons token tokens ih =>
      simp only [assignTermIds]
      split
      · obtain ⟨known, next, same⟩ := ih (state.withTerm token)
        exact ⟨known, next, same⟩
      · exact ⟨state.termIdByBytes, state.nextTermId, rfl⟩

/-- A flush that records no statistics changes no list. -/
theorem buildFlushOutput_unrecorded {pending : PendingFrames} {state : TextSpaceState}
    (unrecorded : recordedStats pending state = []) :
    ∃ known next, (buildFlushOutput pending state).1 =
      { state with termIdByBytes := known, nextTermId := next } := by
  obtain ⟨known, next, assigned⟩ := assignTermIds_terms
    (newTermBytes state (pendingTokens pending)) state
  rcases given : assignTermIds state (newTermBytes state (pendingTokens pending)) with
    ⟨after, newTerms | error | _⟩
  · rw [given] at assigned
    simp only [recordedStats, given] at unrecorded
    simp only [buildFlushOutput, given]
    cases flat : flattenPending after.lookupTerm pending with
    | err error => exact ⟨known, next, assigned⟩
    | panic => exact ⟨known, next, assigned⟩
    | ok tuples =>
        rw [flat] at unrecorded
        obtain rfl := List.map_eq_nil_iff.mp unrecorded
        obtain rfl : tuples = [] := by
          rw [flattenPending] at flat
          exact (Outcome.ok.inj flat).symm
        exact ⟨known, next, assigned⟩
  · rw [given] at assigned
    simp only [buildFlushOutput, given]
    exact ⟨known, next, assigned⟩
  · rw [given] at assigned
    simp only [buildFlushOutput, given]
    exact ⟨known, next, assigned⟩

omit [LinearOrder K] [FloorSemiring K] in
/-- The caches depend on the lists and the lengths, and not on how terms are found. -/
theorem TextQueryCache.Coherent.sameLists {first second : ScoredSpace} {cache : TextQueryCache K}
    (coherent : cache.Coherent ln sqrt first)
    (text : ∃ known next, second.text =
      { first.text with termIdByBytes := known, nextTermId := next })
    (dense : second.dense = first.dense) (lengths : second.docLengths = first.docLengths) :
    cache.Coherent ln sqrt second := by
  obtain ⟨known, next, text⟩ := text
  obtain ⟨secondText, secondDense, secondLengths, _⟩ := second
  obtain rfl : secondText = _ := text
  obtain rfl : secondDense = _ := dense
  obtain rfl : secondLengths = _ := lengths
  exact ⟨⟨coherent.built.stats, coherent.built.normalizer, coherent.built.impact⟩,
    coherent.count, coherent.tfidf, coherent.decoded, coherent.complete⟩

omit [LinearOrder K] [FloorSemiring K] in
theorem TextSession.Sound.commit {session : TextSession K} (sound : session.Sound ln sqrt)
    {pending : PendingFrames} {space : ScoredSpace}
    (text : space.text = (buildFlushOutput pending session.space.text).1)
    (dense : space.dense = session.space.dense)
    (lengths : space.docLengths = (session.flushed pending).1) :
    TextSession.Sound ln sqrt
      { session with space, cache := (session.flushed pending).2 } := by
  refine ⟨?_, sound.counted⟩
  rcases recordAll_cache (recordedStats pending session.space.text)
    (session.space.docLengths, session.cache) with ⟨none, kept⟩ | dropped
  · have same : session.flushed pending = (session.space.docLengths, session.cache) := kept
    obtain ⟨known, next, unlisted⟩ := buildFlushOutput_unrecorded none
    rw [same] at lengths ⊢
    exact sound.coherent.sameLists ln sqrt ⟨known, next, text.trans unlisted⟩ dense lengths
  · have empty : (session.flushed pending).2 = {} := dropped
    rw [empty]
    exact coherent_empty ln sqrt space

theorem buildTombstoneSet_eq {frames : List FrameStub} :
    buildTombstoneSet frames = [] ↔ ∀ stub ∈ frames, stub.status ≠ .tombstoned := by
  simp [buildTombstoneSet, List.filter_eq_nil_iff]

omit [LinearOrder K] [FloorSemiring K] in
theorem TextSession.Sound.delete {session : TextSession K} (sound : session.Sound ln sqrt)
    (frameId : FrameId) : TextSession.Sound ln sqrt (session.deleteFrame frameId) := by
  refine ⟨sound.coherent, fun zero => ?_⟩
  simp only [TextSession.deleteFrame] at zero
  split at zero
  · exact absurd zero (Nat.succ_ne_zero _)
  · next absent =>
      have clear := buildTombstoneSet_eq.mp (sound.counted zero)
      refine buildTombstoneSet_eq.mpr fun stub member => ?_
      obtain ⟨old, held, same⟩ := List.mem_map.mp member
      have other : old.frameId ≠ frameId := by
        intro deleted
        apply absent
        exact List.any_eq_true.mpr ⟨old, held, by simp [deleted, clear old held]⟩
      rw [if_neg other] at same
      exact same ▸ clear old held

omit [FloorSemiring K] in
theorem TextSession.Sound.afterLookup {session : TextSession K} (sound : session.Sound ln sqrt)
    (lookup : CacheLookup K) :
    (session.afterLookup ln sqrt lookup).Coherent ln sqrt session.space := by
  have settled : decide (0 < session.tombstonedFrameCount) = false → session.tombstoned = [] := by
    intro none
    exact sound.counted (by simpa using none)
  cases lookup with
  | corpusStats => exact (corpusStats_serves ln sqrt settled _ sound.coherent).2
  | docNormalizer k1 b avgDl =>
      exact (lookupOrBuildDocNormalizer_serves ln sqrt k1 b avgDl _ sound.coherent).2
  | countL2Norms => exact (lookupOrBuildCountL2Norms_serves ln sqrt _ _ sound.coherent).2
  | tfidfL2Norms nActive tfMode =>
      exact (lookupOrBuildTfidfL2Norms_serves ln sqrt _ nActive tfMode _ sound.coherent).2
  | impactPosting termId =>
      exact (lookupOrBuildImpactPosting_serves ln sqrt termId _ sound.coherent).2
  | originalPosting termId =>
      exact (lookupOrDecodeOriginalPosting_serves ln sqrt termId _ sound.coherent).2

omit [LinearOrder K] [FloorSemiring K] in
theorem TextSession.Opened.sound {session : TextSession K} (opened : session.Opened) :
    session.Sound ln sqrt where
  coherent := by
    rw [opened.cache]
    exact coherent_empty ln sqrt session.space
  counted zero := by
    rw [opened.counted, List.countP_eq_zero] at zero
    exact buildTombstoneSet_eq.mpr fun stub member => by simpa using zero stub member

theorem TextSession.Sound.step {before after : TextSession K} (sound : before.Sound ln sqrt)
    (taken : TextSessionStep ln sqrt before after) : after.Sound ln sqrt := by
  cases taken with
  | commit pending space text dense lengths => exact sound.commit ln sqrt text dense lengths
  | put frameId =>
      refine ⟨sound.coherent, fun zero => ?_⟩
      have clear := buildTombstoneSet_eq.mp (sound.counted zero)
      refine buildTombstoneSet_eq.mpr fun stub member => ?_
      rcases List.mem_append.mp member with old | new
      · exact clear stub old
      · rw [List.mem_singleton.mp new]
        exact nofun
  | delete frameId => exact sound.delete ln sqrt frameId
  | lookup lookup => exact ⟨sound.afterLookup ln sqrt lookup, sound.counted⟩
  | query algorithm tokens topK channelK arena =>
      exact ⟨(queryText_transparent ln sqrt _ _ algorithm tokens topK channelK arena).kept
        sound.coherent, sound.counted⟩
  | reopen opened => exact opened.sound ln sqrt

theorem TextSession.Sound.servesAnew {session : TextSession K} (sound : session.Sound ln sqrt) :
    ServesAnew ln sqrt session where
  corpusStats := by
    refine (corpusStats_serves ln sqrt (fun none => ?_) _ sound.coherent).1
    exact sound.counted (by simpa using none)
  docNormalizer k1 b avgDl :=
    (lookupOrBuildDocNormalizer_serves ln sqrt k1 b avgDl _ sound.coherent).1
  countL2Norms := (lookupOrBuildCountL2Norms_serves ln sqrt _ _ sound.coherent).1
  tfidfL2Norms nActive tfMode :=
    (lookupOrBuildTfidfL2Norms_serves ln sqrt _ nActive tfMode _ sound.coherent).1
  impactPosting termId := (lookupOrBuildImpactPosting_serves ln sqrt termId _ sound.coherent).1
  originalPosting termId :=
    (lookupOrDecodeOriginalPosting_serves ln sqrt termId _ sound.coherent).1
  queries algorithm tokens topK channelK arena :=
    (queryText_transparent ln sqrt _ _ algorithm tokens topK channelK arena).same sound.coherent
      (coherent_empty ln sqrt session.space)

/-- Whatever order commits, deletions and queries come in, what the caches serve is what would be
computed anew, and a query finds on warm caches what it finds on empty ones. -/
theorem textCaches_coherent (session : TextSession K)
    (run : Reachable TextSession.Opened (TextSessionStep ln sqrt) session) :
    ServesAnew ln sqrt session := by
  have sound : session.Sound ln sqrt :=
    run.invariant (fun _ opened => opened.sound ln sqrt) fun _ _ sound taken =>
      sound.step ln sqrt taken
  exact sound.servesAnew ln sqrt

end Sessions

/-! ### A commit, a query and a deletion -/

noncomputable def emptySession : TextSession ℝ where
  space := ⟨{}, [], [], Nat.zero_le _⟩
  frames := []
  tombstonedFrameCount := 0

def onePending : PendingFrames := [(1, PendingFrameIndex.fromTokens 1 [[97]])]

def oneDocument : ScoredSpace where
  text := (buildFlushOutput onePending {}).1
  docLengths := [0, 1]
  addressable := by decide

noncomputable def committedSession : TextSession ℝ where
  space := oneDocument
  frames := [⟨1, .active⟩]
  tombstonedFrameCount := 0

theorem committedSession_reachable : Reachable TextSession.Opened
    (TextSessionStep Real.log Real.sqrt) committedSession := by
  have opened : emptySession.Opened := ⟨rfl, rfl⟩
  exact .step (.step (.start opened) (.put 1)) (.commit onePending oneDocument rfl rfl rfl)

noncomputable def queriedSession : TextSession ℝ :=
  { committedSession with
    cache := (committedSession.query Real.log Real.sqrt (.tfidfCosine .log .exact) [[97]] (some 10)
      none {} committedSession.cache).2 }

theorem deletedSession_servesAnew :
    ServesAnew Real.log Real.sqrt (queriedSession.deleteFrame 1) := by
  have queried : Reachable TextSession.Opened (TextSessionStep Real.log Real.sqrt)
      queriedSession :=
    .step committedSession_reachable (.query (.tfidfCosine .log .exact) [[97]] (some 10) none {})
  exact textCaches_coherent Real.log Real.sqrt (queriedSession.deleteFrame 1)
    (.step queried (.delete 1))

end Valise
