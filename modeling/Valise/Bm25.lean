import Valise.CatalogRows
import Valise.Library.TopK
import Valise.QueryArena
import Valise.TextState

/-!
BM25 over the posting lists of a text space: scores are accumulated term by term from lists in order
of term frequency, and the best are kept. Numbers are those of an ordered field.
-/

namespace Valise

open ByteLists Outcomes SortedTables TopKs

structure TermRow where
  frameId : FrameId
  termFreq : UInt32
deriving DecidableEq, Repr

/-- The frames whose bits are set, from the lowest up. -/
def bitsetFrames (bitset : Bytes) : List FrameId :=
  ((List.range (64 * (bitset.length / 8))).filter fun place =>
    (bitset.getD (place / 8) 0).toNat.testBit (place % 8)).map UInt64.ofNat

/-- What a scorer reads of a text space. `dense` has the bitsets of the terms whose directory entry
is dense, and `docLengths` is indexed by frame id. -/
structure ScoredSpace where
  text : TextSpaceState
  dense : List (TermId × Bytes) := []
  docLengths : List UInt32
  /-- The arena notes the frames it touches in 32 bits. -/
  addressable : docLengths.length ≤ 2 ^ 32

namespace ScoredSpace

/-- A dense term occurs once in each of its frames. -/
def lookupPostingsSparse (space : ScoredSpace) (termId : TermId) : Option (List TermRow) :=
  match valueAt termRank termId space.dense with
  | some bitset => some ((bitsetFrames bitset).map fun frameId => ⟨frameId, 1⟩)
  | none => (space.text.lookupPostings termId).map fun posting =>
      posting.rows.map fun row => ⟨row.frameId, row.termFreq⟩

end ScoredSpace

/-! ### Caches -/

structure DocNormalizerCache (K : Type) where
  k1 : K
  b : K
  avgDl : K
  nFrames : Nat
  vec : List K

structure Bm25QueryCache (K : Type) where
  corpusStats : Option (Nat × Nat) := none
  docNormalizer : Option (DocNormalizerCache K) := none
  impactPostings : List (TermId × List TermRow) := []

/-- The caches of the text space, and the arena of the thread. -/
structure Scratch (K : Type) where
  cache : Bm25QueryCache K := {}
  arena : QueryArena K := {}

structure Hit (K : Type) where
  frameId : FrameId
  score : K

/-- Descending scores, ascending frames where they are equal. -/
def Hit.Before {K : Type} [LT K] (first second : Hit K) : Prop :=
  second.score < first.score ∨ first.score = second.score ∧ first.frameId.toNat < second.frameId.toNat

section Scorer

variable {K : Type} [Field K] [LinearOrder K] (ln : K → K)

instance (first second : Hit K) : Decidable (first.Before second) :=
  inferInstanceAs (Decidable (_ ∨ _))

def buildTombstoneSet (frames : List FrameStub) : List FrameId :=
  (frames.filter (·.status = .tombstoned)).map (·.frameId)

def activeCorpusStats (docLengths : List UInt32) (tombstoned : List FrameId) : Nat × Nat :=
  let active := docLengths.zipIdx.filter fun item =>
    item.1 ≠ 0 ∧ UInt64.ofNat item.2 ∉ tombstoned
  (active.length, (active.map fun item => item.1.toNat).sum)

/-- The statistics are cached only where nothing is tombstoned. -/
def lookupCorpusStats (space : ScoredSpace) (anyTombstoned : Bool) (tombstoned : List FrameId)
    (cache : Bm25QueryCache K) : (Nat × Nat) × Bm25QueryCache K :=
  if anyTombstoned then (activeCorpusStats space.docLengths tombstoned, cache)
  else
    match cache.corpusStats with
    | some stats => (stats, cache)
    | none =>
        let stats := activeCorpusStats space.docLengths tombstoned
        (stats, { cache with corpusStats := some stats })

def buildDocNormalizer (docLengths : List UInt32) (k1 b avgDl : K) : List K :=
  docLengths.map fun dl =>
    if dl = 0 then 0 else k1 * ((1 - b) + b * (dl.toNat : K) * (1 / avgDl))

def lookupDocNormalizer (space : ScoredSpace) (k1 b avgDl : K) (cache : Bm25QueryCache K) :
    List K × Bm25QueryCache K :=
  let nFrames := space.docLengths.length
  let build := fun _ : Unit =>
    let vec := buildDocNormalizer space.docLengths k1 b avgDl
    (vec, { cache with docNormalizer := some ⟨k1, b, avgDl, nFrames, vec⟩ })
  match cache.docNormalizer with
  | none => build ()
  | some held =>
      if held.k1 = k1 ∧ held.b = b ∧ held.avgDl = avgDl ∧ held.nFrames = nFrames then
        (held.vec, cache)
      else build ()

def sortByImpact (rows : List TermRow) : List TermRow :=
  rows.insertionSort fun first second => second.termFreq.toNat < first.termFreq.toNat ∨
    first.termFreq = second.termFreq ∧ first.frameId.toNat ≤ second.frameId.toNat

def lookupImpactPosting (space : ScoredSpace) (termId : TermId) (cache : Bm25QueryCache K) :
    List TermRow × Bm25QueryCache K :=
  match valueAt termRank termId cache.impactPostings with
  | some rows => (rows, cache)
  | none =>
      let rows := sortByImpact ((space.lookupPostingsSparse termId).getD [])
      (rows, { cache with impactPostings := store termRank termId rows cache.impactPostings })

/-! ### Queries -/

def countTerm (termId : TermId) : List (TermId × Nat) → List (TermId × Nat)
  | [] => [(termId, 1)]
  | (known, qf) :: rest =>
      if known = termId then (known, qf + 1) :: rest else (known, qf) :: countTerm termId rest

/-- The known terms of a query in the order in which it has them, with how often it has each. -/
def resolveQueryTerms (text : TextSpaceState) (tokens : List Bytes) : List (TermId × Nat) :=
  tokens.foldl (fun qfs token =>
    match text.lookupTerm token with
    | none => qfs
    | some termId => countTerm termId qfs) []

/-- Robertson and Sparck Jones, smoothed. -/
def bm25Idf (n df : K) : K := ln ((n - df + 1 / 2) / (df + 1 / 2) + 1)

structure TermMeta (K : Type) where
  termId : TermId
  idf : K
  qf : Nat

def termMeta (text : TextSpaceState) (nActive : Nat) (qfs : List (TermId × Nat)) :
    List (TermMeta K) :=
  qfs.filterMap fun item =>
    let df := text.dfFor item.1
    if df = 0 then none
    else some ⟨item.1, bm25Idf ln (nActive : K) (df.toNat : K), item.2⟩

def scoreRow (tombstoned : List FrameId) (docNormalizer : List K) (nFrames : Nat) (termWeight : K)
    (arena : QueryArena K) (row : TermRow) : QueryArena K :=
  if row.frameId ∈ tombstoned then arena
  else
    let idx := row.frameId.toNat
    if nFrames ≤ idx then arena
    else
      let tf : K := row.termFreq.toNat
      let denom := tf + docNormalizer.getD idx 0
      if denom ≤ 0 then arena else arena.accumulate idx (termWeight * tf / denom)

def scoreTerm (space : ScoredSpace) (tombstoned : List FrameId) (docNormalizer : List K) (k1 : K)
    (scratch : Scratch K) (term : TermMeta K) : Scratch K :=
  let (rows, cache) := lookupImpactPosting space term.termId scratch.cache
  let termWeight := (term.qf : K) * term.idf * (k1 + 1)
  ⟨cache, rows.foldl
    (scoreRow tombstoned docNormalizer space.docLengths.length termWeight) scratch.arena⟩

/-- The touched frames whose score is not zero. -/
def touchedHits (touched : List UInt32) (scores : List K) : List (Hit K) :=
  touched.filterMap fun frame =>
    let score := scores.getD frame.toNat 0
    if score = 0 then none else some ⟨UInt64.ofNat frame.toNat, score⟩

/-- All hits are sorted when there is room for them; otherwise a heap keeps the best. -/
def selectTopKFromTouchedSigned (touched : List UInt32) (scores : List K) (cap : Nat) :
    List (Hit K) :=
  if cap = 0 ∨ touched = [] then []
  else if touched.length ≤ cap then (touchedHits touched scores).insertionSort Hit.Before
  else (boundedTop Hit.Before cap (touchedHits touched scores)).insertionSort Hit.Before

def defaultTopK : Nat := 1024

/-- Every posting is read, as without a `channel_k`. -/
def executeBm25 (space : ScoredSpace) (tombstoned : List FrameId) (docNormalizer : List K)
    (terms : List (TermMeta K)) (k1 : K) (topK : Option Nat) (scratch : Scratch K) :
    List (Hit K) × Scratch K :=
  let begun := { scratch with arena := scratch.arena.beginQuery space.docLengths.length }
  let scored := terms.foldl (scoreTerm space tombstoned docNormalizer k1) begun
  let cap := topK.getD defaultTopK
  if cap = 0 then ([], scored)
  else (selectTopKFromTouchedSigned scored.arena.touched scored.arena.scores cap, scored)

structure Bm25Prepared (K : Type) where
  tombstoned : List FrameId
  nActive : Nat
  docNormalizer : List K
  queryTermQfs : List (TermId × Nat)

/-- The numbers in the texts of the errors are left out. -/
def prepareBm25 (space : ScoredSpace) (frames : List FrameStub) (anyTombstoned : Bool) (k1 b : K)
    (tokens : List Bytes) (cache : Bm25QueryCache K) :
    Result (Option (Bm25Prepared K)) × Bm25QueryCache K :=
  if tokens = [] then (.ok none, cache)
  else if k1 < 0 then (.err (.format "BM25: k1 must be finite and >= 0"), cache)
  else if ¬(0 ≤ b ∧ b ≤ 1) then (.err (.format "BM25: b must be in [0, 1]"), cache)
  else
    let tombstoned := if anyTombstoned then buildTombstoneSet frames else []
    let (stats, cache) := lookupCorpusStats space anyTombstoned tombstoned cache
    if stats.1 = 0 then (.ok none, cache)
    else
      let avgDl : K := (stats.2 : K) / (stats.1 : K)
      if avgDl ≤ 0 then (.ok none, cache)
      else
        let queryTermQfs := resolveQueryTerms space.text tokens
        if queryTermQfs = [] then (.ok none, cache)
        else
          let (docNormalizer, cache) := lookupDocNormalizer space k1 b avgDl cache
          (.ok (some ⟨tombstoned, stats.1, docNormalizer, queryTermQfs⟩), cache)

def bm25QueryTopk (space : ScoredSpace) (frames : List FrameStub) (anyTombstoned : Bool) (k1 b : K)
    (tokens : List Bytes) (topK : Option Nat) (scratch : Scratch K) :
    Result (List (Hit K)) × Scratch K :=
  match prepareBm25 space frames anyTombstoned k1 b tokens scratch.cache with
  | (.ok none, cache) => (.ok [], { scratch with cache })
  | (.err error, cache) => (.err error, { scratch with cache })
  | (.panic, cache) => (.panic, { scratch with cache })
  | (.ok (some prepared), cache) =>
      let terms := termMeta ln space.text prepared.nActive prepared.queryTermQfs
      if terms = [] then (.ok [], { scratch with cache })
      else
        let (hits, scratch) := executeBm25 space prepared.tombstoned prepared.docNormalizer terms k1
          topK { scratch with cache }
        (.ok hits, scratch)

end Scorer

/-! ### What the scores are by definition -/

section Definition

variable {K : Type} [Field K] (ln : K → K)

namespace ScoredSpace

variable (space : ScoredSpace)

/-- The rows of a term, but for those that say it does not occur. -/
def occurrences (termId : TermId) : List TermRow :=
  ((space.lookupPostingsSparse termId).getD []).filter (0 < ·.termFreq.toNat)

def termFreq (termId : TermId) (frame : FrameId) : Nat :=
  ((space.occurrences termId).find? (·.frameId = frame)).elim 0 (·.termFreq.toNat)

def docLength (frame : Nat) : Nat := (space.docLengths.getD frame 0).toNat

/-- The frames that have terms and are not tombstoned. -/
def activeFrames (tombstoned : List FrameId) : Finset Nat :=
  (Finset.range space.docLengths.length).filter fun frame =>
    0 < space.docLength frame ∧ UInt64.ofNat frame ∉ tombstoned

def averageLength (tombstoned : List FrameId) : K :=
  (∑ frame ∈ space.activeFrames tombstoned, space.docLength frame : Nat) /
    ((space.activeFrames tombstoned).card : K)

def knownTerms (tokens : List Bytes) : Finset TermId :=
  (tokens.filterMap space.text.lookupTerm).toFinset

def queryFreq (tokens : List Bytes) (termId : TermId) : Nat :=
  (tokens.filterMap space.text.lookupTerm).count termId

def termScore (tombstoned : List FrameId) (k1 b : K) (tokens : List Bytes) (frame : FrameId)
    (termId : TermId) : K :=
  let tf : K := space.termFreq termId frame
  let idf := bm25Idf ln ((space.activeFrames tombstoned).card : K)
    ((space.text.dfFor termId).toNat : K)
  (space.queryFreq tokens termId : K) * idf * (k1 + 1) * tf /
    (tf + k1 * (1 - b + b * (space.docLength frame.toNat : K) / space.averageLength tombstoned))

def bm25Score (tombstoned : List FrameId) (k1 b : K) (tokens : List Bytes) (frame : FrameId) : K :=
  ∑ termId ∈ space.knownTerms tokens, space.termScore ln tombstoned k1 b tokens frame termId

end ScoredSpace

end Definition

end Valise
