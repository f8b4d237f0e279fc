import Valise.Bm25
import Valise.TextRuns

/-!
BM25 scores against their definition: what a query accumulates for a frame, whatever the caches
hold, and when that is the sum over the terms of the query.
-/

namespace Valise

open ByteLists Outcomes SortedTables TopKs

/-! ### Caches -/

section Caches

variable {K : Type} [Field K] [LinearOrder K] {space : ScoredSpace} {cache : Bm25QueryCache K}

/-- The cache has what earlier queries of the same text space built. -/
structure Bm25QueryCache.BuiltFrom (space : ScoredSpace) (cache : Bm25QueryCache K) : Prop where
  stats : ∀ stats, cache.corpusStats = some stats → stats = activeCorpusStats space.docLengths []
  normalizer : ∀ held, cache.docNormalizer = some held →
    held.vec = buildDocNormalizer space.docLengths held.k1 held.b held.avgDl
  impact : ∀ termId rows, valueAt termRank termId cache.impactPostings = some rows →
    rows = sortByImpact ((space.lookupPostingsSparse termId).getD [])

omit [LinearOrder K] in
theorem lookupCorpusStats_spec (built : cache.BuiltFrom space) {anyTombstoned : Bool}
    {tombstoned : List FrameId} (none : anyTombstoned = false → tombstoned = []) :
    (lookupCorpusStats space anyTombstoned tombstoned cache).1 =
        activeCorpusStats space.docLengths tombstoned ∧
      (lookupCorpusStats space anyTombstoned tombstoned cache).2.BuiltFrom space := by
  unfold lookupCorpusStats
  split
  · exact ⟨rfl, built⟩
  · rename_i clear
    obtain rfl := none (by simpa using clear)
    cases held : cache.corpusStats with
    | some stats => exact ⟨built.stats stats held, built⟩
    | none =>
        refine ⟨rfl, ?_, built.normalizer, built.impact⟩
        rintro _ ⟨⟩
        rfl

theorem lookupDocNormalizer_spec (built : cache.BuiltFrom space) (k1 b avgDl : K) :
    (lookupDocNormalizer space k1 b avgDl cache).1 =
        buildDocNormalizer space.docLengths k1 b avgDl ∧
      (lookupDocNormalizer space k1 b avgDl cache).2.BuiltFrom space := by
  have fresh : Bm25QueryCache.BuiltFrom space { cache with docNormalizer := some ⟨k1, b, avgDl,
      space.docLengths.length, buildDocNormalizer space.docLengths k1 b avgDl⟩ } := by
    refine ⟨built.stats, ?_, built.impact⟩
    rintro _ ⟨⟩
    rfl
  unfold lookupDocNormalizer
  cases held : cache.docNormalizer with
  | none => exact ⟨rfl, fresh⟩
  | some normalizer =>
      dsimp only
      split
      · rename_i same
        refine ⟨?_, built⟩
        rw [built.normalizer normalizer held, same.1, same.2.1, same.2.2.1]
      · exact ⟨rfl, fresh⟩

omit [LinearOrder K] in
theorem lookupImpactPosting_spec (built : cache.BuiltFrom space) (termId : TermId) :
    (lookupImpactPosting space termId cache).1 =
        sortByImpact ((space.lookupPostingsSparse termId).getD []) ∧
      (lookupImpactPosting space termId cache).2.BuiltFrom space := by
  unfold lookupImpactPosting
  cases held : valueAt termRank termId cache.impactPostings with
  | some rows => exact ⟨built.impact termId rows held, built⟩
  | none =>
      refine ⟨rfl, built.stats, built.normalizer, ?_⟩
      intro other rows found
      have found : valueAt termRank other (store termRank termId
          (sortByImpact ((space.lookupPostingsSparse termId).getD [])) cache.impactPostings) =
        some rows := found
      rw [valueAt_store termRank termRank_injective] at found
      split at found
      · rename_i same
        rw [← same]
        exact (Option.some.inj found).symm
      · exact built.impact other rows found

end Caches

/-! ### Statistics and terms -/

section Terms

variable {space : ScoredSpace}

theorem activeCorpusStats_eq (space : ScoredSpace) (tombstoned : List FrameId) :
    activeCorpusStats space.docLengths tombstoned =
      ((space.activeFrames tombstoned).card,
        ∑ frame ∈ space.activeFrames tombstoned, space.docLength frame) := by
  let active (frame : Nat) : Bool :=
    0 < space.docLength frame ∧ UInt64.ofNat frame ∉ tombstoned
  have places : space.docLengths.zipIdx = (List.range space.docLengths.length).map fun frame =>
      (space.docLengths.getD frame 0, frame) := by
    refine List.ext_getElem (by simp) fun place inside _ => ?_
    have inside : place < space.docLengths.length := by simpa using inside
    simp [List.getElem?_eq_getElem inside]
  have kept : (space.docLengths.zipIdx.filter fun item =>
      item.1 ≠ 0 ∧ UInt64.ofNat item.2 ∉ tombstoned) =
        ((List.range space.docLengths.length).filter active).map fun frame =>
          (space.docLengths.getD frame 0, frame) := by
    rw [places, List.filter_map]
    refine congrArg _ (List.filter_congr fun frame _ => ?_)
    have positive (length : UInt32) : length ≠ 0 ↔ 0 < length.toNat := by
      rw [Nat.pos_iff_ne_zero, ne_eq, ne_eq, ← UInt32.toNat_inj]
      rfl
    exact decide_eq_decide.mpr (and_congr (positive _) Iff.rfl)
  have nodup : ((List.range space.docLengths.length).filter active).Nodup :=
    List.nodup_range.filter _
  have same : space.activeFrames tombstoned =
      ((List.range space.docLengths.length).filter active).toFinset := by
    ext frame
    simp [ScoredSpace.activeFrames, active]
  unfold activeCorpusStats
  rw [kept, same, List.toFinset_card_of_nodup nodup, List.sum_toFinset _ nodup]
  dsimp only
  rw [List.length_map, List.map_map]
  rfl

/-- A sum over the counted terms is one over all the known tokens. -/
theorem sum_countTerm {K : Type} [Field K] (value : TermId → K) (termId : TermId)
    (qfs : List (TermId × Nat)) :
    ((countTerm termId qfs).map fun item => (item.2 : K) * value item.1).sum =
      (qfs.map fun item => (item.2 : K) * value item.1).sum + value termId := by
  induction qfs with
  | nil => simp [countTerm]
  | cons item rest ih =>
      obtain ⟨known, qf⟩ := item
      unfold countTerm
      split
      · rename_i same
        simp only [List.map_cons, List.sum_cons, same]
        push_cast
        ring
      · simp only [List.map_cons, List.sum_cons, ih]
        ring

theorem sum_resolveQueryTerms {K : Type} [Field K] (space : ScoredSpace) (tokens : List Bytes)
    (value : TermId → K) :
    ((resolveQueryTerms space.text tokens).map fun item => (item.2 : K) * value item.1).sum =
      ∑ termId ∈ space.knownTerms tokens, (space.queryFreq tokens termId : K) * value termId := by
  have all : ((resolveQueryTerms space.text tokens).map fun item =>
      (item.2 : K) * value item.1).sum =
        ((tokens.filterMap space.text.lookupTerm).map value).sum := by
    unfold resolveQueryTerms
    induction tokens using List.reverseRecOn with
    | nil => rfl
    | append_singleton tokens token ih =>
        rw [List.foldl_concat, List.filterMap_append, List.map_append, List.sum_append, ← ih]
        cases known : space.text.lookupTerm token with
        | none => simp [known]
        | some termId => simp [known, sum_countTerm]
  rw [all, Finset.sum_list_map_count]
  exact Finset.sum_congr rfl fun termId _ => nsmul_eq_mul _ _

theorem countTerm_keys (termId : TermId) (qfs : List (TermId × Nat)) :
    (countTerm termId qfs).map Prod.fst =
      if termId ∈ qfs.map Prod.fst then qfs.map Prod.fst else qfs.map Prod.fst ++ [termId] := by
  induction qfs with
  | nil => rfl
  | cons first rest ih =>
      unfold countTerm
      by_cases same : first.1 = termId
      · have first_key : termId ∈ (first :: rest).map Prod.fst :=
          List.mem_cons.mpr (.inl same.symm)
        rw [if_pos same, if_pos first_key]
        rfl
      · have apart : termId ≠ first.1 := fun back => same back.symm
        rw [if_neg same, List.map_cons, ih, List.map_cons]
        simp only [List.mem_cons, apart, false_or]
        split
        · rfl
        · rfl

theorem resolveQueryTerms_nodup (text : TextSpaceState) (tokens : List Bytes) :
    ((resolveQueryTerms text tokens).map Prod.fst).Nodup := by
  unfold resolveQueryTerms
  refine List.foldlRecOn (motive := fun qfs : List (TermId × Nat) => (qfs.map Prod.fst).Nodup)
    tokens _ List.nodup_nil ?_
  intro qfs distinct token _
  cases text.lookupTerm token with
  | none => exact distinct
  | some termId =>
      dsimp only
      rw [countTerm_keys]
      split
      · exact distinct
      · rename_i new
        refine List.nodup_append.mpr ⟨distinct, List.nodup_singleton _, ?_⟩
        rintro known member other last rfl
        exact new (List.mem_singleton.mp last ▸ member)

theorem resolveQueryTerms_toFinset (space : ScoredSpace) (tokens : List Bytes) :
    ((resolveQueryTerms space.text tokens).map Prod.fst).toFinset = space.knownTerms tokens := by
  unfold resolveQueryTerms ScoredSpace.knownTerms
  induction tokens using List.reverseRecOn with
  | nil => rfl
  | append_singleton tokens token ih =>
      rw [List.foldl_concat, List.filterMap_append, List.toFinset_append, ← ih]
      cases known : space.text.lookupTerm token with
      | none => simp [known]
      | some termId =>
          rw [List.filterMap_cons_some known, countTerm_keys]
          split
          · rename_i old
            have inside := List.mem_toFinset.mpr old
            rw [List.filterMap_nil, List.toFinset_cons, List.toFinset_nil, Finset.union_comm,
              Finset.insert_union, Finset.empty_union, Finset.insert_eq_of_mem inside]
          · rw [List.toFinset_append]
            rfl

end Terms

/-! ### What a query accumulates -/

section Accumulation

variable {K : Type} [Field K] [LinearOrder K] {space : ScoredSpace} {tombstoned : List FrameId}
  {norm : List K} {weight k1 : K}

/-- The addition that a row makes, if any. -/
def contribution (tombstoned : List FrameId) (norm : List K) (nFrames : Nat) (weight : K)
    (row : TermRow) : Option (Nat × K) :=
  if row.frameId ∈ tombstoned then none
  else
    let idx := row.frameId.toNat
    if nFrames ≤ idx then none
    else
      let tf : K := row.termFreq.toNat
      let denom := tf + norm.getD idx 0
      if denom ≤ 0 then none else some (idx, weight * tf / denom)

theorem scoreRow_eq (nFrames : Nat) (arena : QueryArena K) (row : TermRow) :
    scoreRow tombstoned norm nFrames weight arena row =
      match contribution tombstoned norm nFrames weight row with
      | none => arena
      | some item => arena.accumulate item.1 item.2 := by
  unfold scoreRow contribution
  dsimp only
  split_ifs
  · rfl
  · rfl
  · rfl
  · rfl

/-- What one term adds. -/
def termAdditions (space : ScoredSpace) (tombstoned : List FrameId) (norm : List K) (k1 : K)
    (term : TermMeta K) : List (Nat × K) :=
  (sortByImpact ((space.lookupPostingsSparse term.termId).getD [])).filterMap
    (contribution tombstoned norm space.docLengths.length ((term.qf : K) * term.idf * (k1 + 1)))

theorem contribution_inside {nFrames : Nat} {row : TermRow} {item : Nat × K}
    (adds : contribution tombstoned norm nFrames weight row = some item) : item.1 < nFrames := by
  unfold contribution at adds
  dsimp only at adds
  split_ifs at adds with _ outside
  obtain rfl := Option.some.inj adds
  exact Nat.lt_of_not_le outside

variable (tombstoned norm k1) in
theorem scoreTerm_spec {scratch : Scratch K} {added : List (Nat × K)}
    (built : scratch.cache.BuiltFrom space)
    (totals : scratch.arena.Totals space.docLengths.length added) (term : TermMeta K) :
    (scoreTerm space tombstoned norm k1 scratch term).cache.BuiltFrom space ∧
      (scoreTerm space tombstoned norm k1 scratch term).arena.Totals space.docLengths.length
        (added ++ termAdditions space tombstoned norm k1 term) := by
  obtain ⟨rows, kept⟩ := lookupImpactPosting_spec built term.termId
  refine ⟨kept, ?_⟩
  unfold scoreTerm
  dsimp only
  rw [rows]
  have folded (rows : List TermRow) (arena : QueryArena K) (weight : K) :
      rows.foldl (scoreRow tombstoned norm space.docLengths.length weight) arena =
        (rows.filterMap (contribution tombstoned norm space.docLengths.length weight)).foldl
          (fun arena item => arena.accumulate item.1 item.2) arena := by
    rw [List.foldl_filterMap]
    congr 1
    funext arena row
    rw [scoreRow_eq]
    cases contribution tombstoned norm space.docLengths.length weight row <;> rfl
  rw [folded]
  refine totals.accumulateAll space.addressable _ fun item member => ?_
  obtain ⟨row, _, adds⟩ := List.mem_filterMap.mp member
  exact contribution_inside adds

variable (tombstoned norm k1) in
theorem scoreTerms_spec {scratch : Scratch K} {added : List (Nat × K)}
    (built : scratch.cache.BuiltFrom space)
    (totals : scratch.arena.Totals space.docLengths.length added) (terms : List (TermMeta K)) :
    (terms.foldl (scoreTerm space tombstoned norm k1) scratch).cache.BuiltFrom space ∧
      (terms.foldl (scoreTerm space tombstoned norm k1) scratch).arena.Totals
        space.docLengths.length
        (added ++ terms.flatMap (termAdditions space tombstoned norm k1)) := by
  induction terms generalizing scratch added with
  | nil =>
      rw [List.flatMap_nil, List.append_nil]
      exact ⟨built, totals⟩
  | cons term rest ih =>
      obtain ⟨built, totals⟩ := scoreTerm_spec tombstoned norm k1 built totals term
      rw [List.flatMap_cons, ← List.append_assoc]
      exact ih built totals

end Accumulation

/-! ### The best hits -/

section Hits

variable {K : Type} [Field K] [LinearOrder K] {nFrames : Nat} {added : List (Nat × K)}
  {arena : QueryArena K}

omit [Field K] in
theorem before_ranks : Ranks (Hit.Before (K := K)) where
  irrefl := by
    rintro hit (worse | ⟨_, later⟩)
    · exact lt_irrefl _ worse
    · exact lt_irrefl _ later
  trans := by
    rintro first second third (worse | ⟨same, later⟩) (worse' | ⟨same', later'⟩)
    · exact .inl (worse'.trans worse)
    · exact .inl (same' ▸ worse)
    · exact .inl (same ▸ worse')
    · exact .inr ⟨same.trans same', later.trans later'⟩
  total := by
    rintro ⟨first, score⟩ ⟨second, score'⟩ apart
    rcases lt_trichotomy score score' with less | rfl | more
    · exact .inr (.inl less)
    · rcases lt_trichotomy first.toNat second.toNat with less | same | more
      · exact .inl (.inr ⟨rfl, less⟩)
      · exact absurd (by rw [UInt64.toNat_inj.mp same]) apart
      · exact .inr (.inr ⟨rfl, more⟩)
    · exact .inl (.inl more)

theorem mem_touchedHits_iff {touched : List UInt32} {scores : List K} {hit : Hit K} :
    hit ∈ touchedHits touched scores ↔ (∃ fid ∈ touched, fid.toNat = hit.frameId.toNat) ∧
      hit.score = scores.getD hit.frameId.toNat 0 ∧ hit.score ≠ 0 := by
  have wide (frame : UInt32) : (UInt64.ofNat frame.toNat).toNat = frame.toNat :=
    UInt64.toNat_ofNat_of_lt' (frame.toNat_lt.trans (by decide))
  unfold touchedHits
  rw [List.mem_filterMap]
  constructor
  · rintro ⟨frame, known, found⟩
    dsimp only at found
    split at found
    · cases found
    · rename_i counts
      obtain rfl := Option.some.inj found
      rw [wide]
      exact ⟨⟨frame, known, rfl⟩, rfl, counts⟩
  · rintro ⟨⟨fid, known, same⟩, score, counts⟩
    refine ⟨fid, known, ?_⟩
    dsimp only
    have frame : UInt64.ofNat hit.frameId.toNat = hit.frameId := UInt64.ofNat_toNat
    rw [same, ← score, if_neg counts, frame]

theorem mem_touchedHits (totals : arena.Totals nFrames added) (small : nFrames ≤ 2 ^ 32)
    {hit : Hit K} : hit ∈ touchedHits arena.touched arena.scores ↔
      hit.score = QueryArena.total added hit.frameId.toNat ∧ hit.score ≠ 0 := by
  have held {idx : Nat} (key : idx ∈ added.map Prod.fst) :
      arena.scores.getD idx 0 = QueryArena.total added idx := by
    rw [List.getD_eq_getElem?_getD, totals.scores idx key]
    rfl
  rw [mem_touchedHits_iff]
  constructor
  · rintro ⟨⟨fid, known, same⟩, score, counts⟩
    have key : hit.frameId.toNat ∈ added.map Prod.fst := same ▸ (totals.touched fid).mp known
    exact ⟨score.trans (held key), counts⟩
  · rintro ⟨score, counts⟩
    have key : hit.frameId.toNat ∈ added.map Prod.fst := by
      by_contra new
      rw [QueryArena.total_eq_zero new] at score
      exact counts score
    obtain ⟨item, member, same⟩ := List.mem_map.mp key
    have fits : hit.frameId.toNat < 2 ^ 32 := by
      rw [← same]
      exact (totals.inside item member).trans_le small
    have back : (UInt32.ofNat hit.frameId.toNat).toNat = hit.frameId.toNat :=
      UInt32.toNat_ofNat_of_lt' fits
    have known : UInt32.ofNat hit.frameId.toNat ∈ arena.touched := by
      rw [totals.touched, back]
      exact key
    exact ⟨⟨_, known, back⟩, score.trans (held key).symm, counts⟩

theorem touchedHits_distinct {touched : List UInt32} (distinct : touched.Nodup) (scores : List K) :
    (touchedHits touched scores).Nodup := by
  refine distinct.filterMap ?_
  intro first second hit one two
  rw [Option.mem_def] at one two
  dsimp only at one two
  split_ifs at one two
  have same : UInt64.ofNat first.toNat = UInt64.ofNat second.toNat :=
    congrArg Hit.frameId ((Option.some.inj one).trans (Option.some.inj two).symm)
  have same := congrArg UInt64.toNat same
  have wide (frame : UInt32) : (UInt64.ofNat frame.toNat).toNat = frame.toNat :=
    UInt64.toNat_ofNat_of_lt' (frame.toNat_lt.trans (by decide))
  rw [wide, wide] at same
  exact UInt32.toNat_inj.mp same

theorem touchedHits_nodup (totals : arena.Totals nFrames added) :
    (touchedHits arena.touched arena.scores).Nodup :=
  touchedHits_distinct totals.nodup _

/-- The hits that are selected are the first ones of all that are not zero. -/
theorem select_isTop (totals : arena.Totals nFrames added) (cap : Nat) :
    IsTop Hit.Before cap (touchedHits arena.touched arena.scores)
      (selectTopKFromTouchedSigned arena.touched arena.scores cap) := by
  have nodup := touchedHits_nodup totals
  unfold selectTopKFromTouchedSigned
  split
  · rename_i nothing
    refine ⟨.nil, (fun _ member => by cases member), Nat.zero_le _, fun hit member => ?_⟩
    rcases nothing with rfl | none
    · exact .inr ⟨rfl, fun _ better => by cases better⟩
    · rw [none] at member
      cases member
  · rename_i some
    split
    · rename_i room
      exact isTop_all before_ranks nodup ((List.length_filterMap_le _ _).trans room)
    · exact (boundedTop_isTop before_ranks
        (Nat.pos_iff_ne_zero.mpr fun none => some (.inl none)) nodup).sort before_ranks

end Hits

/-! ### A query -/

section Query

variable {K : Type} [Field K] [LinearOrder K] [IsStrictOrderedRing K] (ln : K → K)
  {space : ScoredSpace} {frames : List FrameStub} {k1 b : K} {tokens : List Bytes}

structure Scratch.Sound (space : ScoredSpace) (scratch : Scratch K) : Prop where
  cache : scratch.cache.BuiltFrom space
  arena : scratch.arena.Sound

/-- The flag that the callers keep. -/
def anyTombstoned (frames : List FrameStub) : Bool := frames.any (·.status = .tombstoned)

theorem buildTombstoneSet_eq_nil (none : anyTombstoned frames = false) :
    buildTombstoneSet frames = [] := by
  unfold buildTombstoneSet
  rw [List.map_eq_nil_iff, List.filter_eq_nil_iff]
  exact List.any_eq_false.mp none

def averageOf (stats : Nat × Nat) : K := (stats.2 : K) / (stats.1 : K)

/-- Everything that a query adds, frame by frame. -/
def additions (space : ScoredSpace) (tombstoned : List FrameId) (k1 b : K) (tokens : List Bytes) :
    List (Nat × K) :=
  let stats := activeCorpusStats space.docLengths tombstoned
  if stats.1 = 0 then []
  else
    (termMeta ln space.text stats.1 (resolveQueryTerms space.text tokens)).flatMap
      (termAdditions space tombstoned
        (buildDocNormalizer space.docLengths k1 b (averageOf stats)) k1)

theorem averageOf_pos (space : ScoredSpace) (tombstoned : List FrameId)
    (some : (activeCorpusStats space.docLengths tombstoned).1 ≠ 0) :
    0 < (averageOf (activeCorpusStats space.docLengths tombstoned) : K) := by
  rw [activeCorpusStats_eq] at some ⊢
  refine div_pos ?_ (Nat.cast_pos.mpr (Nat.pos_iff_ne_zero.mpr some))
  dsimp only at some ⊢
  refine Nat.cast_pos.mpr (Finset.sum_pos (fun frame member => ?_) ?_)
  · exact (Finset.mem_filter.mp member).2.1
  · exact Finset.card_ne_zero.mp some

/-- What is prepared for a query, if there is anything to score. -/
inductive PreparesQuery (space : ScoredSpace) (tombstoned : List FrameId) (k1 b : K)
    (tokens : List Bytes) : Option (Bm25Prepared K) → Prop where
  | nothing : additions ln space tombstoned k1 b tokens = [] →
      PreparesQuery space tombstoned k1 b tokens none
  | ready : (activeCorpusStats space.docLengths tombstoned).1 ≠ 0 →
      PreparesQuery space tombstoned k1 b tokens (some ⟨tombstoned,
        (activeCorpusStats space.docLengths tombstoned).1,
        buildDocNormalizer space.docLengths k1 b
          (averageOf (activeCorpusStats space.docLengths tombstoned)),
        resolveQueryTerms space.text tokens⟩)

omit [IsStrictOrderedRing K] in
theorem additions_of_resolved {tombstoned : List FrameId}
    (none : resolveQueryTerms space.text tokens = []) :
    additions ln space tombstoned k1 b tokens = [] := by
  unfold additions
  rw [none]
  exact ite_self _

variable (frames tokens) in
theorem prepareBm25_spec {cache : Bm25QueryCache K} (built : cache.BuiltFrom space) (positive : 0 ≤ k1)
    (low : 0 ≤ b) (high : b ≤ 1) : ∃ prepared,
    (prepareBm25 space frames (anyTombstoned frames) k1 b tokens cache).1 = .ok prepared ∧
      PreparesQuery ln space (buildTombstoneSet frames) k1 b tokens prepared ∧
      (prepareBm25 space frames (anyTombstoned frames) k1 b tokens cache).2.BuiltFrom space := by
  have set : (if anyTombstoned frames then buildTombstoneSet frames else []) =
      buildTombstoneSet frames := by
    cases any : anyTombstoned frames with
    | true => rfl
    | false => exact (buildTombstoneSet_eq_nil any).symm
  obtain ⟨stats, kept⟩ := lookupCorpusStats_spec built (@buildTombstoneSet_eq_nil frames)
  unfold prepareBm25
  by_cases empty : tokens = []
  · rw [if_pos empty]
    exact ⟨none, rfl, .nothing (additions_of_resolved ln (by rw [empty]; rfl)), built⟩
  rw [if_neg empty, if_neg (not_lt.mpr positive), if_neg (not_not_intro ⟨low, high⟩), set]
  dsimp only
  rw [stats]
  by_cases alone : (activeCorpusStats space.docLengths (buildTombstoneSet frames)).1 = 0
  · rw [if_pos alone]
    exact ⟨none, rfl, .nothing (if_pos alone), kept⟩
  have average : (0 : K) < averageOf _ := averageOf_pos space _ alone
  unfold averageOf at average
  rw [if_neg alone, if_neg (not_le.mpr average)]
  by_cases unknown : resolveQueryTerms space.text tokens = []
  · rw [if_pos unknown]
    exact ⟨none, rfl, .nothing (additions_of_resolved ln unknown), kept⟩
  rw [if_neg unknown]
  obtain ⟨vec, built⟩ := lookupDocNormalizer_spec kept k1 b
    (averageOf (activeCorpusStats space.docLengths (buildTombstoneSet frames)))
  unfold averageOf at vec built
  rw [vec]
  exact ⟨_, rfl, .ready alone, built⟩

omit [IsStrictOrderedRing K] in
theorem executeBm25_eq (space : ScoredSpace) (tombstoned : List FrameId) (docNormalizer : List K)
    (terms : List (TermMeta K)) (k1 : K) (topK : Option Nat) (scratch : Scratch K) :
    executeBm25 space tombstoned docNormalizer terms k1 topK scratch =
      let scored := terms.foldl (scoreTerm space tombstoned docNormalizer k1)
        { scratch with arena := scratch.arena.beginQuery space.docLengths.length }
      (selectTopKFromTouchedSigned scored.arena.touched scored.arena.scores
        (topK.getD defaultTopK), scored) := by
  unfold executeBm25
  dsimp only
  split
  · rename_i zero
    unfold selectTopKFromTouchedSigned
    rw [if_pos (.inl zero)]
  · rfl

variable (frames tokens) in
/-- Whatever the caches and the arena hold, a query returns the first hits among the frames that it
adds something to. -/
theorem bm25QueryTopk_top {scratch : Scratch K} (sound : scratch.Sound space) (positive : 0 ≤ k1)
    (low : 0 ≤ b) (high : b ≤ 1) (topK : Option Nat) : ∃ hits items,
    (bm25QueryTopk ln space frames (anyTombstoned frames) k1 b tokens topK scratch).1 = .ok hits ∧
      (bm25QueryTopk ln space frames (anyTombstoned frames) k1 b tokens topK scratch).2.Sound space ∧
      IsTop Hit.Before (topK.getD defaultTopK) items hits ∧
      ∀ hit, hit ∈ items ↔ hit.score = QueryArena.total
        (additions ln space (buildTombstoneSet frames) k1 b tokens) hit.frameId.toNat ∧
          hit.score ≠ 0 := by
  obtain ⟨prepared, ok, prepares, built⟩ :=
    prepareBm25_spec ln frames tokens sound.cache positive low high
  have nothing (none : additions ln space (buildTombstoneSet frames) k1 b tokens = []) (hit : Hit K) :
      hit ∈ ([] : List (Hit K)) ↔ hit.score = QueryArena.total
        (additions ln space (buildTombstoneSet frames) k1 b tokens) hit.frameId.toNat ∧
          hit.score ≠ 0 := by
    rw [none]
    exact ⟨nofun, fun ⟨zero, counts⟩ => absurd zero counts⟩
  have top : IsTop Hit.Before (topK.getD defaultTopK) ([] : List (Hit K)) [] :=
    ⟨.nil, nofun, Nat.zero_le _, nofun⟩
  unfold bm25QueryTopk
  generalize prepareBm25 space frames (anyTombstoned frames) k1 b tokens scratch.cache = done at ok built
  obtain ⟨_, cache⟩ := done
  obtain rfl := ok
  cases prepares with
  | nothing none => exact ⟨[], [], rfl, ⟨built, sound.arena⟩, top, nothing none⟩
  | ready some =>
      have all : (termMeta ln space.text
          (activeCorpusStats space.docLengths (buildTombstoneSet frames)).1
          (resolveQueryTerms space.text tokens)).flatMap (termAdditions space
            (buildTombstoneSet frames) (buildDocNormalizer space.docLengths k1 b
              (averageOf (activeCorpusStats space.docLengths (buildTombstoneSet frames)))) k1) =
          additions ln space (buildTombstoneSet frames) k1 b tokens := (if_neg some).symm
      dsimp only
      by_cases none : termMeta ln space.text
          (activeCorpusStats space.docLengths (buildTombstoneSet frames)).1
          (resolveQueryTerms space.text tokens) = []
      · rw [if_pos none]
        rw [none] at all
        exact ⟨[], [], rfl, ⟨built, sound.arena⟩, top, nothing all.symm⟩
      · obtain ⟨kept, totals⟩ := @scoreTerms_spec _ _ _ space (buildTombstoneSet frames)
          (buildDocNormalizer space.docLengths k1 b
            (averageOf (activeCorpusStats space.docLengths (buildTombstoneSet frames)))) k1
          ⟨cache, scratch.arena.beginQuery space.docLengths.length⟩ _ built
          (sound.arena.beginQuery space.docLengths.length) (termMeta ln space.text
            (activeCorpusStats space.docLengths (buildTombstoneSet frames)).1
            (resolveQueryTerms space.text tokens))
        rw [List.nil_append, all] at totals
        rw [if_neg none, executeBm25_eq]
        exact ⟨_, _, rfl, ⟨kept, totals.sound⟩, select_isTop totals _,
          fun hit => mem_touchedHits totals space.addressable⟩

end Query

/-! ### What is added for one frame -/

section Totals

variable {K : Type} [Field K] [LinearOrder K] [IsStrictOrderedRing K] (ln : K → K)
  {space : ScoredSpace} {tombstoned : List FrameId} {k1 b : K} {tokens : List Bytes}
  {frame : FrameId}

omit [LinearOrder K] [IsStrictOrderedRing K] in
theorem total_cons (item : Nat × K) (added : List (Nat × K)) (idx : Nat) :
    QueryArena.total (item :: added) idx =
      (if item.1 = idx then item.2 else 0) + QueryArena.total added idx := by
  unfold QueryArena.total
  by_cases same : item.1 = idx
  · rw [List.filter_cons_of_pos (by simpa using same), List.map_cons, List.sum_cons, if_pos same]
  · rw [List.filter_cons_of_neg (by simpa using same), if_neg same, zero_add]

omit [LinearOrder K] [IsStrictOrderedRing K] in
theorem total_flatMap {α : Type} (items : List α) (adds : α → List (Nat × K)) (idx : Nat) :
    QueryArena.total (items.flatMap adds) idx =
      (items.map fun item => QueryArena.total (adds item) idx).sum := by
  induction items with
  | nil => rfl
  | cons item rest ih =>
      rw [List.flatMap_cons, List.map_cons, List.sum_cons, ← ih]
      unfold QueryArena.total
      rw [List.filter_append, List.map_append, List.sum_append]

/-- The length normalization of a frame; none where it has no terms. -/
def normOf (space : ScoredSpace) (k1 b average : K) (idx : Nat) : K :=
  if space.docLength idx = 0 then 0
  else k1 * ((1 - b) + b * (space.docLength idx : K) * (1 / average))

omit [LinearOrder K] [IsStrictOrderedRing K] in
theorem buildDocNormalizer_getD (space : ScoredSpace) (k1 b average : K) (idx : Nat) :
    (buildDocNormalizer space.docLengths k1 b average).getD idx 0 =
      normOf space k1 b average idx := by
  unfold buildDocNormalizer normOf ScoredSpace.docLength
  rw [List.getD_eq_getElem?_getD, List.getElem?_map, List.getD_eq_getElem?_getD]
  cases space.docLengths[idx]? with
  | none => rfl
  | some dl =>
      have zero : dl = 0 ↔ dl.toNat = 0 := by
        rw [← UInt32.toNat_inj]
        rfl
      simp only [Option.map_some, Option.getD_some, zero]

theorem normOf_nonneg (positive : 0 ≤ k1) (low : 0 ≤ b) (high : b ≤ 1) {average : K}
    (some : 0 < average) (idx : Nat) : 0 ≤ normOf space k1 b average idx := by
  unfold normOf
  split
  · exact le_refl 0
  · have rest : 0 ≤ 1 - b := sub_nonneg.mpr high
    positivity

/-- What the rows of a frame add, but for the weight of the term. -/
def rowSum (rows : List TermRow) (norm : K) (frame : FrameId) : K :=
  ((rows.filter fun row => row.frameId = frame ∧ 0 < row.termFreq.toNat).map fun row =>
    (row.termFreq.toNat : K) / ((row.termFreq.toNat : K) + norm)).sum

theorem total_contributions {norm : List K} {nFrames : Nat} (weight : K) (rows : List TermRow)
    (nonneg : 0 ≤ norm.getD frame.toNat 0) :
    QueryArena.total (rows.filterMap (contribution tombstoned norm nFrames weight)) frame.toNat =
      if frame ∈ tombstoned ∨ nFrames ≤ frame.toNat then 0
      else weight * rowSum rows (norm.getD frame.toNat 0) frame := by
  induction rows with
  | nil =>
      have none : QueryArena.total ([] : List (Nat × K)) frame.toNat = 0 := rfl
      rw [List.filterMap_nil, none]
      split
      · rfl
      · simp [rowSum]
  | cons row rest ih =>
      by_cases here : row.frameId = frame
      · obtain rfl := here
        by_cases skipped : row.frameId ∈ tombstoned ∨ nFrames ≤ row.frameId.toNat
        · have adds : contribution tombstoned norm nFrames weight row = none := by
            unfold contribution
            rcases skipped with gone | outside
            · exact if_pos gone
            · dsimp only
              rw [if_pos outside, ite_self]
          rw [List.filterMap_cons_none adds, ih, if_pos skipped, if_pos skipped]
        · rw [if_neg skipped] at ih ⊢
          obtain ⟨kept, inside⟩ := not_or.mp skipped
          have adds : contribution tombstoned norm nFrames weight row =
              if (row.termFreq.toNat : K) + norm.getD row.frameId.toNat 0 ≤ 0 then none
              else some (row.frameId.toNat, weight * (row.termFreq.toNat : K) /
                ((row.termFreq.toNat : K) + norm.getD row.frameId.toNat 0)) := by
            unfold contribution
            rw [if_neg kept]
            exact if_neg inside
          by_cases occurs : 0 < row.termFreq.toNat
          · have counts : ¬(row.termFreq.toNat : K) + norm.getD row.frameId.toNat 0 ≤ 0 :=
              not_le.mpr (add_pos_of_pos_of_nonneg (Nat.cast_pos.mpr occurs) nonneg)
            rw [if_neg counts] at adds
            rw [List.filterMap_cons_some adds, total_cons, if_pos rfl, ih]
            unfold rowSum
            rw [List.filter_cons_of_pos (by simpa using occurs), List.map_cons, List.sum_cons]
            ring
          · have zero : row.termFreq.toNat = 0 := Nat.eq_zero_of_not_pos occurs
            have none : rowSum (row :: rest) (norm.getD row.frameId.toNat 0) row.frameId =
                rowSum rest (norm.getD row.frameId.toNat 0) row.frameId := by
              unfold rowSum
              rw [List.filter_cons_of_neg (by simp [zero])]
            rw [none, ← ih]
            rw [zero, Nat.cast_zero, mul_zero, zero_div] at adds
            split at adds
            · rw [List.filterMap_cons_none adds]
            · rw [List.filterMap_cons_some adds, total_cons, if_pos rfl, zero_add]
      · have none : rowSum (row :: rest) (norm.getD frame.toNat 0) frame =
            rowSum rest (norm.getD frame.toNat 0) frame := by
          unfold rowSum
          rw [List.filter_cons_of_neg (by simp [here])]
        rw [none, ← ih]
        cases adds : contribution tombstoned norm nFrames weight row with
        | none => rw [List.filterMap_cons_none adds]
        | some item =>
            have place : item.1 = row.frameId.toNat := by
              unfold contribution at adds
              dsimp only at adds
              split_ifs at adds
              obtain rfl := Option.some.inj adds
              rfl
            rw [List.filterMap_cons_some adds, total_cons, if_neg, zero_add]
            rw [place, UInt64.toNat_inj]
            exact here

omit [LinearOrder K] [IsStrictOrderedRing K] in
/-- The order of the rows does not matter. -/
theorem rowSum_perm {first second : List TermRow} (same : first.Perm second) (norm : K)
    (frame : FrameId) : rowSum first norm frame = rowSum second norm frame :=
  ((same.filter _).map _).sum_eq

theorem sortByImpact_perm (rows : List TermRow) : (sortByImpact rows).Perm rows :=
  List.perm_insertionSort _ _

/-- The score of a frame for one occurrence of a term in the query, as it is added up. -/
def termValue (space : ScoredSpace) (nActive : Nat) (k1 b average : K) (frame : FrameId)
    (termId : TermId) : K :=
  if space.text.dfFor termId = 0 then 0
  else bm25Idf ln (nActive : K) ((space.text.dfFor termId).toNat : K) * (k1 + 1) *
    rowSum (space.occurrences termId) (normOf space k1 b average frame.toNat) frame

omit [LinearOrder K] [IsStrictOrderedRing K] in
theorem rowSum_occurrences (space : ScoredSpace) (termId : TermId) (norm : K) (frame : FrameId) :
    rowSum (space.occurrences termId) norm frame =
      rowSum ((space.lookupPostingsSparse termId).getD []) norm frame := by
  unfold rowSum ScoredSpace.occurrences
  rw [List.filter_filter]
  refine congrArg (fun rows => (List.map _ rows).sum) (List.filter_congr fun row _ => ?_)
  by_cases occurs : 0 < row.termFreq.toNat
  · simp [occurs]
  · simp [occurs]

omit [LinearOrder K] [IsStrictOrderedRing K] in
theorem sum_filterMap {α β : Type} (items : List α) (pick : α → Option β) (value : β → K) :
    ((items.filterMap pick).map value).sum =
      (items.map fun item => (pick item).elim 0 value).sum := by
  induction items with
  | nil => rfl
  | cons item rest ih =>
      cases picked : pick item with
      | none =>
          rw [List.filterMap_cons_none picked, ih, List.map_cons, List.sum_cons, picked]
          exact (zero_add _).symm
      | some found =>
          rw [List.filterMap_cons_some picked, List.map_cons, List.map_cons, List.sum_cons,
            List.sum_cons, ih, picked]
          rfl

theorem averageLength_pos (space : ScoredSpace) (tombstoned : List FrameId)
    (some : (space.activeFrames tombstoned).card ≠ 0) :
    (0 : K) < space.averageLength tombstoned := by
  have positive : (0 : K) < averageOf (activeCorpusStats space.docLengths tombstoned) :=
    averageOf_pos space tombstoned (by rwa [activeCorpusStats_eq])
  rwa [activeCorpusStats_eq] at positive

/-- What a query adds for a frame, as a sum over its terms. -/
theorem total_additions (positive : 0 ≤ k1) (low : 0 ≤ b) (high : b ≤ 1) (tokens : List Bytes)
    (frame : FrameId) :
    QueryArena.total (additions ln space tombstoned k1 b tokens) frame.toNat =
      if (space.activeFrames tombstoned).card = 0 then 0
      else if frame ∈ tombstoned ∨ space.docLengths.length ≤ frame.toNat then 0
      else ∑ termId ∈ space.knownTerms tokens, (space.queryFreq tokens termId : K) *
        termValue ln space (space.activeFrames tombstoned).card k1 b
          (space.averageLength tombstoned) frame termId := by
  unfold additions
  rw [activeCorpusStats_eq]
  dsimp only
  by_cases alone : (space.activeFrames tombstoned).card = 0
  · rw [if_pos alone, if_pos alone]
    rfl
  rw [if_neg alone, if_neg alone, total_flatMap]
  have average : averageOf ((space.activeFrames tombstoned).card,
      ∑ frame ∈ space.activeFrames tombstoned, space.docLength frame) =
        (space.averageLength tombstoned : K) := rfl
  have nonneg : (0 : K) ≤ (buildDocNormalizer space.docLengths k1 b
      (space.averageLength tombstoned)).getD frame.toNat 0 := by
    rw [buildDocNormalizer_getD]
    exact normOf_nonneg positive low high (averageLength_pos space tombstoned alone) _
  have each (term : TermMeta K) : QueryArena.total (termAdditions space tombstoned
      (buildDocNormalizer space.docLengths k1 b (space.averageLength tombstoned)) k1 term)
        frame.toNat =
      if frame ∈ tombstoned ∨ space.docLengths.length ≤ frame.toNat then 0
      else (term.qf : K) * term.idf * (k1 + 1) * rowSum (space.occurrences term.termId)
        (normOf space k1 b (space.averageLength tombstoned) frame.toNat) frame := by
    unfold termAdditions
    rw [total_contributions _ _ nonneg, buildDocNormalizer_getD, rowSum_occurrences]
    rw [rowSum_perm (sortByImpact_perm _)]
  rw [average]
  simp only [each]
  split
  · exact List.sum_eq_zero fun value member => by
      obtain ⟨_, _, rfl⟩ := List.mem_map.mp member
      rfl
  · rw [← sum_resolveQueryTerms, termMeta, sum_filterMap]
    refine congrArg List.sum (List.map_congr_left fun item _ => ?_)
    unfold termValue
    dsimp only
    split
    · exact (mul_zero _).symm
    · simp only [Option.elim_some]
      ring

end Totals

/-! ### Exact scores -/

namespace ScoredSpace

/-- Of the terms that a query can name: the rows of one name each frame once, and only frames whose
length is known, and a term that has rows has a document frequency. -/
structure Regular (space : ScoredSpace) : Prop where
  once : ∀ bytes termId, space.text.lookupTerm bytes = some termId →
    ((space.occurrences termId).map (·.frameId)).Nodup
  measured : ∀ bytes termId, space.text.lookupTerm bytes = some termId →
    ∀ row ∈ space.occurrences termId, 0 < space.docLength row.frameId.toNat
  counted : ∀ bytes termId, space.text.lookupTerm bytes = some termId →
    space.occurrences termId ≠ [] → space.text.dfFor termId ≠ 0

section Exact

variable {K : Type} [Field K] [LinearOrder K] (ln : K → K) (space : ScoredSpace)

/-- The hits are the first ones, in order, of all frames that are not tombstoned and whose score is
not zero. -/
structure Ranked (tombstoned : List FrameId) (k1 b : K) (tokens : List Bytes) (cap : Nat)
    (hits : List (Hit K)) : Prop where
  sorted : hits.Pairwise Hit.Before
  few : hits.length ≤ cap
  scored : ∀ hit ∈ hits, hit.frameId ∉ tombstoned ∧
    hit.score = space.bm25Score ln tombstoned k1 b tokens hit.frameId ∧ hit.score ≠ 0
  rest : ∀ frame, frame ∉ tombstoned → space.bm25Score ln tombstoned k1 b tokens frame ≠ 0 →
    (∃ hit ∈ hits, hit.frameId = frame) ∨ hits.length = cap ∧
      ∀ hit ∈ hits, hit.Before ⟨frame, space.bm25Score ln tombstoned k1 b tokens frame⟩

/-- Every query returns the hits that the definition of the scores gives. -/
def ExactBm25 : Prop :=
  ∀ (frames : List FrameStub) (k1 b : K) (tokens : List Bytes) (topK : Option Nat)
    (scratch : Scratch K), 0 ≤ k1 → 0 ≤ b → b ≤ 1 → scratch.Sound space →
    ∃ hits, (bm25QueryTopk ln space frames (anyTombstoned frames) k1 b tokens topK scratch).1 =
        .ok hits ∧
      space.Ranked ln (buildTombstoneSet frames) k1 b tokens (topK.getD defaultTopK) hits

end Exact

section Regular

variable {K : Type} [Field K] [LinearOrder K] [IsStrictOrderedRing K] (ln : K → K)
  {space : ScoredSpace} {tombstoned : List FrameId} {k1 b : K} {tokens : List Bytes}
  {termId : TermId} {frame : FrameId}

theorem filter_frame {rows : List TermRow} (once : (rows.map (·.frameId)).Nodup) (frame : FrameId) :
    rows.filter (·.frameId = frame) = (rows.find? (·.frameId = frame)).toList := by
  induction rows with
  | nil => rfl
  | cons row rest ih =>
      obtain ⟨new, once⟩ := List.nodup_cons.mp once
      by_cases here : row.frameId = frame
      · rw [List.filter_cons_of_pos (by simpa using here), List.find?_cons_of_pos (by simpa using here)]
        have none : rest.filter (·.frameId = frame) = [] := by
          rw [List.filter_eq_nil_iff]
          intro other member same
          exact new (List.mem_map.mpr ⟨other, member, (of_decide_eq_true same).trans here.symm⟩)
        rw [none]
        rfl
      · rw [List.filter_cons_of_neg (by simpa using here), List.find?_cons_of_neg (by simpa using here)]
        exact ih once

theorem filter_occurs (space : ScoredSpace) (termId : TermId) (frame : FrameId) :
    (space.occurrences termId).filter (fun row => row.frameId = frame ∧ 0 < row.termFreq.toNat) =
      (space.occurrences termId).filter (·.frameId = frame) := by
  refine List.filter_congr fun row member => ?_
  have occurs : 0 < row.termFreq.toNat := of_decide_eq_true (List.mem_filter.mp member).2
  simp [occurs]

/-- The rows of a frame that is named once add what the definition says. -/
theorem rowSum_once (once : ((space.occurrences termId).map (·.frameId)).Nodup) (norm : K)
    (frame : FrameId) : rowSum (space.occurrences termId) norm frame =
      (space.termFreq termId frame : K) / ((space.termFreq termId frame : K) + norm) := by
  unfold rowSum termFreq
  rw [filter_occurs, filter_frame once]
  cases (space.occurrences termId).find? (·.frameId = frame) with
  | none => simp
  | some row => simp

theorem exists_row (occurs : space.termFreq termId frame ≠ 0) :
    ∃ row ∈ space.occurrences termId, row.frameId = frame := by
  unfold termFreq at occurs
  cases found : (space.occurrences termId).find? (·.frameId = frame) with
  | none =>
      rw [found] at occurs
      exact absurd rfl occurs
  | some row => exact ⟨row, List.mem_of_find?_eq_some found, by simpa using List.find?_some found⟩

theorem mem_activeFrames (kept : frame ∉ tombstoned) (measured : 0 < space.docLength frame.toNat) :
    frame.toNat ∈ space.activeFrames tombstoned := by
  refine Finset.mem_filter.mpr ⟨Finset.mem_range.mpr ?_, measured, ?_⟩
  · by_contra outside
    unfold docLength at measured
    rw [List.getD_eq_getElem?_getD, List.getElem?_eq_none (Nat.le_of_not_lt outside)] at measured
    exact absurd measured (by decide)
  · rwa [UInt64.ofNat_toNat]

theorem Regular.termValue (regular : space.Regular) {bytes : Bytes}
    (known : space.text.lookupTerm bytes = some termId) :
    (space.queryFreq tokens termId : K) * termValue ln space (space.activeFrames tombstoned).card k1
        b (space.averageLength tombstoned) frame termId =
      space.termScore ln tombstoned k1 b tokens frame termId := by
  unfold Valise.termValue termScore
  dsimp only
  rw [rowSum_once (regular.once bytes termId known)]
  by_cases occurs : space.termFreq termId frame = 0
  · simp [occurs]
  · obtain ⟨row, member, rfl⟩ := exists_row occurs
    have counted := regular.counted bytes termId known (List.ne_nil_of_mem member)
    have measured := regular.measured bytes termId known row member
    unfold normOf
    rw [if_neg counted, if_neg measured.ne']
    ring

theorem Regular.total (regular : space.Regular) (positive : 0 ≤ k1) (low : 0 ≤ b) (high : b ≤ 1)
    (kept : frame ∉ tombstoned) :
    QueryArena.total (additions ln space tombstoned k1 b tokens) frame.toNat =
      space.bm25Score ln tombstoned k1 b tokens frame := by
  rw [total_additions ln positive low high]
  have terms : ∑ termId ∈ space.knownTerms tokens, (space.queryFreq tokens termId : K) *
      Valise.termValue ln space (space.activeFrames tombstoned).card k1 b
        (space.averageLength tombstoned) frame termId =
        space.bm25Score ln tombstoned k1 b tokens frame := by
    refine Finset.sum_congr rfl fun termId member => ?_
    obtain ⟨bytes, _, known⟩ := List.mem_filterMap.mp (List.mem_toFinset.mp member)
    exact regular.termValue ln known
  by_cases active : frame.toNat ∈ space.activeFrames tombstoned
  · have some : (space.activeFrames tombstoned).card ≠ 0 := Finset.card_ne_zero.mpr ⟨_, active⟩
    have inside := Finset.mem_range.mp (Finset.mem_filter.mp active).1
    rw [if_neg some, if_neg (not_or.mpr ⟨kept, not_le.mpr inside⟩), terms]
  · -- A frame that is not active has no terms.
    have none : space.bm25Score ln tombstoned k1 b tokens frame = 0 := by
      refine Finset.sum_eq_zero fun termId member => ?_
      obtain ⟨bytes, _, known⟩ := List.mem_filterMap.mp (List.mem_toFinset.mp member)
      have absent : space.termFreq termId frame = 0 := by
        by_contra occurs
        obtain ⟨row, member, rfl⟩ := exists_row occurs
        exact active (mem_activeFrames kept (regular.measured bytes termId known row member))
      unfold termScore
      simp [absent]
    rw [terms, none, ite_self, ite_self]

theorem kept_of_total (positive : 0 ≤ k1) (low : 0 ≤ b) (high : b ≤ 1)
    (counts : QueryArena.total (additions ln space tombstoned k1 b tokens) frame.toNat ≠ 0) :
    frame ∉ tombstoned ∧ frame.toNat < space.docLengths.length := by
  rw [total_additions ln positive low high] at counts
  split_ifs at counts with alone skipped
  · exact absurd rfl counts
  · exact absurd rfl counts
  · obtain ⟨kept, inside⟩ := not_or.mp skipped
    exact ⟨kept, Nat.lt_of_not_le inside⟩

theorem Regular.exact (regular : space.Regular) : space.ExactBm25 ln := by
  intro frames k1 b tokens topK scratch positive low high sound
  obtain ⟨hits, items, ok, _, top, listed⟩ :=
    bm25QueryTopk_top ln frames tokens sound positive low high topK
  refine ⟨hits, ok, top.sorted, top.few, fun hit member => ?_, fun frame kept counts => ?_⟩
  · obtain ⟨score, counts⟩ := (listed hit).mp (top.among hit member)
    have kept := (kept_of_total ln positive low high (score ▸ counts)).1
    exact ⟨kept, score.trans (regular.total ln positive low high kept), counts⟩
  · have total := @Regular.total _ _ _ _ ln _ _ _ _ tokens _ regular positive low high kept
    have member := (listed ⟨frame, _⟩).mpr ⟨total.symm, counts⟩
    exact (top.rest _ member).imp (fun inside => ⟨_, inside, rfl⟩) id

/-- Where the results are exact, what a query adds up for a frame is its score: there are fewer
frames than hits asked for. -/
theorem ExactBm25.total (exact : space.ExactBm25 ln) (positive : 0 ≤ k1) (low : 0 ≤ b) (high : b ≤ 1)
    (counts : space.bm25Score ln [] k1 b tokens frame ≠ 0) :
    QueryArena.total (additions ln space [] k1 b tokens) frame.toNat =
      space.bm25Score ln [] k1 b tokens frame := by
  have sound : ({} : Scratch K).Sound space := ⟨⟨nofun, nofun, nofun⟩, QueryArena.empty_sound⟩
  obtain ⟨hits, ok, ranked⟩ := exact [] k1 b tokens (some (space.docLengths.length + 1)) {} positive
    low high sound
  obtain ⟨found, items, ok', _, top, listed⟩ := bm25QueryTopk_top ln [] tokens sound positive low high
    (some (space.docLengths.length + 1))
  obtain rfl : hits = found := Outcome.ok.inj (ok.symm.trans ok')
  have added (hit : Hit K) (member : hit ∈ hits) := (listed hit).mp (top.among hit member)
  have nodup : (hits.map (·.frameId.toNat)).Nodup := by
    refine List.pairwise_map.mpr (ranked.sorted.imp_of_mem fun {first second} one two before same => ?_)
    have scores : first.score = second.score := by
      rw [(added first one).1, (added second two).1, same]
    rcases before with worse | ⟨_, later⟩
    · exact worse.ne scores.symm
    · exact later.ne same
  have inside : hits.map (·.frameId.toNat) ⊆ List.range space.docLengths.length := by
    intro place named
    obtain ⟨hit, member, rfl⟩ := List.mem_map.mp named
    obtain ⟨score, counts⟩ := added hit member
    exact List.mem_range.mpr (kept_of_total ln positive low high (score ▸ counts)).2
  have few : hits.length ≤ space.docLengths.length := by
    have bound := (List.subperm_of_subset nodup inside).length_le
    rwa [List.length_map, List.length_range] at bound
  rcases ranked.rest frame (List.not_mem_nil) counts with ⟨hit, member, rfl⟩ | ⟨full, _⟩
  · exact (added hit member).1.symm.trans (ranked.scored hit member).2.1
  · rw [full] at few
    exact absurd few (Nat.not_succ_le_self _)

/-! A query of one term, without a length normalization. -/

omit [LinearOrder K] [IsStrictOrderedRing K] in
theorem knownTerms_singleton {bytes : Bytes} (known : space.text.lookupTerm bytes = some termId) :
    space.knownTerms [bytes] = {termId} ∧ space.queryFreq [bytes] termId = 1 := by
  unfold knownTerms queryFreq
  rw [List.filterMap_cons_some known, List.filterMap_nil]
  exact ⟨rfl, List.count_singleton_self⟩

/-- The weight of a term of a space where nothing is tombstoned. -/
def idfOf (space : ScoredSpace) (termId : TermId) : K :=
  bm25Idf ln ((space.activeFrames []).card : K) ((space.text.dfFor termId).toNat : K)

omit [LinearOrder K] [IsStrictOrderedRing K] in
theorem bm25Score_singleton {bytes : Bytes} (known : space.text.lookupTerm bytes = some termId)
    (k1 : K) : space.bm25Score ln [] k1 0 [bytes] frame =
      space.idfOf ln termId * (k1 + 1) *
        ((space.termFreq termId frame : K) / ((space.termFreq termId frame : K) + k1)) := by
  obtain ⟨terms, once⟩ := knownTerms_singleton known
  unfold bm25Score termScore idfOf
  rw [terms, Finset.sum_singleton, once]
  simp only [Nat.cast_one, one_mul, sub_zero, zero_mul, zero_div, add_zero, mul_one]
  exact mul_div_assoc _ _ _

theorem total_singleton {bytes : Bytes} (known : space.text.lookupTerm bytes = some termId)
    (positive : 0 ≤ k1)
    (counts : QueryArena.total (additions ln space [] k1 0 [bytes]) frame.toNat ≠ 0) :
    space.text.dfFor termId ≠ 0 ∧
      QueryArena.total (additions ln space [] k1 0 [bytes]) frame.toNat =
        space.idfOf ln termId * (k1 + 1) * rowSum (space.occurrences termId)
          (if space.docLength frame.toNat = 0 then 0 else k1) frame := by
  obtain ⟨terms, once⟩ := knownTerms_singleton known
  have total := @total_additions K _ _ _ ln space [] k1 0 positive le_rfl zero_le_one [bytes] frame
  rw [terms, Finset.sum_singleton, once, Nat.cast_one, one_mul] at total
  unfold Valise.termValue normOf at total
  simp only [sub_zero, zero_mul, add_zero, mul_one] at total
  rw [total] at counts ⊢
  have some : (space.activeFrames []).card ≠ 0 := fun none => counts (if_pos none)
  rw [if_neg some] at counts ⊢
  have inside : ¬(frame ∈ [] ∨ space.docLengths.length ≤ frame.toNat) := fun none =>
    counts (if_pos none)
  rw [if_neg inside] at counts ⊢
  have counted : space.text.dfFor termId ≠ 0 := fun none => counts (if_pos none)
  rw [if_neg counted]
  exact ⟨counted, rfl⟩

/-- A weight is never zero: `n + 1` and `df + ½` are different for counts. -/
theorem idfOf_ne_zero (only : ∀ x : K, 0 < x → ln x = 0 → x = 1) (termId : TermId) :
    space.idfOf ln termId ≠ 0 := by
  unfold idfOf bm25Idf
  generalize (space.activeFrames []).card = n
  generalize (space.text.dfFor termId).toNat = df
  intro zero
  have half : (0 : K) < 1 / 2 := by norm_num
  have below : (0 : K) < (df : K) + 1 / 2 := add_pos_of_nonneg_of_pos (Nat.cast_nonneg df) half
  have ratio : ((n : K) - df + 1 / 2) / (df + 1 / 2) + 1 = ((n : K) + 1) / (df + 1 / 2) := by
    field_simp
    ring
  have one := only _ (ratio ▸ div_pos (Nat.cast_add_one_pos n) below) zero
  rw [ratio, div_eq_one_iff_eq below.ne'] at one
  have doubled : ((2 * n + 1 : Nat) : K) = ((2 * df : Nat) : K) := by
    push_cast
    linarith
  have same : 2 * n + 1 = 2 * df := Nat.cast_injective doubled
  omega

theorem rowSum_count (rows : List TermRow) (occurs : ∀ row ∈ rows, 0 < row.termFreq.toNat)
    (frame : FrameId) : rowSum rows (0 : K) frame = (rows.map (·.frameId)).count frame := by
  induction rows with
  | nil => simp [rowSum]
  | cons row rest ih =>
      obtain ⟨first, others⟩ := List.forall_mem_cons.mp occurs
      have ih := ih others
      unfold rowSum at ih ⊢
      by_cases here : row.frameId = frame
      · have one : (row.termFreq.toNat : K) / ((row.termFreq.toNat : K) + 0) = 1 := by
          rw [add_zero, div_self (Nat.cast_ne_zero.mpr first.ne')]
        rw [List.filter_cons_of_pos (by simp [here, first]), List.map_cons, List.sum_cons, ih, one,
          List.map_cons, here, List.count_cons_self]
        push_cast
        ring
      · rw [List.filter_cons_of_neg (by simp [here]), ih, List.map_cons, List.count_cons_of_ne here]

theorem ExactBm25.regular (only : ∀ x : K, 0 < x → ln x = 0 → x = 1) (exact : space.ExactBm25 ln) :
    space.Regular := by
  have occurs (termId : TermId) (row : TermRow) (member : row ∈ space.occurrences termId) :
      0 < row.termFreq.toNat := of_decide_eq_true (List.mem_filter.mp member).2
  have freq (row : TermRow) (termId : TermId) (member : row ∈ space.occurrences termId) :
      0 < space.termFreq termId row.frameId := by
    unfold termFreq
    cases found : (space.occurrences termId).find? (·.frameId = row.frameId) with
    | none => exact absurd (decide_eq_true rfl) (List.find?_eq_none.mp found row member)
    | some first => exact occurs termId first (List.mem_of_find?_eq_some found)
  -- What a query of one term finds for a row.
  have adds (k1 : K) (positive : 0 ≤ k1) (bytes : Bytes) (termId : TermId)
      (known : space.text.lookupTerm bytes = some termId) (row : TermRow)
      (member : row ∈ space.occurrences termId) : space.text.dfFor termId ≠ 0 ∧
        rowSum (space.occurrences termId)
            (if space.docLength row.frameId.toNat = 0 then 0 else k1) row.frameId =
          (space.termFreq termId row.frameId : K) / ((space.termFreq termId row.frameId : K) + k1) := by
    have tf : (0 : K) < space.termFreq termId row.frameId := Nat.cast_pos.mpr (freq row termId member)
    have weight : space.idfOf ln termId * (k1 + 1) ≠ 0 :=
      mul_ne_zero (idfOf_ne_zero ln only termId) (add_pos_of_nonneg_of_pos positive one_pos).ne'
    have score := @bm25Score_singleton K _ ln space termId row.frameId bytes known k1
    have counts : space.bm25Score ln [] k1 0 [bytes] row.frameId ≠ 0 := by
      rw [score]
      exact mul_ne_zero weight (div_pos tf (add_pos_of_pos_of_nonneg tf positive)).ne'
    have total := ExactBm25.total ln exact positive le_rfl zero_le_one counts
    obtain ⟨counted, sum⟩ := total_singleton ln known positive (total.symm ▸ counts)
    rw [sum, score] at total
    exact ⟨counted, mul_left_cancel₀ weight total⟩
  have once (bytes : Bytes) (termId : TermId)
      (known : space.text.lookupTerm bytes = some termId) :
      ((space.occurrences termId).map (·.frameId)).Nodup := by
    refine List.nodup_iff_count_le_one.mpr fun frame => ?_
    by_cases named : frame ∈ (space.occurrences termId).map (·.frameId)
    · obtain ⟨row, member, rfl⟩ := List.mem_map.mp named
      obtain ⟨_, sum⟩ := adds 0 le_rfl bytes termId known row member
      have tf : (space.termFreq termId row.frameId : K) ≠ 0 :=
        Nat.cast_ne_zero.mpr (freq row termId member).ne'
      rw [ite_self, rowSum_count _ (occurs termId), add_zero, div_self tf] at sum
      exact (Nat.cast_eq_one.mp sum).le
    · rw [List.count_eq_zero_of_not_mem named]
      exact Nat.zero_le 1
  refine ⟨once, fun bytes termId known row member => ?_, fun bytes termId known some => ?_⟩
  · obtain ⟨_, sum⟩ := adds 1 zero_le_one bytes termId known row member
    refine Nat.pos_of_ne_zero fun none => ?_
    rw [if_pos none, rowSum_once (once bytes termId known), add_zero] at sum
    have tf : (0 : K) < space.termFreq termId row.frameId := Nat.cast_pos.mpr (freq row termId member)
    rw [div_self tf.ne', eq_div_iff (add_pos tf one_pos).ne'] at sum
    linarith
  · obtain ⟨row, member⟩ := List.exists_mem_of_ne_nil _ some
    exact (adds 0 le_rfl bytes termId known row member).1

end Regular

def word : Bytes := [0x77]

end ScoredSpace

end Valise
