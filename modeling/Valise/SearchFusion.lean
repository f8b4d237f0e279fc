import Valise.HybridQueries
import Valise.TimeQueries

/-!
Searches of the database layer over a text channel and vector channels. Ranks are counted hit by
hit, so a frame counts once, and at its nearest vector, exactly when no vector channel finds it
twice; and frames of one date are ranked by recency in the order of a hash map.
-/

namespace Valise

open Outcomes SortedTables Tallies

namespace HybridQueries

section Searches

variable {K : Type} [Field K] [LinearOrder K] (arithmetic : Arithmetic K) (order : Iteration)

inductive ChannelKind where
  | text
  | vector

structure Channel (K : Type) where
  kind : ChannelKind
  ranked : List FrameId
  scores : FrameScores K

inductive Fusion (K : Type) where
  | rrf (k : UInt32)
  | weighted (text vector : K)

inductive Recency (K : Type) where
  | range (fromDate toDate : Int64)
  | halfLife (days : K)
  | rrfChannel (halfLifeDays weight : K)

/-- What a search reads of the file: the collections in its scope with their frames, the time index
and the dates of the frames. -/
structure Snapshot where
  scope : List (CollectionId × List FrameId)
  timeIndexCache : List TimeIndexEntry
  createdAt : FrameId → Option Int64
  now : Int64

namespace Snapshot

variable (snapshot : Snapshot)

def frameCreatedAt (frame : FrameId) : Result Int64 :=
  match snapshot.createdAt frame with
  | some date => .ok date
  | none => .err (.format s!"frame_created_at: unknown frame_id {frame}")

/-- A text query is global. Only the frames of a scope collection are kept. -/
def textChannel (hits : List (Hit K)) : Channel K :=
  let kept := hits.filter fun hit =>
    snapshot.scope.any fun collection => hit.frameId ∈ collection.2
  ⟨.text, kept.map fun hit => hit.frameId, storeHits (kept.map fun hit => (hit.frameId, hit.score))⟩

def vectorChannel (hits : List (VectorHit K)) : Channel K :=
  ⟨.vector, hits.map fun hit => hit.frameId,
    storeHits (hits.map fun hit => (hit.frameId, -hit.score))⟩

def allowed (fromDate toDate : Int64) (frame : FrameId) : Bool :=
  snapshot.scope.any fun collection =>
    frame ∈ timeRange snapshot.timeIndexCache ⟨fromDate, toDate, some collection.1⟩

def prune (recency : Option (Recency K)) (channels : List (Channel K)) : List (Channel K) :=
  match recency with
  | some (.range fromDate toDate) => channels.map fun channel =>
      { channel with
        ranked := channel.ranked.filter (snapshot.allowed fromDate toDate)
        scores := channel.scores.filter fun item => snapshot.allowed fromDate toDate item.1 }
  | _ => channels

def datesOf : List FrameId → Result (List (FrameId × Int64))
  | [] => .ok []
  | frame :: rest => do
      let date ← snapshot.frameCreatedAt frame
      let dated ← datesOf rest
      return (frame, date) :: dated

/-- The sort is stable, so frames of one date stay in the order in which they are given. -/
def sortByCreatedDesc (frames : List FrameId) : Result (List FrameId) := do
  let paired ← snapshot.datesOf frames
  return (paired.insertionSort fun first second => second.2.toInt ≤ first.2.toInt).map Prod.fst

end Snapshot

/-- The reciprocal ranks of a list of frames. -/
def reciprocals (k : UInt32) (weight : K) (frames : List FrameId) : List (FrameId × K) :=
  frames.zipIdx.map fun item => (item.1, weight / ((k.toNat : K) + (item.2 : K) + 1))

def rankFusion (k : UInt32) (channels : List (Channel K)) : FrameScores K :=
  channels.foldl (fun fused channel => addAll frameRank (reciprocals k 1 channel.ranked) fused) []

/-- The scores of a channel, stretched to the unit interval. -/
def normalized (weight : K) (channel : Channel K) : List (FrameId × K) :=
  let items := order.run channel.scores
  match (items.map Prod.snd).min?, (items.map Prod.snd).max? with
  | some lo, some hi => items.map fun item =>
      (item.1, weight * if 0 < hi - lo then (item.2 - lo) / (hi - lo) else 1 / 2)
  | _, _ => []

def ChannelKind.weight (text vector : K) : ChannelKind → K
  | .text => text
  | .vector => vector

def scoreFusion (text vector : K) (channels : List (Channel K)) : FrameScores K :=
  channels.foldl (fun fused channel =>
    addAll frameRank (normalized order (channel.kind.weight text vector) channel) fused) []

/-- The frames that are known so far are ranked by their dates, as one more channel. -/
def addRecency (snapshot : Snapshot) (k : UInt32) (weight : K) (fused : FrameScores K) :
    Result (FrameScores K) := do
  let newestFirst ← snapshot.sortByCreatedDesc (order.run (fused.map Prod.fst))
  return addAll frameRank (reciprocals k weight newestFirst) fused

def fuseChannels (snapshot : Snapshot) (fusion : Fusion K) (recency : Option (Recency K))
    (channels : List (Channel K)) : Result (FrameScores K) :=
  match fusion, recency with
  | .rrf k, some (.rrfChannel _ weight) =>
      addRecency order snapshot k weight (rankFusion k channels)
  | .rrf k, _ => .ok (rankFusion k channels)
  | .weighted .., some (.rrfChannel ..) =>
      .err (.unsupported "Recency::RrfChannel requires Fusion::Rrf")
  | .weighted text vector, _ => .ok (scoreFusion order text vector channels)

/-- How much of a score a half-life leaves. -/
def decay (snapshot : Snapshot) (days : K) (frame : FrameId) : K :=
  let date := (snapshot.createdAt frame).getD snapshot.now
  let age := max (snapshot.now.toInt - date.toInt) 0
  arithmetic.halved ((age : K) / max (days * 86400) 1)

def applyHalfLife (snapshot : Snapshot) (recency : Option (Recency K)) (fused : FrameScores K) :
    FrameScores K :=
  match recency with
  | some (.halfLife days) =>
      fused.map fun item => (item.1, item.2 * decay arithmetic snapshot days item.1)
  | _ => fused

/-- The fused scores of a search. The keys of the frames with the best ones are then looked up. -/
def execute (snapshot : Snapshot) (fusion : Fusion K) (recency : Option (Recency K))
    (textHits : Option (List (Hit K))) (vectorHits : List (List (VectorHit K))) :
    Result (FrameScores K) := do
  let channels := textHits.toList.map snapshot.textChannel ++ vectorHits.map Snapshot.vectorChannel
  let fused ← fuseChannels order snapshot fusion recency (snapshot.prune recency channels)
  return applyHalfLife arithmetic snapshot recency fused

end Searches

/-! ### Fused ranks -/

section Ranks

variable {K : Type} [Field K] {k : UInt32} {weight : K} {frames : List FrameId}
  {channels : List (Channel K)} {frame : FrameId}

theorem reciprocals_frames : (reciprocals k weight frames).map Prod.fst = frames := by
  rw [reciprocals, List.map_map]
  exact List.zipIdx_map_fst 0 frames

/-- A frame gets the reciprocal of its rank. -/
theorem mem_reciprocals {place : Nat} (here : frames[place]? = some frame) :
    (frame, weight / ((k.toNat : K) + (place : K) + 1)) ∈ reciprocals k weight frames :=
  List.mem_map.mpr ⟨(frame, place), List.mem_zipIdx_iff_getElem?.mpr here, rfl⟩

theorem reciprocals_zero : reciprocals k (0 : K) frames = frames.map fun frame => (frame, 0) := by
  have ranks : reciprocals k (0 : K) frames =
      (frames.zipIdx.map Prod.fst).map fun frame => (frame, 0) := by
    rw [List.map_map]
    exact List.map_congr_left fun item _ => by simp
  rw [ranks, List.zipIdx_map_fst]

/-- What the ranks of that many frames add up to. -/
def rankSum (k : UInt32) (weight : K) (count : Nat) : K :=
  ((List.range count).map fun place : Nat => weight / ((k.toNat : K) + (place : K) + 1)).sum

theorem reciprocals_sum :
    ((reciprocals k weight frames).map Prod.snd).sum = rankSum k weight frames.length := by
  rw [reciprocals, List.map_map, rankSum, List.range_eq_range', ← List.zipIdx_map_snd 0 frames,
    List.map_map]
  rfl

theorem rankFusion_eq (k : UInt32) (channels : List (Channel K)) : rankFusion k channels =
    addAll frameRank (channels.flatMap fun channel => reciprocals k 1 channel.ranked) [] := by
  rw [addAll, List.foldl_flatMap]
  rfl

theorem rankFusion_ranked : RankOrdered frameRank (rankFusion k channels) := by
  rw [rankFusion_eq]
  exact addAll_ranked _ (ascending_nil _)

theorem mem_rankFusion : frame ∈ (rankFusion k channels).map Prod.fst ↔
    frame ∈ channels.flatMap fun channel => channel.ranked := by
  rw [rankFusion_eq, mem_addAll_keys frameRank_injective, List.map_flatMap]
  simp only [reciprocals_frames]

theorem rankFusion_total : total (rankFusion k channels) =
    (channels.map fun channel => rankSum k 1 channel.ranked.length).sum := by
  rw [rankFusion_eq, total_addAll (ascending_nil _)]
  induction channels with
  | nil => simp [total]
  | cons channel rest ih =>
      rw [List.flatMap_cons, List.map_append, List.sum_append, reciprocals_sum, List.map_cons,
        List.sum_cons, ← ih]
      exact add_left_comm _ _ _

variable [LinearOrder K] [IsStrictOrderedRing K]

theorem rank_pos (k : UInt32) (place : Nat) : 0 < (k.toNat : K) + (place : K) + 1 :=
  add_pos_of_nonneg_of_pos (add_nonneg (Nat.cast_nonneg _) (Nat.cast_nonneg _)) one_pos

theorem rankSum_strictMono (k : UInt32) : StrictMono (rankSum k (1 : K)) := by
  refine strictMono_nat_of_lt_succ fun count => ?_
  rw [rankSum, rankSum, List.range_succ, List.map_append, List.sum_append, List.map_singleton,
    List.sum_singleton]
  exact lt_add_of_pos_right _ (div_pos one_pos (rank_pos k count))

/-- The ranks tell in which order the frames were. -/
theorem eq_of_reciprocals {others : List FrameId} {fused : FrameScores K} (weighted : weight ≠ 0)
    (distinct : frames.Nodup) (same : frames.Perm others)
    (alike : addAll frameRank (reciprocals k weight frames) fused =
      addAll frameRank (reciprocals k weight others) fused) : frames = others := by
  have given {listed : List FrameId} (once : listed.Nodup) {frame : FrameId} {place : Nat}
      (here : listed[place]? = some frame) :
      valueAt frameRank frame (addAll frameRank (reciprocals k weight listed) fused) =
        some ((valueAt frameRank frame fused).getD 0 +
          weight / ((k.toNat : K) + (place : K) + 1)) := by
    rw [valueAt_addAll frameRank_injective, reciprocals_frames,
      if_pos (List.mem_of_getElem? here),
      sumOf_eq (by rwa [reciprocals_frames]) (mem_reciprocals here)]
  refine List.ext_getElem? fun place => ?_
  by_cases inside : place < frames.length
  · have here := List.getElem?_eq_getElem inside
    obtain ⟨other, there⟩ := List.mem_iff_getElem?.mp (same.subset (List.getElem_mem inside))
    have values := (given distinct here).symm.trans
      ((congrArg (valueAt frameRank _) alike).trans (given (same.nodup distinct) there))
    have ranks : place = other := by
      have quotients := add_left_cancel (Option.some.inj values)
      rw [div_eq_div_iff (rank_pos k place).ne' (rank_pos k other).ne'] at quotients
      have divisors := mul_left_cancel₀ weighted quotients
      exact_mod_cast (add_left_cancel (add_right_cancel divisors)).symm
    exact here.trans (there.symm.trans (congrArg (others[·]?) ranks.symm))
  · have lengths := same.length_eq
    rw [List.getElem?_eq_none (by omega), List.getElem?_eq_none (by omega)]

end Ranks

/-! ### The order of the hash maps -/

section Order

variable {K : Type} [Field K] [LinearOrder K] {snapshot : Snapshot} {frames : List FrameId}

omit [Field K] in
theorem min?_perm {values others : List K} (same : values.Perm others) :
    values.min? = others.min? := by
  refine Option.ext fun least => ?_
  simp only [List.min?_eq_some_iff, same.mem_iff]

omit [Field K] in
theorem max?_perm {values others : List K} (same : values.Perm others) :
    values.max? = others.max? := by
  refine Option.ext fun greatest => ?_
  simp only [List.max?_eq_some_iff, same.mem_iff]

theorem normalized_perm (first second : Iteration) (weight : K) (channel : Channel K) :
    (normalized first weight channel).Perm (normalized second weight channel) := by
  have items : (first.run channel.scores).Perm (second.run channel.scores) :=
    (first.perm _).trans (second.perm _).symm
  have values := items.map Prod.snd
  simp only [normalized, min?_perm values, max?_perm values]
  split
  · exact items.map _
  · exact List.Perm.refl _

theorem scoreFusion_order (first second : Iteration) (text vector : K)
    (channels : List (Channel K)) :
    scoreFusion first text vector channels = scoreFusion second text vector channels := by
  have added (order : Iteration) : scoreFusion order text vector channels = addAll frameRank
      (channels.flatMap fun channel =>
        normalized order (channel.kind.weight text vector) channel) [] := by
    rw [addAll, List.foldl_flatMap]
    rfl
  rw [added, added]
  exact addAll_perm frameRank_injective (ascending_nil _)
    (List.Perm.flatMap_left _ fun channel _ => normalized_perm first second _ channel)

namespace Snapshot

def date (snapshot : Snapshot) (frame : FrameId) : Int64 := (snapshot.createdAt frame).getD 0

def newestFirst (snapshot : Snapshot) (frames : List FrameId) : List FrameId :=
  frames.insertionSort fun first second =>
    (snapshot.date second).toInt ≤ (snapshot.date first).toInt

def Dated (snapshot : Snapshot) (frames : List FrameId) : Prop :=
  ∀ frame ∈ frames, (snapshot.createdAt frame).isSome

theorem newestFirst_perm (snapshot : Snapshot) (frames : List FrameId) :
    (snapshot.newestFirst frames).Perm frames :=
  List.perm_insertionSort _ frames

theorem datesOf_eq (dated : snapshot.Dated frames) :
    snapshot.datesOf frames = .ok (frames.map fun frame => (frame, snapshot.date frame)) := by
  induction frames with
  | nil => rfl
  | cons frame rest ih =>
      obtain ⟨date, held⟩ := Option.isSome_iff_exists.mp (dated frame List.mem_cons_self)
      have later := ih fun other member => dated other (List.mem_cons_of_mem _ member)
      simp only [datesOf, frameCreatedAt, held, later, Outcome.ok_bind, Outcome.pure_eq,
        List.map_cons, Snapshot.date, Option.getD_some]

theorem sortByCreatedDesc_eq (dated : snapshot.Dated frames) :
    snapshot.sortByCreatedDesc frames = .ok (snapshot.newestFirst frames) := by
  rw [sortByCreatedDesc, datesOf_eq dated, Outcome.ok_bind, Outcome.pure_eq, newestFirst]
  rw [← List.map_insertionSort (fun first second : FrameId =>
      (snapshot.date second).toInt ≤ (snapshot.date first).toInt) _
    (fun frame => (frame, snapshot.date frame)) frames fun _ _ _ _ => Iff.rfl, List.map_map]
  exact congrArg Outcome.ok (List.map_id _)

/-- Frames that all have different dates are sorted in one way. -/
theorem newestFirst_order (dated : snapshot.Dated frames)
    (apart : ∀ one ∈ frames, ∀ other ∈ frames,
      snapshot.createdAt one = snapshot.createdAt other → one = other)
    {others : List FrameId} (same : frames.Perm others) :
    snapshot.newestFirst frames = snapshot.newestFirst others := by
  have sorted (listed : List FrameId) : (snapshot.newestFirst listed).Pairwise
      fun first second => (snapshot.date second).toInt ≤ (snapshot.date first).toInt :=
    List.pairwise_insertionSort _ listed
  have sameSorted := (snapshot.newestFirst_perm frames).trans
    (same.trans (snapshot.newestFirst_perm others).symm)
  refine List.Perm.eq_of_pairwise (fun one other oneIn otherIn newer older => ?_) (sorted frames)
    (sorted others) sameSorted
  have oneListed := (snapshot.newestFirst_perm frames).subset oneIn
  have otherListed := same.symm.subset ((snapshot.newestFirst_perm others).subset otherIn)
  obtain ⟨oneDate, oneHeld⟩ := Option.isSome_iff_exists.mp (dated one oneListed)
  obtain ⟨otherDate, otherHeld⟩ := Option.isSome_iff_exists.mp (dated other otherListed)
  refine apart one oneListed other otherListed ?_
  have dates := le_antisymm newer older
  simp only [Snapshot.date, oneHeld, otherHeld, Option.getD_some] at dates
  rw [oneHeld, otherHeld, Int64.toInt_inj.mp dates]

/-- Two frames of one date keep the order in which they are given. -/
theorem eq_of_newestFirst (distinct : frames.Nodup)
    (alike : snapshot.newestFirst frames = snapshot.newestFirst frames.reverse)
    {one other : FrameId} (oneIn : one ∈ frames) (otherIn : other ∈ frames)
    (same : snapshot.createdAt one = snapshot.createdAt other) : one = other := by
  have kept {first second : FrameId} {listed : List FrameId}
      (dates : snapshot.createdAt first = snapshot.createdAt second)
      (ahead : [first, second].Sublist listed) :
      [first, second].Sublist (snapshot.newestFirst listed) :=
    List.pair_sublist_insertionSort (by simp only [Snapshot.date, dates, le_refl]) ahead
  have ordered {first second : FrameId}
      (dates : snapshot.createdAt first = snapshot.createdAt second)
      (ahead : [first, second].Sublist frames) : first = second :=
    eq_of_sublists ((snapshot.newestFirst_perm frames).symm.nodup distinct) (kept dates ahead)
      (alike ▸ kept dates.symm ahead.reverse)
  by_contra apart
  rcases sublist_either apart oneIn otherIn with ahead | behind
  · exact apart (ordered same ahead)
  · exact apart (ordered same.symm behind).symm

end Snapshot

end Order

/-! ### What a search sees of its hits -/

section Pruning

variable {K : Type} {snapshot : Snapshot} {recency : Option (Recency K)}
  {channels : List (Channel K)}

/-- A range drops the other frames before the fusion. -/
def Snapshot.keeps (snapshot : Snapshot) (recency : Option (Recency K)) (frame : FrameId) : Bool :=
  match recency with
  | some (.range fromDate toDate) => snapshot.allowed fromDate toDate frame
  | _ => true

def Channel.keep (keep : FrameId → Bool) (channel : Channel K) : Channel K where
  kind := channel.kind
  ranked := channel.ranked.filter keep
  scores := channel.scores.filter fun item => keep item.1

theorem prune_eq :
    snapshot.prune recency channels = channels.map (Channel.keep (snapshot.keeps recency)) := by
  unfold Snapshot.prune Snapshot.keeps
  split
  · rfl
  · refine (List.map_id channels).symm.trans (List.map_congr_left fun channel _ => ?_)
    simp [Channel.keep]

variable [LinearOrder K] {results : VectorResults K}

theorem best_filter (keep : FrameId → Bool) :
    results.best.hits.filter (fun hit => keep hit.frameId) =
      firsts (fun hit => hit.frameId) (results.hits.filter fun hit => keep hit.frameId) :=
  firsts_filter keep results.hits

theorem filter_frames (keep : FrameId → Bool) :
    (results.hits.map fun hit => hit.frameId).filter keep =
      (results.hits.filter fun hit => keep hit.frameId).map fun hit => hit.frameId :=
  List.filter_map

variable [Field K]

omit [LinearOrder K] in
/-- To drop frames from a channel is to drop their hits. -/
theorem vectorChannel_keep (keep : FrameId → Bool) (hits : List (VectorHit K)) :
    (Snapshot.vectorChannel hits).keep keep =
      Snapshot.vectorChannel (hits.filter fun hit => keep hit.frameId) := by
  simp only [Snapshot.vectorChannel, Channel.keep, storeHits_filter, List.filter_map]
  rfl

end Pruning

/-! ### Searches over the nearest vectors -/

/-- The hits of the channels of a search. They are frames of the file. -/
structure SearchResults (K : Type) [LE K] (snapshot : Snapshot) where
  text : Option (TextResults K)
  vectors : List (VectorResults K)
  textDated : ∀ results ∈ text, snapshot.Dated (results.hits.map fun hit => hit.frameId)
  vectorsDated : ∀ results ∈ vectors, snapshot.Dated (results.hits.map fun hit => hit.frameId)

namespace SearchResults

section Best

variable {K : Type} [LE K] {snapshot : Snapshot}

def best (results : SearchResults K snapshot) : SearchResults K snapshot where
  text := results.text
  vectors := results.vectors.map VectorResults.best
  textDated := results.textDated
  vectorsDated := by
    intro best member frame listed
    obtain ⟨vectors, given, rfl⟩ := List.mem_map.mp member
    exact results.vectorsDated vectors given frame (mem_firsts_keys.mp listed)

end Best

variable {K : Type} [Field K] [LinearOrder K] {snapshot : Snapshot} {k : UInt32}
  {recency : Option (Recency K)} {arithmetic : Arithmetic K} {results : SearchResults K snapshot}

def channels (results : SearchResults K snapshot) : List (Channel K) :=
  results.text.toList.map (fun text => snapshot.textChannel text.hits) ++
    results.vectors.map fun vectors => Snapshot.vectorChannel vectors.hits

/-- The frames that have a rank in some channel. -/
def candidates (results : SearchResults K snapshot) : List FrameId :=
  results.channels.flatMap fun channel => channel.ranked

def search (arithmetic : Arithmetic K) (order : Iteration) (fusion : Fusion K)
    (recency : Option (Recency K)) (results : SearchResults K snapshot) : Result (FrameScores K) :=
  execute arithmetic order snapshot fusion recency (results.text.map fun text => text.hits)
    (results.vectors.map fun vectors => vectors.hits)

/-- No vector channel has a frame twice in the range; and where the dates rank, the candidates have
different dates. -/
structure Separate (recency : Option (Recency K)) (results : SearchResults K snapshot) : Prop where
  once : ∀ vectors ∈ results.vectors,
    ((vectors.hits.map fun hit => hit.frameId).filter (snapshot.keeps recency)).Nodup
  dates : ∀ days weight, recency = some (.rrfChannel days weight) → weight ≠ 0 →
    ∀ one ∈ results.candidates, ∀ other ∈ results.candidates,
      snapshot.createdAt one = snapshot.createdAt other → one = other

/-- The scores of searches are those of the nearest vectors alone, however the hash maps are gone
through. -/
def SearchBest (arithmetic : Arithmetic K) (recency : Option (Recency K))
    (results : SearchResults K snapshot) : Prop :=
  ∀ first second fusion, results.search arithmetic first fusion recency =
    results.best.search arithmetic second fusion recency

/-- The channels as they are fused. -/
def pruned (recency : Option (Recency K)) (results : SearchResults K snapshot) :
    List (Channel K) := results.channels.map (Channel.keep (snapshot.keeps recency))

theorem search_eq (order : Iteration) (fusion : Fusion K) :
    results.search arithmetic order fusion recency = (do
      let fused ← fuseChannels order snapshot fusion recency (results.pruned recency)
      return applyHalfLife arithmetic snapshot recency fused) := by
  have given : (results.text.map fun text => text.hits).toList.map snapshot.textChannel ++
      (results.vectors.map fun vectors => vectors.hits).map Snapshot.vectorChannel =
        results.channels := by
    rw [channels, List.map_map]
    cases results.text <;> rfl
  rw [search, execute, given, prune_eq]
  rfl

theorem mem_candidates {frame : FrameId} : frame ∈ results.candidates ↔
    (∃ text ∈ results.text, frame ∈ (snapshot.textChannel text.hits).ranked) ∨
      ∃ vectors ∈ results.vectors, frame ∈ (Snapshot.vectorChannel vectors.hits).ranked := by
  simp only [candidates, channels, List.flatMap_append, List.mem_append, List.mem_flatMap,
    List.mem_map, Option.mem_toList, exists_exists_and_eq_and, Option.mem_def]

theorem mem_candidates_best {frame : FrameId} :
    frame ∈ results.best.candidates ↔ frame ∈ results.candidates := by
  rw [mem_candidates, mem_candidates]
  refine or_congr Iff.rfl ?_
  simp only [best, List.mem_map, exists_exists_and_eq_and]
  exact exists_congr fun vectors => and_congr Iff.rfl
    (@mem_firsts_keys _ _ _ (fun hit : VectorHit K => hit.frameId) vectors.hits frame)

theorem candidates_dated : snapshot.Dated results.candidates := by
  intro frame listed
  rcases mem_candidates.mp listed with ⟨text, given, member⟩ | ⟨vectors, given, member⟩
  · refine results.textDated text given frame ?_
    exact (List.filter_sublist.map _).subset member
  · exact results.vectorsDated vectors given frame member

theorem mem_pruned {frame : FrameId} :
    frame ∈ ((results.pruned recency).flatMap fun channel => channel.ranked) ↔
      frame ∈ results.candidates ∧ snapshot.keeps recency frame = true := by
  simp only [pruned, candidates, List.mem_flatMap, List.mem_map, exists_exists_and_eq_and,
    Channel.keep, List.mem_filter]
  constructor
  · rintro ⟨channel, given, listed, kept⟩
    exact ⟨⟨channel, given, listed⟩, kept⟩
  · rintro ⟨⟨channel, given, listed⟩, kept⟩
    exact ⟨channel, given, listed, kept⟩

/-! ### Ranks of a search -/

/-- What the dates add to the ranks. -/
def recencyRanks (order : Iteration) (snapshot : Snapshot) (k : UInt32)
    (recency : Option (Recency K)) (fused : FrameScores K) : List (FrameId × K) :=
  match recency with
  | some (.rrfChannel _ weight) =>
      reciprocals k weight (snapshot.newestFirst (order.run (fused.map Prod.fst)))
  | _ => []

omit [LinearOrder K] in
theorem recencyRanks_sum {order : Iteration} {fused others : FrameScores K}
    (lengths : fused.length = others.length) :
    ((recencyRanks order snapshot k recency fused).map Prod.snd).sum =
      ((recencyRanks order snapshot k recency others).map Prod.snd).sum := by
  unfold recencyRanks
  split
  · rw [reciprocals_sum, reciprocals_sum, (snapshot.newestFirst_perm _).length_eq,
      (snapshot.newestFirst_perm _).length_eq, (order.perm _).length_eq, (order.perm _).length_eq,
      List.length_map, List.length_map, lengths]
  · rfl

theorem search_rrf (order : Iteration) : results.search arithmetic order (.rrf k) recency =
    .ok (applyHalfLife arithmetic snapshot recency
      (addAll frameRank (recencyRanks order snapshot k recency
        (rankFusion k (results.pruned recency))) (rankFusion k (results.pruned recency)))) := by
  have dated : snapshot.Dated
      (order.run ((rankFusion k (results.pruned recency)).map Prod.fst)) := by
    intro frame listed
    have ranked := mem_rankFusion.mp ((order.perm _).subset listed)
    exact candidates_dated frame (mem_pruned.mp ranked).1
  rw [search_eq]
  rcases recency with - | (range | days | ⟨days, weight⟩)
  · rfl
  · rfl
  · rfl
  · simp only [fuseChannels, addRecency, Snapshot.sortByCreatedDesc_eq dated, Outcome.ok_bind,
      Outcome.pure_eq, recencyRanks]

theorem applyHalfLife_injective :
    Function.Injective (applyHalfLife arithmetic snapshot recency) := by
  rcases recency with - | (range | days | ⟨days, weight⟩)
  · exact Function.injective_id
  · exact Function.injective_id
  · refine List.map_injective_iff.mpr ?_
    rintro ⟨frame, score⟩ ⟨other, given⟩ equal
    obtain ⟨rfl, scores⟩ := Prod.mk.inj equal
    exact congrArg (frame, ·) (mul_right_cancel₀ (arithmetic.halved_ne _) scores)
  · exact Function.injective_id

/-- As many frames get ranks, whether their other vectors are there or not. -/
theorem fused_length : (rankFusion k (results.best.pruned recency)).length =
    (rankFusion k (results.pruned recency)).length := by
  have distinct (some : SearchResults K snapshot) :
      ((rankFusion k (some.pruned recency)).map Prod.fst).Nodup := keys_nodup rankFusion_ranked
  have same : ((rankFusion k (results.best.pruned recency)).map Prod.fst).Perm
      ((rankFusion k (results.pruned recency)).map Prod.fst) := by
    refine (List.perm_ext_iff_of_nodup (distinct _) (distinct _)).mpr fun frame => ?_
    rw [mem_rankFusion, mem_rankFusion, mem_pruned, mem_pruned, mem_candidates_best]
  simpa using same.length_eq

theorem totals_of_search (same : results.search arithmetic .forward (.rrf k) recency =
      results.best.search arithmetic .forward (.rrf k) recency) :
    total (rankFusion k (results.best.pruned recency)) =
      total (rankFusion k (results.pruned recency)) := by
  rw [search_rrf, search_rrf] at same
  have totals := congrArg total (applyHalfLife_injective (Outcome.ok.inj same))
  rw [total_addAll rankFusion_ranked, total_addAll rankFusion_ranked,
    recencyRanks_sum fused_length] at totals
  exact (add_right_cancel totals).symm

theorem pruned_total : total (rankFusion k (results.pruned recency)) =
    (((results.text.toList.map fun text => snapshot.textChannel text.hits).map
        (Channel.keep (snapshot.keeps recency))).map fun channel =>
          rankSum k 1 channel.ranked.length).sum +
      (results.vectors.map fun vectors => rankSum k 1
        (vectors.hits.filter fun hit => snapshot.keeps recency hit.frameId).length).sum := by
  have ranks : (((results.vectors.map fun vectors => Snapshot.vectorChannel vectors.hits).map
      (Channel.keep (snapshot.keeps recency))).map fun channel =>
        rankSum k (1 : K) channel.ranked.length) = results.vectors.map fun vectors => rankSum k 1
          (vectors.hits.filter fun hit => snapshot.keeps recency hit.frameId).length := by
    rw [List.map_map, List.map_map]
    refine List.map_congr_left fun vectors _ => ?_
    rw [Function.comp_apply, Function.comp_apply, vectorChannel_keep, Snapshot.vectorChannel,
      List.length_map]
  rw [rankFusion_total, pruned, channels, List.map_append, List.map_append, List.sum_append, ranks]

variable [IsStrictOrderedRing K]

/-- A sum that does not get smaller loses nothing anywhere. -/
theorem eq_of_sum_eq {β : Type} {items : List β} {lower upper : β → K}
    (below : ∀ item ∈ items, lower item ≤ upper item)
    (same : (items.map lower).sum = (items.map upper).sum) :
    ∀ item ∈ items, lower item = upper item := by
  induction items with
  | nil => simp
  | cons head rest ih =>
      have first := below head List.mem_cons_self
      have later (item : β) (member : item ∈ rest) := below item (List.mem_cons_of_mem _ member)
      have sums := List.sum_le_sum later
      simp only [List.map_cons, List.sum_cons] at same
      have heads : lower head = upper head := by linarith
      have tails : (rest.map lower).sum = (rest.map upper).sum := by linarith
      exact List.forall_mem_cons.mpr ⟨heads, ih later tails⟩

theorem once_of_search (same : results.search arithmetic .forward (.rrf k) recency =
      results.best.search arithmetic .forward (.rrf k) recency) :
    ∀ vectors ∈ results.vectors,
      ((vectors.hits.map fun hit => hit.frameId).filter (snapshot.keeps recency)).Nodup := by
  have totals := totals_of_search same
  rw [pruned_total, pruned_total] at totals
  have sums := add_left_cancel totals
  rw [best, List.map_map] at sums
  have fewer (vectors : VectorResults K) :
      (vectors.best.hits.filter fun hit => snapshot.keeps recency hit.frameId).length ≤
        (vectors.hits.filter fun hit => snapshot.keeps recency hit.frameId).length := by
    rw [best_filter]
    exact (firsts_sublist _).length_le
  intro vectors member
  have ranks := eq_of_sum_eq (fun vectors _ => (rankSum_strictMono k).monotone (fewer vectors)) sums
    vectors member
  have lengths := (rankSum_strictMono k).injective ranks
  rw [best_filter] at lengths
  rw [filter_frames]
  exact nodup_of_length lengths.ge

omit [IsStrictOrderedRing K] in
/-- What is the same of every vector channel without the other vectors is the same of all. -/
theorem pruned_congr {β : Type} {read : Channel K → β}
    (same : ∀ vectors ∈ results.vectors,
      read ((Snapshot.vectorChannel vectors.best.hits).keep (snapshot.keeps recency)) =
        read ((Snapshot.vectorChannel vectors.hits).keep (snapshot.keeps recency))) :
    (results.best.pruned recency).map read = (results.pruned recency).map read := by
  have vectors : ((results.best.vectors.map fun vectors =>
      Snapshot.vectorChannel vectors.hits).map (Channel.keep (snapshot.keeps recency))).map read =
        ((results.vectors.map fun vectors => Snapshot.vectorChannel vectors.hits).map
          (Channel.keep (snapshot.keeps recency))).map read := by
    simp only [best, List.map_map]
    exact List.map_congr_left same
  rw [pruned, pruned, channels, channels, List.map_append, List.map_append, List.map_append,
    List.map_append, vectors]
  rfl

omit [IsStrictOrderedRing K] in
/-- Where no vector channel has a frame twice, nothing is lost with the other vectors. -/
theorem pruned_best (once : ∀ vectors ∈ results.vectors,
      ((vectors.hits.map fun hit => hit.frameId).filter (snapshot.keeps recency)).Nodup) :
    results.best.pruned recency = results.pruned recency := by
  have same := @pruned_congr _ _ _ _ recency results _ id fun vectors member => by
    have distinct := once vectors member
    rw [filter_frames] at distinct
    rw [vectorChannel_keep, vectorChannel_keep, best_filter, firsts_eq_self distinct]
  rwa [List.map_id, List.map_id] at same

theorem dates_of_search {days weight : K} (best : ∀ first second,
      results.search arithmetic first (.rrf k) (some (.rrfChannel days weight)) =
        results.best.search arithmetic second (.rrf k) (some (.rrfChannel days weight)))
    (weighted : weight ≠ 0) :
    ∀ one ∈ results.candidates, ∀ other ∈ results.candidates,
      snapshot.createdAt one = snapshot.createdAt other → one = other := by
  have once := once_of_search (best .forward .forward)
  have same := best .forward .backward
  rw [search_rrf, search_rrf, pruned_best once] at same
  have fused := applyHalfLife_injective (Outcome.ok.inj same)
  have distinct : ((rankFusion k (results.pruned (some (.rrfChannel days weight)))).map
      Prod.fst).Nodup := keys_nodup rankFusion_ranked
  have orders := eq_of_reciprocals weighted ((snapshot.newestFirst_perm _).symm.nodup distinct)
    ((snapshot.newestFirst_perm _).trans ((List.reverse_perm _).symm.trans
      (snapshot.newestFirst_perm _).symm)) fused
  intro one oneIn other otherIn dates
  exact snapshot.eq_of_newestFirst distinct orders
    (mem_rankFusion.mpr (mem_pruned.mpr ⟨oneIn, rfl⟩))
    (mem_rankFusion.mpr (mem_pruned.mpr ⟨otherIn, rfl⟩)) dates

/-- Searches that fuse ranks tell the nearest vectors apart, with any smoothing. -/
theorem separate_of_ranks (best : ∀ first second,
      results.search arithmetic first (.rrf k) recency =
        results.best.search arithmetic second (.rrf k) recency) : results.Separate recency where
  once := once_of_search (best .forward .forward)
  dates := by
    rintro days weight rfl weighted
    exact dates_of_search best weighted

omit [IsStrictOrderedRing K] in
/-- The ranks by date do not depend on the hash map. -/
theorem recencyRanks_perm (separate : results.Separate recency) (first second : Iteration) :
    (recencyRanks first snapshot k recency (rankFusion k (results.pruned recency))).Perm
      (recencyRanks second snapshot k recency (rankFusion k (results.pruned recency))) := by
  rcases recency with - | (range | days | ⟨days, weight⟩)
  · exact List.Perm.refl _
  · exact List.Perm.refl _
  · exact List.Perm.refl _
  · have orders (frames : List FrameId) : (first.run frames).Perm (second.run frames) :=
      (first.perm frames).trans (second.perm frames).symm
    by_cases weighted : weight = 0
    · subst weighted
      simp only [recencyRanks, reciprocals_zero]
      exact (((snapshot.newestFirst_perm _).trans (orders _)).trans
        (snapshot.newestFirst_perm _).symm).map _
    · have listed {frame : FrameId} (member : frame ∈ first.run ((rankFusion k
          (results.pruned (some (.rrfChannel days weight)))).map Prod.fst)) :
          frame ∈ results.candidates :=
        (mem_pruned.mp (mem_rankFusion.mp ((first.perm _).subset member))).1
      simp only [recencyRanks]
      rw [Snapshot.newestFirst_order (fun frame member => candidates_dated frame (listed member))
        (fun one oneIn other otherIn => separate.dates days weight rfl weighted one (listed oneIn)
          other (listed otherIn)) (orders _)]

theorem searchBest_iff (arithmetic : Arithmetic K) :
    results.SearchBest arithmetic recency ↔ results.Separate recency := by
  constructor
  · intro best
    exact separate_of_ranks fun first second => best first second (.rrf 60)
  · intro separate first second fusion
    cases fusion with
    | rrf k =>
        rw [search_rrf, search_rrf, pruned_best separate.once]
        rw [addAll_perm frameRank_injective rankFusion_ranked
          (recencyRanks_perm separate first second)]
    | weighted text vector =>
        rw [search_eq, search_eq, pruned_best separate.once]
        rcases recency with - | (range | days | ⟨days, weight⟩)
        · simp only [fuseChannels, scoreFusion_order first second]
        · simp only [fuseChannels, scoreFusion_order first second]
        · simp only [fuseChannels, scoreFusion_order first second]
        · rfl

end SearchResults

/-! ### Queries and searches -/

/-- Every frame enters with its best hit, once: in the file's queries when its vectors are at one
distance, in searches when no channel finds it twice and no date ranks two frames. -/
theorem best_evidence_iff (vectors : VectorResults ℝ) {snapshot : Snapshot}
    (results : SearchResults ℝ snapshot) (recency : Option (Recency ℝ)) :
    (HybridBest reals vectors ↔ vectors.Level) ∧
      (results.SearchBest reals recency ↔ results.Separate recency) :=
  ⟨hybridBest_iff reals, SearchResults.searchBest_iff reals⟩

/-- A frame that has two vectors. -/
noncomputable def twoVectors : VectorResults ℝ where
  hits := [⟨1, 1, 1, 0⟩, ⟨2, 1, 1, 1⟩]
  nearest := by norm_num

/-- Two frames with a vector each. -/
noncomputable def twoFrames : VectorResults ℝ where
  hits := [⟨1, 1, 1, 0⟩, ⟨2, 2, 1, 1⟩]
  nearest := by norm_num

/-- All frames are of one date. -/
def oneDay : Snapshot := ⟨[(1, [1, 2])], [], fun _ => some 0, 0⟩

noncomputable def oneChannel (vectors : VectorResults ℝ) : SearchResults ℝ oneDay where
  text := none
  vectors := [vectors]
  textDated := nofun
  vectorsDated := fun _ _ _ _ => rfl

theorem best_evidence_fails : ¬ HybridBest reals twoVectors ∧
    ¬ (oneChannel twoVectors).SearchBest reals none ∧
      ¬ (oneChannel twoFrames).SearchBest reals (some (.rrfChannel 30 1)) := by
  refine ⟨fun best => ?_, fun best => ?_, fun best => ?_⟩
  · have level := (hybridBest_iff reals).mp best ⟨1, 1, 1, 0⟩ (by simp [twoVectors])
      ⟨2, 1, 1, 1⟩ (by simp [twoVectors]) rfl
    norm_num at level
  · have separate := (SearchResults.searchBest_iff reals).mp best
    have once := separate.once twoVectors (by simp [oneChannel])
    simp only [twoVectors, List.map_cons, List.map_nil] at once
    exact absurd once (by decide)
  · have dates := ((SearchResults.searchBest_iff reals).mp best).dates 30 1 rfl one_ne_zero 1
      (by simp [SearchResults.candidates, SearchResults.channels, oneChannel, twoFrames,
        Snapshot.vectorChannel]) 2
      (by simp [SearchResults.candidates, SearchResults.channels, oneChannel, twoFrames,
        Snapshot.vectorChannel]) rfl
    exact absurd dates (by decide)

end HybridQueries

end Valise
