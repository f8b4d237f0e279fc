import Valise.Fusion
import Valise.TextQueries
import Valise.VectorSearch

/-!
Queries of a file over a text channel and a vector channel at once. The scores that a query fuses
are those of every frame's nearest vector exactly when all vectors of a frame are at one distance.
-/

namespace Valise

open Outcomes SortedTables Tallies TopKs

namespace HybridQueries

/-- What the fusion takes from the arithmetic of floats. -/
structure Arithmetic (K : Type) [Zero K] where
  sqrt : K → K
  epsilon : K
  halved : K → K
  halved_ne : ∀ lives, halved lives ≠ 0

noncomputable def reals : Arithmetic ℝ where
  sqrt := Real.sqrt
  epsilon := (1 / 2) ^ 23
  halved lives := (1 / 2) ^ lives
  halved_ne lives := (Real.rpow_pos_of_pos (by norm_num) lives).ne'

/-- The hits of a text query. Every frame is scored once. -/
structure TextResults (K : Type) where
  hits : List (Hit K)
  distinct : (hits.map fun hit => hit.frameId).Nodup

/-- The hits of a vector search, the nearest first. -/
structure VectorResults (K : Type) [LE K] where
  hits : List (VectorHit K)
  nearest : hits.Pairwise fun first second => first.score ≤ second.score

/-- The hits that were selected of the touched frames. -/
def TextResults.ofTop {K : Type} [Field K] [LinearOrder K] {touched : List UInt32} {scores : List K}
    {cap : Nat} {hits : List (Hit K)}
    (top : IsTop Hit.Before cap (touchedHits touched scores) hits) : TextResults K where
  hits := hits
  distinct := by
    refine List.Nodup.map_on (fun one oneIn other otherIn same => ?_) (top.nodup before_ranks)
    have oneScore := (mem_touchedHits_iff.mp (top.among one oneIn)).2.1
    have otherScore := (mem_touchedHits_iff.mp (top.among other otherIn)).2.1
    obtain ⟨frame, score⟩ := one
    obtain ⟨also, given⟩ := other
    obtain rfl : frame = also := same
    exact congrArg (Hit.mk frame) (oneScore.trans otherScore.symm)

/-- The nearest hit of every frame. -/
def VectorResults.best {K : Type} [LE K] (results : VectorResults K) : VectorResults K where
  hits := firsts (fun hit => hit.frameId) results.hits
  nearest := results.nearest.sublist (firsts_sublist _)

/-- Insert one score after the other into a hash map. -/
def storeHits {K : Type} (hits : List (FrameId × K)) : FrameScores K :=
  hits.foldl (fun scores hit => store frameRank hit.1 hit.2 scores) []

section Queries

variable {K : Type} [Field K] [LinearOrder K] (arithmetic : Arithmetic K) (order : Iteration)

/-! ### Queries of the file -/

inductive TextChannel where
  | bm25
  | tfidf
  | jaccard
deriving DecidableEq

structure HybridQuery where
  fusionProfileId : FusionProfileId
  k : Nat
  channelK : Nat

/-- The algorithm of the text query decides which channel its hits go to. -/
def textScores (text : Option (TextChannel × TextResults K)) (channelK : Nat)
    (channel : TextChannel) : FrameScores K :=
  match text with
  | none => []
  | some (target, results) =>
      if target = channel then
        storeHits ((results.hits.take channelK).map fun hit => (hit.frameId, hit.score))
      else []

/-- A hit overwrites the distance of an earlier hit of its frame. -/
def vectorDistances (hits : List (VectorHit K)) : FrameScores K :=
  storeHits (hits.map fun hit => (hit.frameId, hit.score))

/-- The hits are those that the two searches returned. -/
def queryHybrid (profiles : List (FusionProfile K)) (text : Option (TextChannel × TextResults K))
    (vectorHits : List (VectorHit K)) (query : HybridQuery) : Result (List (Hit K)) :=
  match profiles.find? fun profile => profile.fusionProfileId = query.fusionProfileId with
  | none => .err (.format
      s!"query_hybrid: unknown fusion_profile_id {query.fusionProfileId}")
  | some profile =>
      let scores := textScores text query.channelK
      let fused := fuse arithmetic.sqrt arithmetic.epsilon order profile (scores .bm25)
        (scores .tfidf) (scores .jaccard) (vectorDistances vectorHits)
      .ok ((fused.take query.k).map fun item => ⟨item.1, item.2⟩)

end Queries

/-! ### Scores in a map -/

section Stores

variable {K : Type} {frame : FrameId}

theorem storeHits_ranked (hits : List (FrameId × K)) : RankOrdered frameRank (storeHits hits) :=
  storeAll_ranked hits (ascending_nil _)

/-- The last hit of a frame stays. -/
theorem valueAt_storeHits (hits : List (FrameId × K)) (frame : FrameId) :
    valueAt frameRank frame (storeHits hits) =
      (hits.reverse.find? (·.1 = frame)).map Prod.snd := by
  rw [storeHits, valueAt_storeAll frameRank_injective, valueAt_nil, Option.or_none]

theorem mem_of_storeHits {hits : List (FrameId × K)} {score : K}
    (held : valueAt frameRank frame (storeHits hits) = some score) : (frame, score) ∈ hits := by
  rw [valueAt_storeHits, Option.map_eq_some_iff] at held
  obtain ⟨⟨named, given⟩, found, rfl⟩ := held
  have here : named = frame := by simpa using List.find?_some found
  exact here ▸ List.mem_reverse.mp (List.mem_of_find?_eq_some found)

theorem storeHits_none {hits : List (FrameId × K)} :
    valueAt frameRank frame (storeHits hits) = none ↔ frame ∉ hits.map Prod.fst := by
  rw [valueAt_storeHits, Option.map_eq_none_iff, List.find?_eq_none]
  simp only [List.mem_reverse, decide_eq_true_eq, List.mem_map, not_exists, not_and]

/-- Hits of one frame that have one score can be left out, but for one of them. -/
theorem storeHits_congr {hits fewer : List (FrameId × K)}
    (level : ∀ one ∈ hits, ∀ other ∈ hits, one.1 = other.1 → one.2 = other.2)
    (among : fewer ⊆ hits) (frames : ∀ frame ∈ hits.map Prod.fst, frame ∈ fewer.map Prod.fst) :
    storeHits hits = storeHits fewer := by
  refine eq_of_valueAt frameRank_injective (storeHits_ranked hits) (storeHits_ranked fewer) ?_
  intro frame
  cases held : valueAt frameRank frame (storeHits hits) with
  | none =>
      refine (storeHits_none.mpr fun listed => storeHits_none.mp held ?_).symm
      exact List.map_subset _ among listed
  | some score =>
      have listed := mem_of_storeHits held
      cases alsoHeld : valueAt frameRank frame (storeHits fewer) with
      | none =>
          exact absurd (frames frame (List.mem_map_of_mem listed)) (storeHits_none.mp alsoHeld)
      | some other =>
          exact congrArg some (level _ listed _ (among (mem_of_storeHits alsoHeld)) rfl)

theorem storeHits_filter (keep : FrameId → Bool) (hits : List (FrameId × K)) :
    (storeHits hits).filter (fun item => keep item.1) =
      storeHits (hits.filter fun item => keep item.1) := by
  refine eq_of_valueAt frameRank_injective ((storeHits_ranked hits).sublist List.filter_sublist)
    (storeHits_ranked _) ?_
  intro frame
  rw [valueAt_filterKeys frameRank frameRank_injective, valueAt_storeHits, valueAt_storeHits,
    ← List.filter_reverse, List.find?_filter]
  split
  · rename_i kept
    refine congrArg (Option.map Prod.snd) (congrArg (List.find? · hits.reverse) ?_)
    funext item
    by_cases here : item.1 = frame
    · simp [here, kept]
    · simp [here]
  · rename_i dropped
    rw [eq_comm, Option.map_eq_none_iff, List.find?_eq_none]
    rintro item - both
    simp only [decide_eq_true_eq] at both
    exact dropped (both.2 ▸ both.1)

end Stores

/-! ### Distances of the nearest vectors -/

section Distances

variable {K : Type} {hits : List (VectorHit K)} {frame : FrameId} {distance : K} {hit : VectorHit K}

theorem hit_of_distance (held : valueAt frameRank frame (vectorDistances hits) = some distance) :
    ∃ hit ∈ hits, hit.frameId = frame ∧ hit.score = distance := by
  obtain ⟨hit, member, equal⟩ := List.mem_map.mp (mem_of_storeHits held)
  obtain ⟨rfl, rfl⟩ := Prod.mk.inj equal
  exact ⟨hit, member, rfl, rfl⟩

theorem distance_of_hit (member : hit ∈ hits) :
    ∃ distance, valueAt frameRank hit.frameId (vectorDistances hits) = some distance := by
  refine Option.ne_none_iff_exists'.mp fun none => storeHits_none.mp none ?_
  rw [List.map_map]
  exact List.mem_map_of_mem member

variable [LinearOrder K] {results : VectorResults K}

/-- Every frame has its vectors at one distance. -/
def VectorResults.Level (results : VectorResults K) : Prop :=
  ∀ one ∈ results.hits, ∀ other ∈ results.hits, one.frameId = other.frameId →
    one.score = other.score

/-- The distance that stays is that of the frame's farthest vector. -/
theorem le_distance (held : valueAt frameRank frame (vectorDistances results.hits) = some distance)
    (member : hit ∈ results.hits) (here : hit.frameId = frame) : hit.score ≤ distance := by
  rw [vectorDistances, valueAt_storeHits, ← List.map_reverse, List.find?_map, Option.map_map,
    Option.map_eq_some_iff] at held
  obtain ⟨last, found, rfl⟩ := held
  have ordered : results.hits.reverse.Pairwise fun first second => second.score ≤ first.score :=
    List.pairwise_reverse.mpr results.nearest
  rcases related_of_find ordered found (List.mem_reverse.mpr member) (by simpa using here) with
    rfl | below
  · exact le_refl _
  · exact below

theorem best_distance_le
    (held : valueAt frameRank frame (vectorDistances results.best.hits) = some distance)
    (member : hit ∈ results.hits) (here : hit.frameId = frame) : distance ≤ hit.score := by
  obtain ⟨best, bestIn, bestHere, rfl⟩ := hit_of_distance held
  obtain ⟨first, firstIn, firstHere, before⟩ :=
    @exists_first _ _ _ (fun hit => hit.frameId) _ _ results.nearest _ member
  have same : best = first := List.inj_on_of_nodup_map (firsts_nodup results.hits) bestIn firstIn
    (bestHere.trans (here.symm.trans firstHere.symm))
  rcases before with rfl | before
  · exact same ▸ le_refl _
  · exact same ▸ before

/-- Of vectors at one distance only the nearest is needed, whatever is stored for a distance. -/
theorem storeHits_best (level : results.Level) (change : K → K) :
    storeHits (results.hits.map fun hit => (hit.frameId, change hit.score)) =
      storeHits (results.best.hits.map fun hit => (hit.frameId, change hit.score)) := by
  refine storeHits_congr ?_ (List.map_subset _ (firsts_sublist _).subset) ?_
  · intro one oneIn other otherIn same
    obtain ⟨oneHit, oneListed, rfl⟩ := List.mem_map.mp oneIn
    obtain ⟨otherHit, otherListed, rfl⟩ := List.mem_map.mp otherIn
    exact congrArg change (level oneHit oneListed otherHit otherListed same)
  · intro frame listed
    rw [List.map_map] at listed ⊢
    exact mem_firsts_keys.mpr listed

theorem vectorDistances_best :
    vectorDistances results.hits = vectorDistances results.best.hits ↔ results.Level := by
  constructor
  · intro equal one oneIn other otherIn same
    obtain ⟨distance, held⟩ := distance_of_hit oneIn
    have fixed {hit : VectorHit K} (member : hit ∈ results.hits)
        (here : hit.frameId = one.frameId) : hit.score = distance :=
      le_antisymm (le_distance held member here) (best_distance_le (equal ▸ held) member here)
    rw [fixed oneIn rfl, fixed otherIn same.symm]
  · intro level
    exact storeHits_best level id

variable [Field K]

/-- The scores of hybrid queries are those of the nearest vectors alone, however the hash maps are
gone through. -/
def HybridBest (arithmetic : Arithmetic K) (results : VectorResults K) : Prop :=
  ∀ first second profiles text query,
    queryHybrid arithmetic first profiles text results.hits query =
      queryHybrid arithmetic second profiles text results.best.hits query

theorem eq_of_take {β : Type} {first second : List β} (same : ∀ k, first.take k = second.take k) :
    first = second := by
  have whole := same (max first.length second.length)
  rwa [List.take_of_length_le (le_max_left ..), List.take_of_length_le (le_max_right ..)] at whole

/-- A profile with a weight for vectors alone reads the distances back. -/
theorem distances_of_queries {arithmetic : Arithmetic K} {first second : Iteration}
    {others : List (VectorHit K)} (same : ∀ query,
      queryHybrid arithmetic first [vectorProfile] none hits query =
        queryHybrid arithmetic second [vectorProfile] none others query) :
    vectorDistances hits = vectorDistances others := by
  have fused (k : Nat) : (fuse arithmetic.sqrt arithmetic.epsilon first vectorProfile [] [] []
      (vectorDistances hits)).take k = (fuse arithmetic.sqrt arithmetic.epsilon second vectorProfile
        [] [] [] (vectorDistances others)).take k := by
    have answers := same ⟨1, k, 0⟩
    simp only [queryHybrid, vectorProfile, textScores, List.find?_cons, decide_true,
      Outcome.ok.injEq] at answers
    refine List.map_injective_iff.mpr ?_ answers
    rintro ⟨frame, score⟩ ⟨other, given⟩ equal
    simpa using equal
  have lists := eq_of_take fused
  refine eq_of_valueAt frameRank_injective (storeHits_ranked _) (storeHits_ranked _) fun frame => ?_
  refine Option.ext fun distance => ?_
  have reads := mem_fuse_vectorProfile arithmetic.sqrt arithmetic.epsilon
  rw [← neg_neg distance, ← reads first, ← reads second, lists]

theorem hybridBest_iff (arithmetic : Arithmetic K) :
    HybridBest arithmetic results ↔ results.Level := by
  constructor
  · intro best
    exact vectorDistances_best.mp (distances_of_queries fun query =>
      best .forward .forward [vectorProfile] none query)
  · intro level first second profiles text query
    simp only [queryHybrid, vectorDistances_best.mpr level, fuse_order _ _ first second]

end Distances

end HybridQueries

end Valise
