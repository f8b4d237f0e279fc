import Valise.CatalogRows
import Valise.Library.Tallies
import Valise.TextState

/-!
Fusion of retrieval channels. Every channel is a column over the frames that some channel has; the
columns are normalized one by one, and their weighted values are summed. Numbers are those of an
ordered field.
-/

namespace Valise

open SortedTables Tallies

structure FusionProfile (K : Type) where
  fusionProfileId : FusionProfileId
  bm25Weight : K
  tfidfWeight : K
  jaccardWeight : K
  vectorWeight : K
  normalization : FusionNormalization

/-- A hash map of scores, kept in the order of the frames. -/
abbrev FrameScores (K : Type) := List (FrameId × K)

section Columns

variable {K : Type} [Field K] [LinearOrder K] (sqrt : K → K) (epsilon : K)

def zscore (values : List (Option K)) : List (Option K) :=
  let present := values.filterMap id
  if present = [] then values
  else
    let mean := present.sum / present.length
    let var := (present.map fun v => (v - mean) * (v - mean)).sum / present.length
    let std := max (sqrt var) epsilon
    values.map fun v => v.map fun x => (x - mean) / std

def minmax (values : List (Option K)) : List (Option K) :=
  match values.filterMap id with
  | [] => values
  | first :: rest =>
      let low := rest.foldl min first
      let high := rest.foldl max first
      let denom := max (high - low) epsilon
      values.map fun v => v.map fun x => (x - low) / denom

/-- The first of the sorted values has rank one. Equal values keep the order of the column. -/
def rrfColumn (values : List (Option K)) (kSmoothing : UInt32) : List (Option K) :=
  let indexed := values.zipIdx.filterMap fun item => item.1.map fun x => (item.2, x)
  let sorted := indexed.insertionSort fun first second => second.2 ≤ first.2
  sorted.zipIdx.foldl (fun column item =>
    column.set item.1.1 (some (1 / ((kSmoothing.toNat : K) + (item.2 + 1 : Nat)))))
    (values.map fun _ => none)

def normalizeColumn (values : List (Option K)) : FusionNormalization → List (Option K)
  | .none => values
  | .zScore => zscore sqrt epsilon values
  | .minMax => minmax epsilon values
  | .rrf k => rrfColumn values k

/-- Neighbours that are equal become one. -/
def dedupNeighbours : List FrameId → List FrameId
  | [] => []
  | [frame] => [frame]
  | frame :: next :: rest =>
      if frame = next then dedupNeighbours (next :: rest)
      else frame :: dedupNeighbours (next :: rest)

/-- The weighted sum of the values that a frame has, if any of them has a weight. -/
def fuseValues (values : List (Option K × K)) : Option K :=
  let summed := values.foldl (fun sums item =>
    if item.2 = 0 then sums
    else
      match item.1 with
      | none => sums
      | some v => (sums.1 + item.2 * v, sums.2 + item.2)) ((0, 0) : K × K)
  if summed.2 = 0 then none else some summed.1

/-- The keys of the channels are gone through in the order of their hash maps. -/
def fusedFrames (order : Iteration) (channels : List (FrameScores K)) : List FrameId :=
  dedupNeighbours ((channels.flatMap fun channel => order.run (channel.map Prod.fst)).insertionSort
    fun first second => first.toNat ≤ second.toNat)

def fuse (order : Iteration) (profile : FusionProfile K)
    (bm25 tfidf jaccard vectorDistances : FrameScores K) : FrameScores K :=
  let frameIds := fusedFrames order [bm25, tfidf, jaccard, vectorDistances]
  let column := fun channel : FrameScores K => normalizeColumn sqrt epsilon
    (frameIds.map fun frame => valueAt frameRank frame channel) profile.normalization
  let bm25N := column bm25
  let tfidfN := column tfidf
  let jaccardN := column jaccard
  let vectorN := column (vectorDistances.map fun item => (item.1, -item.2))
  let results := frameIds.zipIdx.filterMap fun item =>
    (fuseValues [(bm25N.getD item.2 none, profile.bm25Weight),
      (tfidfN.getD item.2 none, profile.tfidfWeight),
      (jaccardN.getD item.2 none, profile.jaccardWeight),
      (vectorN.getD item.2 none, profile.vectorWeight)]).map fun score => (item.1, score)
  results.insertionSort fun first second => second.2 ≤ first.2

end Columns

/-! ### The order of the hash maps -/

section Order

variable {K : Type} {channels : List (FrameScores K)}

theorem mem_dedupNeighbours {frames : List FrameId} {frame : FrameId} :
    frame ∈ dedupNeighbours frames ↔ frame ∈ frames := by
  induction frames using dedupNeighbours.induct with
  | case1 => rfl
  | case2 only => rfl
  | case3 head rest ih =>
      rw [dedupNeighbours, if_pos rfl, ih]
      simp
  | case4 head next rest apart ih =>
      rw [dedupNeighbours, if_neg apart, List.mem_cons, ih]
      exact List.mem_cons.symm

theorem mem_fusedFrames (order : Iteration) {frame : FrameId} :
    frame ∈ fusedFrames order channels ↔ ∃ channel ∈ channels, frame ∈ channel.map Prod.fst := by
  rw [fusedFrames, mem_dedupNeighbours, List.mem_insertionSort, List.mem_flatMap]
  simp only [(order.perm _).mem_iff]

/-- The frames come in one order, however their maps are gone through. -/
theorem fusedFrames_order (first second : Iteration) :
    fusedFrames first channels = fusedFrames second channels := by
  have same : (channels.flatMap fun channel => first.run (channel.map Prod.fst)).Perm
      (channels.flatMap fun channel => second.run (channel.map Prod.fst)) :=
    List.Perm.flatMap_left _ fun channel _ =>
      (first.perm _).trans (second.perm _).symm
  have sorted (frames : List FrameId) : (frames.insertionSort fun first second =>
      first.toNat ≤ second.toNat).Pairwise fun first second => first.toNat ≤ second.toNat :=
    List.pairwise_insertionSort _ frames
  refine congrArg dedupNeighbours (List.Perm.eq_of_pairwise (fun a b _ _ ab ba => ?_) (sorted _)
    (sorted _) ?_)
  · exact UInt64.toNat_inj.mp (le_antisymm ab ba)
  · exact (List.perm_insertionSort _ _).trans (same.trans (List.perm_insertionSort _ _).symm)

variable [Field K] [LinearOrder K] (sqrt : K → K) (epsilon : K)

theorem fuse_order (first second : Iteration) (profile : FusionProfile K)
    (bm25 tfidf jaccard vectorDistances : FrameScores K) :
    fuse sqrt epsilon first profile bm25 tfidf jaccard vectorDistances =
      fuse sqrt epsilon second profile bm25 tfidf jaccard vectorDistances := by
  unfold fuse
  rw [fusedFrames_order first second]

/-- A profile that has a weight for vectors alone, and takes the distances as they are. -/
def vectorProfile : FusionProfile K := ⟨1, 0, 0, 0, 1, .none⟩

theorem fuseValues_vector (bm25 tfidf jaccard vector : Option K) :
    fuseValues [(bm25, 0), (tfidf, 0), (jaccard, 0), (vector, 1)] = vector := by
  cases vector <;> simp [fuseValues]

omit [Field K] [LinearOrder K] in
theorem mem_keys_of_valueAt {scores : FrameScores K} {frame : FrameId} {score : K}
    (held : valueAt frameRank frame scores = some score) : frame ∈ scores.map Prod.fst := by
  obtain ⟨entry, found, _⟩ := Option.map_eq_some_iff.mp held
  obtain ⟨member, ranks⟩ := find_some _ found
  exact List.mem_map.mpr ⟨entry, member, frameRank_injective ranks⟩

theorem mem_fuse_vectorProfile (order : Iteration) (distances : FrameScores K) (frame : FrameId)
    (score : K) : (frame, score) ∈ fuse sqrt epsilon order vectorProfile [] [] [] distances ↔
      valueAt frameRank frame distances = some (-score) := by
  have negated (wanted : FrameId) :
      valueAt frameRank wanted (distances.map fun item => (item.1, -item.2)) =
        (valueAt frameRank wanted distances).map fun distance => -distance :=
    valueAt_map frameRank frameRank_injective (fun _ distance => -distance) wanted distances
  have column {frames : List FrameId} {wanted : FrameId} {index : Nat}
      (here : frames[index]? = some wanted) : (frames.map fun frame => valueAt frameRank frame
        (distances.map fun item => (item.1, -item.2))).getD index none =
      (valueAt frameRank wanted distances).map fun distance => -distance := by
    rw [List.getD_eq_getElem?_getD, List.getElem?_map, here, Option.map_some, Option.getD_some,
      negated]
  unfold fuse
  simp only [vectorProfile, normalizeColumn, fuseValues_vector, List.mem_insertionSort,
    List.mem_filterMap, Prod.exists, List.mem_zipIdx_iff_getElem?]
  constructor
  · rintro ⟨wanted, index, here, taken⟩
    rw [column here, Option.map_map, Option.map_eq_some_iff] at taken
    obtain ⟨distance, held, equal⟩ := taken
    obtain ⟨rfl, rfl⟩ := Prod.mk.inj equal
    rw [held, neg_neg]
  · intro held
    have member : frame ∈ fusedFrames order [[], [], [], distances] :=
      (mem_fusedFrames order).mpr ⟨distances, by simp, mem_keys_of_valueAt held⟩
    obtain ⟨index, here⟩ := List.mem_iff_getElem?.mp member
    refine ⟨frame, index, here, ?_⟩
    rw [column here, held, Option.map_some, Option.map_some, neg_neg]

end Order

end Valise
