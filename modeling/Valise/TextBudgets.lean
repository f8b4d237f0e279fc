import Valise.BudgetVotes

/-!
A budget that has room for every posting: the vote reads every list whole, and the rerank of its
candidates gives what the query without a budget selects.
-/

namespace Valise

open ByteLists Caching Outcomes SortedTables TopKs

/-- The postings of different terms fit in a word. -/
theorem sum_df_le {K : Type} {terms : List (BudgetTerm K)}
    (distinct : (terms.map (·.termId)).Nodup) :
    (terms.map (·.df.toNat)).sum ≤ wordLimit := by
  have count := words_length distinct
  rw [List.length_map] at count
  have each := List.sum_le_card_nsmul (terms.map (·.df.toNat)) (2 ^ 32 - 1) (by
    intro df member
    obtain ⟨term, _, rfl⟩ := List.mem_map.mp member
    have bound := term.df.toNat_lt
    omega)
  rw [List.length_map, smul_eq_mul] at each
  have product := Nat.mul_le_mul_right (2 ^ 32 - 1) count
  have fits : 2 ^ 32 * (2 ^ 32 - 1) ≤ wordLimit := by decide
  omega

section Budgets

variable {K : Type} [Field K] [LinearOrder K] [FloorSemiring K] [IsStrictOrderedRing K]
  {space : ScoredSpace} {tombstoned : List FrameId}

/-- The terms of a budget are different, have the postings that the directory counts, and the rarer
ones weigh more. -/
structure Weighed (space : ScoredSpace) (terms : List (BudgetTerm K)) : Prop where
  distinct : (terms.map (·.termId)).Nodup
  counted : ∀ term ∈ terms, term.df = space.text.dfFor term.termId
  positive : ∀ term ∈ terms, 0 < term.idf
  antitone : ∀ first ∈ terms, ∀ second ∈ terms, first.df < second.df → second.idf < first.idf

theorem readLimits_vote (tidy : space.Tidy) {terms : List (BudgetTerm K)}
    (weighed : Weighed space terms) {k : Nat}
    (enough : (terms.map (·.df.toNat)).sum ≤ k * terms.length) {gains : List (TermId × Gain K)}
    (known : ∀ gain ∈ gains, space.text.dfFor gain.1 ≠ 0 → ∃ term ∈ terms, term.termId = gain.1)
    (arena : QueryArena K) : voteValue space tombstoned (readLimits (some k) terms) gains arena =
      voteValue space tombstoned none gains arena := by
  refine voteValue_full (fun gain member => ?_) arena
  have rows : (termRows space gain.1).length = (space.text.dfFor gain.1).toNat := by
    rw [termRows, (sortByImpact_perm _).length_eq, tidy.counted]
  rw [rows]
  by_cases absent : space.text.dfFor gain.1 = 0
  · rw [absent]
    exact Nat.zero_le _
  · obtain ⟨term, among, same⟩ := known gain member absent
    have limit := waterFillBudget_full weighed.distinct weighed.positive weighed.antitone
      (Nat.le_min.mpr ⟨enough, sum_df_le weighed.distinct⟩) among
    rw [← same, limit, weighed.counted term among]

/-! ### What a whole vote touches -/

/-- The live frames that the lists of the terms name. -/
def matchingFrames (space : ScoredSpace) (tombstoned : List FrameId) (terms : List TermId) :
    List FrameId :=
  ((terms.flatMap fun termId => ((space.lookupPostingsSparse termId).getD []).map
    (·.frameId)).filter (· ∉ tombstoned)).dedup

section Whole

variable {gains : List (TermId × Gain K)} {arena : QueryArena K} {hit : Hit K}
  (totals : arena.Totals space.docLengths.length (gains.flatMap (termGains space tombstoned)))

include totals

omit [FloorSemiring K] [IsStrictOrderedRing K] in
theorem whole_hit (member : hit ∈ touchedHits arena.touched arena.scores) :
    hit.frameId.toNat < space.docLengths.length ∧
      hit.frameId ∈ matchingFrames space tombstoned (gains.map Prod.fst) := by
  obtain ⟨score, counts⟩ := (mem_touchedHits totals space.addressable).mp member
  have key : hit.frameId.toNat ∈ (gains.flatMap (termGains space tombstoned)).map Prod.fst := by
    by_contra new
    rw [QueryArena.total_eq_zero new] at score
    exact counts score
  obtain ⟨item, added, same⟩ := List.mem_map.mp key
  obtain ⟨gain, among, added⟩ := List.mem_flatMap.mp added
  obtain ⟨row, listed, adds⟩ := List.mem_filterMap.mp added
  obtain ⟨inside, place, kept⟩ := gained_inside adds
  have frame : row.frameId = hit.frameId := UInt64.toNat_inj.mp (place.symm.trans same)
  refine ⟨same ▸ inside, ?_⟩
  unfold matchingFrames
  rw [List.mem_dedup, List.mem_filter, ← frame]
  refine ⟨List.mem_flatMap.mpr ⟨gain.1, List.mem_map_of_mem among, ?_⟩, decide_eq_true kept⟩
  exact List.mem_map_of_mem ((sortByImpact_perm _).mem_iff.mp listed)

omit [FloorSemiring K] [IsStrictOrderedRing K] in
theorem whole_live (member : hit ∈ touchedHits arena.touched arena.scores) :
    hit.frameId ∉ tombstoned := by
  have among := (whole_hit totals member).2
  unfold matchingFrames at among
  rw [List.mem_dedup, List.mem_filter] at among
  exact of_decide_eq_true among.2

omit [FloorSemiring K] [IsStrictOrderedRing K] in
theorem whole_length : (touchedHits arena.touched arena.scores).length ≤
    (matchingFrames space tombstoned (gains.map Prod.fst)).length := by
  have distinct : ((touchedHits arena.touched arena.scores).map (·.frameId)).Nodup := by
    refine (touchedHits_nodup totals).map_on ?_
    intro first one second two same
    have left := ((mem_touchedHits totals space.addressable).mp one).1
    have right := ((mem_touchedHits totals space.addressable).mp two).1
    rw [same, ← right] at left
    cases first
    cases second
    cases left
    cases same
    rfl
  have among : (touchedHits arena.touched arena.scores).map (·.frameId) ⊆
      matchingFrames space tombstoned (gains.map Prod.fst) := by
    intro frame named
    obtain ⟨hit, member, rfl⟩ := List.mem_map.mp named
    exact (whole_hit totals member).2
  have bound := (List.subperm_of_subset distinct among).length_le
  rwa [List.length_map] at bound

omit [FloorSemiring K] [IsStrictOrderedRing K] in
/-- The rerank gives a candidate the score that it already has. -/
theorem sum_whole (tidy : space.Tidy) (rows : TermId → Option (List TermRow))
    (original : ∀ gain ∈ gains, rows gain.1 = space.lookupPostingsSparse gain.1)
    (member : hit ∈ touchedHits arena.touched arena.scores) :
    gains.foldl (fun sum term => addGain (rows term.1) hit.frameId term.2 sum) 0 = hit.score := by
  rw [foldl_addGain tidy gains original (whole_live totals member) (whole_hit totals member).1]
  exact ((mem_touchedHits totals space.addressable).mp member).1.symm

omit [FloorSemiring K] [IsStrictOrderedRing K] in
theorem exactSum_whole (tidy : space.Tidy)
    (member : hit ∈ touchedHits arena.touched arena.scores) :
    exactSum (originalsValue space (gains.map Prod.fst)) gains hit.frameId = hit.score :=
  sum_whole totals tidy
    (fun termId => valueAt termRank termId (originalsValue space (gains.map Prod.fst)))
    (fun _ among => valueAt_originals _ (List.mem_map_of_mem among)) member

omit [FloorSemiring K] in
/-- Where no posting takes away, no score is negative. -/
theorem whole_nonneg (gaining : ∀ gain ∈ gains, ∀ idx termFreq delta,
    gain.2 idx termFreq = some delta → 0 ≤ delta)
    (member : hit ∈ touchedHits arena.touched arena.scores) : 0 ≤ hit.score := by
  rw [((mem_touchedHits totals space.addressable).mp member).1]
  refine List.sum_nonneg fun value summed => ?_
  obtain ⟨item, among, rfl⟩ := List.mem_map.mp summed
  obtain ⟨gain, known, added⟩ := List.mem_flatMap.mp (List.mem_filter.mp among).1
  obtain ⟨row, _, adds⟩ := List.mem_filterMap.mp added
  unfold gained at adds
  split at adds
  · cases adds
  split at adds
  · cases adds
  obtain ⟨delta, given, rfl⟩ := Option.map_eq_some_iff.mp adds
  exact gaining gain known _ _ _ given

end Whole

/-! ### What is selected -/

omit [FloorSemiring K] [IsStrictOrderedRing K] in
theorem selectSigned_eq {nFrames : Nat} {added : List (Nat × K)} {arena : QueryArena K}
    (totals : arena.Totals nFrames added) (cap : Nat) :
    selectTopKFromTouchedSigned arena.touched arena.scores cap =
      ((touchedHits arena.touched arena.scores).insertionSort Hit.Before).take cap :=
  (select_isTop totals cap).eq_take before_ranks (touchedHits_nodup totals)

omit [FloorSemiring K] [IsStrictOrderedRing K] in
theorem select_eq {touched : List UInt32} {scores : List K} (distinct : touched.Nodup)
    (nonneg : ∀ hit ∈ touchedHits touched scores, 0 ≤ hit.score) (cap : Nat) :
    selectTopKFromTouched touched scores cap =
      ((touchedHits touched scores).insertionSort Hit.Before).take cap :=
  (selectTopKFromTouched_isTop distinct cap (.inl nonneg)).eq_take before_ranks
    (touchedHits_distinct distinct scores)

omit [Field K] [FloorSemiring K] [IsStrictOrderedRing K] in
theorem take_insertionSort {hits : List (Hit K)} (distinct : hits.Nodup) (pool : Nat)
    (topK : Option Nat) : sortAndTruncate ((hits.insertionSort Hit.Before).take pool) topK =
      ((hits.insertionSort Hit.Before).take pool).take (topK.getD pool) := by
  have sorted : ((hits.insertionSort Hit.Before).take pool).Pairwise Hit.Before :=
    (before_ranks.insertionSort distinct).sublist (List.take_sublist _ _)
  have same : ((hits.insertionSort Hit.Before).take pool).insertionSort Hit.Before =
      (hits.insertionSort Hit.Before).take pool :=
    sorted.insertionSort_eq
  unfold sortAndTruncate
  cases topK with
  | none =>
      dsimp only
      rw [same, Option.getD_none, List.take_take, Nat.min_self]
  | some k =>
      dsimp only
      rw [same, Option.getD_some]

/-! ### Scores that are divided after the vote -/

omit [Field K] [LinearOrder K] [FloorSemiring K] [IsStrictOrderedRing K] in
theorem modify_apart {touched : List UInt32} {idx : Nat} (divide : Nat → K → K)
    (apart : ∀ frame ∈ touched, frame.toNat ≠ idx) (scores : List K) :
    (touched.foldl (fun scores frame => scores.modify frame.toNat (divide frame.toNat))
      scores)[idx]? = scores[idx]? := by
  induction touched generalizing scores with
  | nil => rfl
  | cons first rest ih =>
      obtain ⟨here, later⟩ := List.forall_mem_cons.mp apart
      rw [List.foldl_cons, ih later, List.getElem?_modify_ne _ _ here]

omit [LinearOrder K] [FloorSemiring K] [IsStrictOrderedRing K] in
theorem modify_touched {touched : List UInt32} (distinct : touched.Nodup) (divide : Nat → K → K)
    (zero : ∀ idx, divide idx 0 = 0) {frame : UInt32} (member : frame ∈ touched)
    (scores : List K) :
    (touched.foldl (fun scores frame => scores.modify frame.toNat (divide frame.toNat))
      scores).getD frame.toNat 0 = divide frame.toNat (scores.getD frame.toNat 0) := by
  induction touched generalizing scores with
  | nil => exact absurd member List.not_mem_nil
  | cons first rest ih =>
      obtain ⟨new, distinct⟩ := List.nodup_cons.mp distinct
      have numbers {other : UInt32} (apart : first ≠ other) : first.toNat ≠ other.toNat :=
        fun same => apart (UInt32.toNat_inj.mp same)
      rw [List.foldl_cons]
      rcases List.mem_cons.mp member with rfl | later
      · have apart : ∀ other ∈ rest, other.toNat ≠ frame.toNat := fun other among same =>
          new (UInt32.toNat_inj.mp same ▸ among)
        rw [List.getD_eq_getElem?_getD, modify_apart divide apart, List.getElem?_modify_eq,
          List.getD_eq_getElem?_getD]
        cases scores[frame.toNat]? with
        | none => exact (zero _).symm
        | some score => rfl
      · have other : first ≠ frame := fun same => new (same ▸ later)
        rw [ih distinct later, List.getD_eq_getElem?_getD,
          List.getElem?_modify_ne _ _ (numbers other), List.getD_eq_getElem?_getD]

omit [FloorSemiring K] [IsStrictOrderedRing K] in
/-- The hits after the division are those before it, each divided. -/
theorem touchedHits_divided {touched : List UInt32} (distinct : touched.Nodup)
    (divide : Nat → K → K) (zero : ∀ idx, divide idx 0 = 0) (scores : List K) :
    touchedHits touched (touched.foldl
        (fun scores frame => scores.modify frame.toNat (divide frame.toNat)) scores) =
      (touchedHits touched scores).filterMap fun hit =>
        if divide hit.frameId.toNat hit.score = 0 then none
        else some ⟨hit.frameId, divide hit.frameId.toNat hit.score⟩ := by
  unfold touchedHits
  rw [List.filterMap_filterMap]
  refine List.filterMap_congr fun frame member => ?_
  have wide : (UInt64.ofNat frame.toNat).toNat = frame.toNat :=
    UInt64.toNat_ofNat_of_lt' (frame.toNat_lt.trans (by decide))
  dsimp only
  rw [modify_touched distinct divide zero member]
  by_cases none : scores.getD frame.toNat 0 = 0
  · rw [none, if_pos (zero _), if_pos rfl]
    rfl
  · rw [if_neg none, Option.bind_some]
    dsimp only
    rw [wide]

omit [FloorSemiring K] [IsStrictOrderedRing K] in
/-- A rerank of all candidates and a division of all scores give the same hits. -/
theorem rerank_divided {touched : List UInt32} (distinct : touched.Nodup) (divide : Nat → K → K)
    (zero : ∀ idx, divide idx 0 = 0) (scores : List K) {rescore : Hit K → Option (Hit K)}
    (agrees : ∀ hit ∈ touchedHits touched scores, rescore hit =
      if divide hit.frameId.toNat hit.score = 0 then none
      else some ⟨hit.frameId, divide hit.frameId.toNat hit.score⟩)
    (nonneg : ∀ hit ∈ touchedHits touched scores, 0 ≤ divide hit.frameId.toNat hit.score)
    {pool : Nat} (room : (touchedHits touched scores).length ≤ pool) (topK : Option Nat) :
    sortAndTruncate ((((touchedHits touched scores).insertionSort Hit.Before).take
        pool).filterMap rescore) topK =
      selectTopKFromTouched touched (touched.foldl
        (fun scores frame => scores.modify frame.toNat (divide frame.toNat)) scores)
        (topK.getD wordLimit) := by
  have hits := touchedHits_divided distinct divide zero scores
  have later := touchedHits_distinct distinct (touched.foldl
    (fun scores frame => scores.modify frame.toNat (divide frame.toNat)) scores)
  have few : (touchedHits touched (touched.foldl (fun scores frame =>
      scores.modify frame.toNat (divide frame.toNat)) scores)).length ≤ wordLimit :=
    (List.length_filterMap_le _ _).trans ((words_length distinct).trans (by decide))
  have whole : ((touchedHits touched scores).insertionSort Hit.Before).take pool =
      (touchedHits touched scores).insertionSort Hit.Before :=
    List.take_of_length_le (by rwa [List.length_insertionSort])
  have perm : (((touchedHits touched scores).insertionSort Hit.Before).filterMap rescore).Perm
      (touchedHits touched (touched.foldl
        (fun scores frame => scores.modify frame.toNat (divide frame.toNat)) scores)) := by
    rw [hits, ← List.filterMap_congr agrees]
    exact (List.perm_insertionSort _ _).filterMap _
  have sorted : (((touchedHits touched scores).insertionSort Hit.Before).filterMap
      rescore).insertionSort Hit.Before = (touchedHits touched (touched.foldl (fun scores frame =>
        scores.modify frame.toNat (divide frame.toNat)) scores)).insertionSort Hit.Before := by
    refine before_ranks.eq_of_perm ?_ (before_ranks.insertionSort (perm.nodup_iff.mpr later))
      (before_ranks.insertionSort later)
    exact ((List.perm_insertionSort _ _).trans perm).trans (List.perm_insertionSort _ _).symm
  rw [whole, select_eq distinct]
  · unfold sortAndTruncate
    cases topK with
    | none =>
        dsimp only
        rw [sorted, Option.getD_none, List.take_of_length_le]
        rwa [List.length_insertionSort]
    | some k =>
        dsimp only
        rw [sorted, Option.getD_some]
  · intro hit member
    rw [hits] at member
    obtain ⟨before, among, found⟩ := List.mem_filterMap.mp member
    split at found
    · cases found
    · rw [← Option.some.inj found]
      exact nonneg before among

end Budgets

end Valise
