import Valise.TextNewest
import Valise.TextQueries

/-!
Set similarity: how many terms of a query a frame has, against the sizes of both sets of terms. What
is counted posting by posting is the overlap of the sets just where the posting lists and the
statistics of the frames agree.
-/

namespace Valise

open ByteLists Outcomes SortedTables TopKs

/-- `docUniqueTerms` is indexed by frame id, as `docLengths` is. -/
structure TermSetSpace extends ScoredSpace where
  docUniqueTerms : List UInt32

inductive SetMeasure where
  | jaccard
  | dice
  | overlap
  | containment
deriving DecidableEq, Repr

/-- How often the rows name each frame, and the frames that they name. -/
structure Overlaps where
  intersection : List Nat
  touched : List UInt32 := []

section Scorer

variable {K : Type} [Field K] [LinearOrder K]

/-- A quotient, unless the divisor is zero. -/
def divide (a b : K) : Option K := if b = 0 then none else some (a / b)

def guarded (num denom : K) : Option K := if denom = 0 then some 0 else divide num denom

def jaccardScore (inter q d : K) : Option K := guarded inter (q + d - inter)

def diceScore (inter q d : K) : Option K := guarded (2 * inter) (q + d)

def overlapScore (inter q d : K) : Option K := guarded inter (min q d)

def containmentScore (inter q _d : K) : Option K := guarded inter q

def SetMeasure.score : SetMeasure → K → K → K → Option K
  | .jaccard => jaccardScore
  | .dice => diceScore
  | .overlap => overlapScore
  | .containment => containmentScore

def countRow (tombstoned : List FrameId) (overlaps : Overlaps) (row : TermRow) : Overlaps :=
  if row.frameId ∈ tombstoned then overlaps
  else
    let idx := row.frameId.toNat
    match overlaps.intersection[idx]? with
    | none => overlaps
    | some prev => {
        intersection := overlaps.intersection.set idx (prev + 1)
        touched := if prev = 0 then overlaps.touched ++ [UInt32.ofNat idx] else overlaps.touched }

def countTermRows (space : TermSetSpace) (tombstoned : List FrameId) (overlaps : Overlaps)
    (termId : TermId) : Overlaps :=
  match space.lookupPostingsSparse termId with
  | none => overlaps
  | some rows => rows.foldl (countRow tombstoned) overlaps

/-- The touched frames get their scores; nothing is left of these if a division has no value. -/
def scoreTouched (space : TermSetSpace) (scoreFn : K → K → K → Option K) (qSize : K)
    (overlaps : Overlaps) : Option (List K) :=
  overlaps.touched.foldlM (fun scores frame => do
    let idx := frame.toNat
    let score ← scoreFn (overlaps.intersection.getD idx 0 : Nat) qSize
      ((space.docUniqueTerms.getD idx 0).toNat : K)
    return scores.set idx score) (List.replicate space.docLengths.length 0)

def scoreSetSimilarity (space : TermSetSpace) (frames : List FrameStub) (tokens : List Bytes)
    (topK : Option Nat) (scoreFn : K → K → K → Option K) : Option (List (Hit K)) :=
  if tokens = [] then some []
  else
    let tombstoned := buildTombstoneSet frames
    let qTermIds := (resolveQueryTerms space.text tokens).map Prod.fst
    if qTermIds = [] then some []
    else
      let overlaps := qTermIds.foldl (countTermRows space tombstoned)
        { intersection := List.replicate space.docLengths.length 0 }
      (scoreTouched space scoreFn qTermIds.length overlaps).map fun scores =>
        selectTopKFromTouched overlaps.touched scores (topK.getD wordLimit)

section Queries

variable (space : TermSetSpace) (frames : List FrameStub) (tokens : List Bytes) (topK : Option Nat)

/-- Only the terms themselves have a token set. -/
def jaccardQuery (tokenSource : TokenSource) : Result (Option (List (Hit K))) :=
  match tokenSource with
  | .shingles => .err (.unsupported
      "JaccardExact: TokenSource::Shingles requires TokenSetSegment (v2)")
  | .terms => .ok (scoreSetSimilarity space frames tokens topK jaccardScore)

def diceQuery : Result (Option (List (Hit K))) :=
  .ok (scoreSetSimilarity space frames tokens topK diceScore)

def overlapQuery : Result (Option (List (Hit K))) :=
  .ok (scoreSetSimilarity space frames tokens topK overlapScore)

def containmentQuery : Result (Option (List (Hit K))) :=
  .ok (scoreSetSimilarity space frames tokens topK containmentScore)

def SetMeasure.query : SetMeasure → Result (Option (List (Hit K)))
  | .jaccard => jaccardQuery space frames tokens topK .terms
  | .dice => diceQuery space frames tokens topK
  | .overlap => overlapQuery space frames tokens topK
  | .containment => containmentQuery space frames tokens topK

theorem SetMeasure.query_eq (measure : SetMeasure) :
    measure.query (K := K) space frames tokens topK =
      .ok (scoreSetSimilarity space frames tokens topK measure.score) := by
  cases measure <;> rfl

end Queries

end Scorer

/-! ### The scores by definition -/

section Definition

variable {K : Type} [Field K] [LinearOrder K]

/-- The similarity of the terms of a query to those of a frame. -/
def SetMeasure.value (query frame : Finset TermId) : SetMeasure → K
  | .jaccard => (query ∩ frame).card / (query ∪ frame).card
  | .dice => 2 * (query ∩ frame).card / (query.card + frame.card)
  | .overlap => (query ∩ frame).card / min (query.card : K) frame.card
  | .containment => (query ∩ frame).card / query.card

namespace TermSetSpace

variable (space : TermSetSpace)

def listed (termId : TermId) : List FrameId :=
  ((space.lookupPostingsSparse termId).getD []).map TermRow.frameId

/-- The distinct terms of a frame. -/
noncomputable def docTerms (frame : FrameId) : Finset TermId :=
  Finset.univ.filter fun termId => frame ∈ space.listed termId

theorem mem_docTerms {space : TermSetSpace} {frame : FrameId} {termId : TermId} :
    termId ∈ space.docTerms frame ↔ frame ∈ space.listed termId := by
  simp [docTerms]

/-- The frame has a term of the query. -/
def Shares (tokens : List Bytes) (frame : FrameId) : Prop :=
  (space.knownTerms tokens ∩ space.docTerms frame).Nonempty

noncomputable def similarity (measure : SetMeasure) (tokens : List Bytes) (frame : FrameId) : K :=
  measure.value (space.knownTerms tokens) (space.docTerms frame)

/-- The hits are the first ones, in order, of all frames that are not tombstoned and that share a
term with the query. -/
structure RankedBySimilarity (measure : SetMeasure) (tombstoned : List FrameId)
    (tokens : List Bytes) (cap : Nat) (hits : List (Hit K)) : Prop where
  sorted : hits.Pairwise Hit.Before
  few : hits.length ≤ cap
  scored : ∀ hit ∈ hits, hit.frameId ∉ tombstoned ∧ space.Shares tokens hit.frameId ∧
    hit.score = space.similarity measure tokens hit.frameId
  rest : ∀ frame, frame ∉ tombstoned → space.Shares tokens frame →
    (∃ hit ∈ hits, hit.frameId = frame) ∨ hits.length = cap ∧
      ∀ hit ∈ hits, hit.Before ⟨frame, space.similarity measure tokens frame⟩

/-- No query divides by zero, and every query returns the hits that the definition of its measure
gives. -/
def ExactSimilarity (K : Type) [Field K] [LinearOrder K] : Prop :=
  ∀ (measure : SetMeasure) (frames : List FrameStub) (tokens : List Bytes) (topK : Option Nat),
    ∃ hits : List (Hit K), measure.query space frames tokens topK = .ok (some hits) ∧
      space.RankedBySimilarity measure (buildTombstoneSet frames) tokens
        (topK.getD wordLimit) hits

/-- Of the terms that a query can name: a list names each frame once and only frames that have a
place, and the statistics of these have the number of all the terms that name them. -/
structure Consistent (space : TermSetSpace) : Prop where
  once : ∀ bytes termId, space.text.lookupTerm bytes = some termId → (space.listed termId).Nodup
  placed : ∀ bytes termId, space.text.lookupTerm bytes = some termId →
    ∀ frame ∈ space.listed termId, frame.toNat < space.docLengths.length
  sized : ∀ bytes termId, space.text.lookupTerm bytes = some termId →
    ∀ frame ∈ space.listed termId,
      (space.docUniqueTerms.getD frame.toNat 0).toNat = (space.docTerms frame).card

end TermSetSpace

end Definition

/-! ### Guarded quotients -/

section Quotients

variable {K : Type} [Field K] [LinearOrder K]

/-- What a guarded quotient amounts to, as a quotient by zero is zero here. -/
theorem guarded_eq (num denom : K) : guarded num denom = some (num / denom) := by
  unfold guarded divide
  by_cases zero : denom = 0
  · rw [if_pos zero, zero, div_zero]
  · rw [if_neg zero, if_neg zero]

def SetMeasure.ratio (inter q d : K) : SetMeasure → K
  | .jaccard => inter / (q + d - inter)
  | .dice => 2 * inter / (q + d)
  | .overlap => inter / min q d
  | .containment => inter / q

theorem SetMeasure.score_eq (measure : SetMeasure) (inter q d : K) :
    measure.score inter q d = some (measure.ratio inter q d) := by
  cases measure <;> exact guarded_eq _ _

/-- From the sizes of the sets and of their overlap, the scores are those of the sets. -/
theorem SetMeasure.ratio_card (measure : SetMeasure) (query frame : Finset TermId) :
    measure.ratio ((query ∩ frame).card : K) query.card frame.card = measure.value query frame := by
  have union : ((query ∪ frame).card : K) = query.card + frame.card - (query ∩ frame).card := by
    rw [eq_sub_iff_add_eq, ← Nat.cast_add, ← Nat.cast_add, Finset.card_union_add_card_inter]
  cases measure with
  | jaccard => rw [ratio, value, union]
  | dice => rfl
  | overlap => rfl
  | containment => rfl

theorem SetMeasure.value_pos [IsStrictOrderedRing K] (measure : SetMeasure)
    {query frame : Finset TermId} (shares : (query ∩ frame).Nonempty) :
    0 < (measure.value query frame : K) := by
  have inter : (0 : K) < (query ∩ frame).card := Nat.cast_pos.mpr shares.card_pos
  have first : (0 : K) < query.card :=
    Nat.cast_pos.mpr (shares.mono Finset.inter_subset_left).card_pos
  have second : (0 : K) < frame.card :=
    Nat.cast_pos.mpr (shares.mono Finset.inter_subset_right).card_pos
  have union : (0 : K) < (query ∪ frame).card :=
    Nat.cast_pos.mpr (shares.mono (Finset.inter_subset_left.trans Finset.subset_union_left)).card_pos
  cases measure with
  | jaccard => exact div_pos inter union
  | dice => exact div_pos (mul_pos two_pos inter) (add_pos first second)
  | overlap => exact div_pos inter (lt_min first second)
  | containment => exact div_pos inter first

end Quotients

/-! ### What the postings count -/

namespace Overlaps

/-- What the frames have been counted from. -/
structure Counted (nFrames : Nat) (frames : List FrameId) (overlaps : Overlaps) : Prop where
  length : overlaps.intersection.length = nFrames
  counts : ∀ frame : FrameId, frame.toNat < nFrames →
    overlaps.intersection[frame.toNat]? = some (frames.count frame)
  nodup : overlaps.touched.Nodup
  touched : ∀ fid : UInt32, fid ∈ overlaps.touched ↔ UInt64.ofNat fid.toNat ∈ frames
  inside : ∀ frame ∈ frames, frame.toNat < nFrames

def counts (tombstoned : List FrameId) (nFrames : Nat) (frame : FrameId) : Bool :=
  frame ∉ tombstoned ∧ frame.toNat < nFrames

variable {nFrames : Nat} {frames : List FrameId} {overlaps : Overlaps} {tombstoned : List FrameId}

theorem empty_counted (nFrames : Nat) :
    Counted nFrames [] { intersection := List.replicate nFrames 0 } where
  length := List.length_replicate
  counts frame inside := by simp [inside]
  nodup := List.nodup_nil
  touched fid := by simp
  inside := nofun

theorem Counted.row (counted : overlaps.Counted nFrames frames) (small : nFrames ≤ 2 ^ 32)
    (row : TermRow) : (countRow tombstoned overlaps row).Counted nFrames
      (frames ++ [row.frameId].filter (Overlaps.counts tombstoned nFrames)) := by
  unfold countRow
  by_cases gone : row.frameId ∈ tombstoned
  · rw [if_pos gone, List.filter_cons_of_neg (by simp [Overlaps.counts, gone])]
    simpa using counted
  rw [if_neg gone]
  dsimp only
  by_cases inside : row.frameId.toNat < nFrames
  · rw [List.filter_cons_of_pos (by simp [Overlaps.counts, gone, inside]), List.filter_nil,
      counted.counts _ inside]
    have wide (fid : UInt32) : (UInt64.ofNat fid.toNat).toNat = fid.toNat :=
      UInt64.toNat_ofNat_of_lt' (fid.toNat_lt.trans (by decide))
    have back : UInt64.ofNat (UInt32.ofNat row.frameId.toNat).toNat = row.frameId := by
      rw [UInt32.toNat_ofNat_of_lt' (inside.trans_le small), UInt64.ofNat_toNat]
    have named (fid : UInt32) : UInt64.ofNat fid.toNat = row.frameId ↔
        fid = UInt32.ofNat row.frameId.toNat := by
      constructor
      · intro same
        rw [← same, wide, UInt32.ofNat_toNat]
      · rintro rfl
        exact back
    refine ⟨by rw [List.length_set]; exact counted.length, fun frame room => ?_, ?_, fun fid => ?_, ?_⟩
    · rw [List.count_append, List.count_singleton]
      by_cases same : row.frameId = frame
      · obtain rfl := same
        rw [List.getElem?_set_self (by rw [counted.length]; exact room)]
        simp
      · have apart : row.frameId.toNat ≠ frame.toNat := fun equal => same (UInt64.toNat_inj.mp equal)
        rw [List.getElem?_set_ne apart, counted.counts frame room]
        simp [same]
    · dsimp only
      split
      · rename_i fresh
        refine List.nodup_append.mpr ⟨counted.nodup, List.nodup_singleton _, ?_⟩
        rintro old member other last rfl
        obtain rfl := List.mem_singleton.mp last
        rw [counted.touched, back] at member
        exact absurd fresh (List.count_pos_iff.mpr member).ne'
      · exact counted.nodup
    · dsimp only
      rw [List.mem_append, List.mem_singleton, named]
      split
      · rw [List.mem_append, List.mem_singleton, counted.touched]
      · rename_i seen
        rw [counted.touched]
        refine ⟨.inl, fun either => either.elim id ?_⟩
        rintro rfl
        rw [back]
        exact List.count_pos_iff.mp (Nat.pos_of_ne_zero seen)
    · intro frame member
      rcases List.mem_append.mp member with old | last
      · exact counted.inside frame old
      · exact List.mem_singleton.mp last ▸ inside
  · rw [List.filter_cons_of_neg (by simp [Overlaps.counts, inside]),
      List.getElem?_eq_none (by rw [counted.length]; exact Nat.le_of_not_lt inside)]
    simpa using counted

theorem Counted.rows (counted : overlaps.Counted nFrames frames) (small : nFrames ≤ 2 ^ 32)
    (rows : List TermRow) : (rows.foldl (countRow tombstoned) overlaps).Counted nFrames
      (frames ++ (rows.map TermRow.frameId).filter (Overlaps.counts tombstoned nFrames)) := by
  induction rows generalizing overlaps frames with
  | nil => simpa using counted
  | cons row rest ih =>
      have split : frames ++ ((row :: rest).map TermRow.frameId).filter
          (Overlaps.counts tombstoned nFrames) =
            (frames ++ [row.frameId].filter (Overlaps.counts tombstoned nFrames)) ++
              (rest.map TermRow.frameId).filter (Overlaps.counts tombstoned nFrames) := by
        rw [List.append_assoc, ← List.filter_append]
        rfl
      rw [split, List.foldl_cons]
      exact ih (counted.row small row)

/-- What the lists of the terms name, but for what does not count. -/
def named (space : TermSetSpace) (tombstoned : List FrameId) (termIds : List TermId) : List FrameId :=
  (termIds.flatMap space.listed).filter (Overlaps.counts tombstoned space.docLengths.length)

theorem terms_counted (space : TermSetSpace) (tombstoned : List FrameId) (termIds : List TermId) :
    (termIds.foldl (countTermRows space tombstoned)
      { intersection := List.replicate space.docLengths.length 0 }).Counted space.docLengths.length
        (named space tombstoned termIds) := by
  induction termIds using List.reverseRecOn with
  | nil => exact empty_counted _
  | append_singleton termIds termId ih =>
      have split : named space tombstoned (termIds ++ [termId]) = named space tombstoned termIds ++
          (space.listed termId).filter (Overlaps.counts tombstoned space.docLengths.length) := by
        simp [named]
      rw [split, List.foldl_concat, countTermRows, TermSetSpace.listed]
      cases space.lookupPostingsSparse termId with
      | none => simpa using ih
      | some rows => exact ih.rows space.addressable rows

end Overlaps

/-! ### The hits -/

/-- The terms of a query, as the scorer goes through them. -/
abbrev TermSetSpace.queryTermIds (space : TermSetSpace) (tokens : List Bytes) : List TermId :=
  (resolveQueryTerms space.text tokens).map Prod.fst

section Hits

variable {K : Type} [Field K] [LinearOrder K] {space : TermSetSpace} {overlaps : Overlaps}
  {frames : List FrameId} {measure : SetMeasure} {qSize : K}

/-- The score of a frame from what was counted and what is stored for it. -/
def frameScore (space : TermSetSpace) (measure : SetMeasure) (qSize : K) (overlaps : Overlaps)
    (idx : Nat) : K :=
  measure.ratio (overlaps.intersection.getD idx 0 : Nat) qSize
    ((space.docUniqueTerms.getD idx 0).toNat : K)

/-- Every division has a value, and every touched frame gets its score. -/
theorem scoreTouched_eq (measure : SetMeasure) (qSize : K)
    (counted : overlaps.Counted space.docLengths.length frames) :
    ∃ scores, scoreTouched space measure.score qSize overlaps = some scores ∧
      ∀ fid ∈ overlaps.touched, scores.getD fid.toNat 0 =
        frameScore space measure qSize overlaps fid.toNat := by
  have inside : ∀ fid ∈ overlaps.touched, fid.toNat < space.docLengths.length := by
    intro fid member
    have bound := counted.inside _ ((counted.touched fid).mp member)
    rwa [UInt64.toNat_ofNat_of_lt' (fid.toNat_lt.trans (by decide))] at bound
  unfold scoreTouched
  simp only [SetMeasure.score_eq]
  have each : ∀ (touched : List UInt32) (scores : List K), scores.length = space.docLengths.length →
      (∀ fid ∈ touched, fid.toNat < space.docLengths.length) →
      ∃ after, (touched.foldlM (fun scores frame => do
          let score ← some (frameScore space measure qSize overlaps frame.toNat)
          return scores.set frame.toNat score) scores : Option (List K)) = some after ∧
        ∀ idx, (∃ fid ∈ touched, fid.toNat = idx) ∨
            scores.getD idx 0 = frameScore space measure qSize overlaps idx →
          after.getD idx 0 = frameScore space measure qSize overlaps idx := by
    intro touched
    induction touched with
    | nil =>
        intro scores _ _
        exact ⟨scores, rfl, fun idx either => either.elim (by simp) id⟩
    | cons fid rest ih =>
        intro scores length room
        obtain ⟨here, later⟩ := List.forall_mem_cons.mp room
        obtain ⟨after, ran, final⟩ := ih (scores.set fid.toNat
          (frameScore space measure qSize overlaps fid.toNat)) (by simpa using length) later
        refine ⟨after, ran, fun idx either => final idx ?_⟩
        rw [List.getD_eq_getElem?_getD]
        by_cases same : fid.toNat = idx
        · obtain rfl := same
          rw [List.getElem?_set_self (by rw [length]; exact here)]
          exact .inr rfl
        · rw [List.getElem?_set_ne same, ← List.getD_eq_getElem?_getD]
          rcases either with ⟨other, member, rfl⟩ | set
          · rcases List.mem_cons.mp member with rfl | member
            · exact absurd rfl same
            · exact .inl ⟨other, member, rfl⟩
          · exact .inr set
  obtain ⟨scores, ran, final⟩ := each overlaps.touched _ List.length_replicate inside
  exact ⟨scores, ran, fun fid member => final _ (.inl ⟨fid, member, rfl⟩)⟩

theorem Overlaps.Counted.mem_touched (counted : overlaps.Counted space.docLengths.length frames)
    {frame : FrameId} : (∃ fid ∈ overlaps.touched, fid.toNat = frame.toNat) ↔ frame ∈ frames := by
  constructor
  · rintro ⟨fid, member, same⟩
    have there := (counted.touched fid).mp member
    rwa [same, UInt64.ofNat_toNat] at there
  · intro member
    have back : (UInt32.ofNat frame.toNat).toNat = frame.toNat :=
      UInt32.toNat_ofNat_of_lt' ((counted.inside frame member).trans_le space.addressable)
    refine ⟨_, (counted.touched _).mpr ?_, back⟩
    rwa [back, UInt64.ofNat_toNat]

theorem Overlaps.Counted.getD_count (counted : overlaps.Counted space.docLengths.length frames)
    {frame : FrameId} (member : frame ∈ frames) :
    overlaps.intersection.getD frame.toNat 0 = frames.count frame := by
  rw [List.getD_eq_getElem?_getD, counted.counts frame (counted.inside frame member)]
  rfl

variable (space measure) in
/-- Every query is answered, whatever the state holds: by the first of the frames that its lists name
and whose score is not zero. -/
theorem scoreSetSimilarity_answers (frames : List FrameStub) (tokens : List Bytes)
    (topK : Option Nat) : ∃ hits items : List (Hit K),
    scoreSetSimilarity space frames tokens topK measure.score = some hits ∧
      items.length ≤ 2 ^ 32 ∧
      ((∀ hit ∈ items, 0 ≤ hit.score) ∨ topK = none →
        IsTop Hit.Before (topK.getD wordLimit) items hits) ∧
      ∀ hit, hit ∈ items ↔ hit.frameId ∈ Overlaps.named space (buildTombstoneSet frames)
          (space.queryTermIds tokens) ∧
        hit.score = measure.ratio ((Overlaps.named space (buildTombstoneSet frames)
            (space.queryTermIds tokens)).count hit.frameId : K)
          ((space.knownTerms tokens).card : K)
          ((space.docUniqueTerms.getD hit.frameId.toNat 0).toNat : K) ∧ hit.score ≠ 0 := by
  have size : (space.queryTermIds tokens).length =
      (space.knownTerms tokens).card := by
    rw [← resolveQueryTerms_toFinset,
      List.toFinset_card_of_nodup (resolveQueryTerms_nodup space.text tokens)]
  have nothing (none : space.queryTermIds tokens = []) (hit : Hit K) :
      hit.frameId ∉ Overlaps.named space (buildTombstoneSet frames)
        (space.queryTermIds tokens) := by
    rw [none]
    exact List.not_mem_nil
  have top : IsTop Hit.Before (topK.getD wordLimit) ([] : List (Hit K)) [] :=
    ⟨.nil, nofun, Nat.zero_le _, nofun⟩
  unfold scoreSetSimilarity
  by_cases empty : tokens = []
  · rw [if_pos empty]
    refine ⟨[], [], rfl, Nat.zero_le _, fun _ => top, fun hit => ⟨nofun, fun both => ?_⟩⟩
    exact absurd both.1 (nothing (by rw [empty]; rfl) hit)
  rw [if_neg empty]
  dsimp only
  by_cases unknown : space.queryTermIds tokens = []
  · rw [if_pos unknown]
    refine ⟨[], [], rfl, Nat.zero_le _, fun _ => top, fun hit => ⟨nofun, fun both => ?_⟩⟩
    exact absurd both.1 (nothing unknown hit)
  rw [if_neg unknown]
  have counted := Overlaps.terms_counted space (buildTombstoneSet frames)
    (space.queryTermIds tokens)
  generalize List.foldl (countTermRows space (buildTombstoneSet frames)) _ _ = overlaps at counted
  obtain ⟨scores, ran, final⟩ := scoreTouched_eq measure
    (((space.queryTermIds tokens).length : Nat) : K) counted
  rw [ran, Option.map_some]
  have few := words_length counted.nodup
  refine ⟨_, touchedHits overlaps.touched scores, rfl, (List.length_filterMap_le _ _).trans few,
    fun simple => selectTopKFromTouched_isTop counted.nodup _ (simple.imp_right ?_), fun hit => ?_⟩
  · rintro rfl
    exact few.trans (by decide)
  · rw [mem_touchedHits_iff, counted.mem_touched]
    refine and_congr_right fun member => ?_
    obtain ⟨fid, known, same⟩ := counted.mem_touched.mpr member
    have score := final fid known
    rw [same, frameScore, counted.getD_count member, size] at score
    rw [score]

end Hits

/-! ### Exact scores -/

namespace TermSetSpace

section Exact

variable {space : TermSetSpace} {tombstoned : List FrameId} {tokens : List Bytes} {frame : FrameId}

theorem mem_queryTermIds {termId : TermId} :
    termId ∈ space.queryTermIds tokens ↔ termId ∈ space.knownTerms tokens := by
  rw [← resolveQueryTerms_toFinset, List.mem_toFinset]

theorem named_of_known {termId : TermId} (known : termId ∈ space.knownTerms tokens) :
    ∃ bytes, space.text.lookupTerm bytes = some termId := by
  obtain ⟨bytes, _, found⟩ := List.mem_filterMap.mp (List.mem_toFinset.mp known)
  exact ⟨bytes, found⟩

theorem count_named (termIds : List TermId) (kept : frame ∉ tombstoned)
    (inside : frame.toNat < space.docLengths.length) :
    (Overlaps.named space tombstoned termIds).count frame =
      (termIds.map fun termId => (space.listed termId).count frame).sum := by
  rw [Overlaps.named, List.count_filter (by simp [Overlaps.counts, kept, inside]),
    List.count_flatMap]
  rfl

theorem mem_named {termIds : List TermId} : frame ∈ Overlaps.named space tombstoned termIds ↔
    (∃ termId ∈ termIds, frame ∈ space.listed termId) ∧ frame ∉ tombstoned ∧
      frame.toNat < space.docLengths.length := by
  simp [Overlaps.named, Overlaps.counts]

theorem shares_iff : space.Shares tokens frame ↔
    ∃ termId ∈ space.queryTermIds tokens, frame ∈ space.listed termId := by
  simp only [Shares, Finset.Nonempty, Finset.mem_inter, mem_docTerms, mem_queryTermIds]

/-- Where every list names a frame once, the count of a frame is the size of the overlap. -/
theorem Consistent.count (consistent : space.Consistent) (frame : FrameId) :
    ((space.queryTermIds tokens).map fun termId => (space.listed termId).count frame).sum =
      (space.knownTerms tokens ∩ space.docTerms frame).card := by
  have overlap : space.knownTerms tokens ∩ space.docTerms frame =
      (space.knownTerms tokens).filter fun termId => frame ∈ space.listed termId := by
    ext termId
    simp only [Finset.mem_inter, mem_docTerms, Finset.mem_filter]
  rw [overlap, Finset.card_filter, ← resolveQueryTerms_toFinset,
    List.sum_toFinset _ (resolveQueryTerms_nodup space.text tokens)]
  refine congrArg List.sum (List.map_congr_left fun termId member => ?_)
  obtain ⟨bytes, found⟩ := named_of_known (mem_queryTermIds.mp member)
  exact (consistent.once bytes termId found).count

theorem Consistent.mem_named_iff (consistent : space.Consistent) :
    frame ∈ Overlaps.named space tombstoned (space.queryTermIds tokens) ↔
      frame ∉ tombstoned ∧ space.Shares tokens frame := by
  rw [mem_named, shares_iff]
  constructor
  · exact fun ⟨shares, kept, _⟩ => ⟨kept, shares⟩
  · rintro ⟨kept, termId, member, listed⟩
    obtain ⟨bytes, found⟩ := named_of_known (mem_queryTermIds.mp member)
    exact ⟨⟨termId, member, listed⟩, kept, consistent.placed bytes termId found frame listed⟩

variable {K : Type} [Field K] [LinearOrder K]

/-- Where the lists and the statistics agree, what is counted gives the scores of the sets. -/
theorem Consistent.score (consistent : space.Consistent) (measure : SetMeasure)
    (member : frame ∈ Overlaps.named space tombstoned (space.queryTermIds tokens)) :
    measure.ratio ((Overlaps.named space tombstoned (space.queryTermIds tokens)).count frame : K)
        ((space.knownTerms tokens).card : K) ((space.docUniqueTerms.getD frame.toNat 0).toNat : K) =
      space.similarity measure tokens frame := by
  obtain ⟨⟨termId, queried, listed⟩, kept, inside⟩ := mem_named.mp member
  obtain ⟨bytes, found⟩ := named_of_known (mem_queryTermIds.mp queried)
  rw [count_named _ kept inside, consistent.count, consistent.sized bytes termId found frame listed]
  exact measure.ratio_card _ _

theorem Consistent.exact [IsStrictOrderedRing K] (consistent : space.Consistent) :
    space.ExactSimilarity K := by
  intro measure frames tokens topK
  obtain ⟨hits, items, answered, _, top, listed⟩ :=
    @scoreSetSimilarity_answers K _ _ space measure frames tokens topK
  have positive : ∀ hit ∈ items, 0 < hit.score := by
    intro hit member
    obtain ⟨named, score, _⟩ := (listed hit).mp member
    rw [score, consistent.score measure named]
    exact measure.value_pos (consistent.mem_named_iff.mp named).2
  have top := top (.inl fun hit member => (positive hit member).le)
  refine ⟨hits, ?_, top.sorted, top.few, fun hit member => ?_, fun frame kept shares => ?_⟩
  · rw [measure.query_eq, answered]
  · obtain ⟨named, score, _⟩ := (listed hit).mp (top.among hit member)
    obtain ⟨kept, shares⟩ := consistent.mem_named_iff.mp named
    exact ⟨kept, shares, score.trans (consistent.score measure named)⟩
  · have named := (@Consistent.mem_named_iff space _ tokens frame consistent).mpr ⟨kept, shares⟩
    have member := (listed ⟨frame, space.similarity measure tokens frame⟩).mpr
      ⟨named, (consistent.score measure named).symm, (measure.value_pos shares).ne'⟩
    exact (top.rest _ member).imp (fun inside => ⟨_, inside, rfl⟩) id

/-- What a query of one term tells about a frame of its list: the frame has a place, and its score
is made of the number of its rows and of the stored size. -/
theorem ExactSimilarity.single (exact : space.ExactSimilarity K) (measure : SetMeasure)
    {bytes : Bytes} {termId : TermId} (found : space.text.lookupTerm bytes = some termId)
    (listed : frame ∈ space.listed termId) : frame.toNat < space.docLengths.length ∧
      measure.ratio ((space.listed termId).count frame : K) 1
          ((space.docUniqueTerms.getD frame.toNat 0).toNat : K) =
        measure.value {termId} (space.docTerms frame) ∧
      (measure.value {termId} (space.docTerms frame) : K) ≠ 0 := by
  obtain ⟨hits, items, answered, few, top, inItems⟩ :=
    @scoreSetSimilarity_answers K _ _ space measure [] [bytes] none
  obtain ⟨found', ok, ranked⟩ := exact measure [] [bytes] none
  rw [measure.query_eq, answered] at ok
  obtain rfl : hits = found' := Option.some.inj (Outcome.ok.inj ok)
  have top := top (.inr rfl)
  have queried : space.queryTermIds [bytes] = [termId] := by
    simp [queryTermIds, resolveQueryTerms, found, countTerm]
  have known : space.knownTerms [bytes] = {termId} := (ScoredSpace.knownTerms_singleton found).1
  have shares : space.Shares [bytes] frame := shares_iff.mpr ⟨termId, by rw [queried]; simp, listed⟩
  have short : hits.length ≤ 2 ^ 32 :=
    (List.subperm_of_subset (top.nodup before_ranks) top.among).length_le.trans few
  obtain ⟨hit, member, rfl⟩ : ∃ hit ∈ hits, hit.frameId = frame := by
    refine (ranked.rest frame List.not_mem_nil shares).resolve_right ?_
    rintro ⟨full, _⟩
    rw [full] at short
    exact absurd short (by decide)
  obtain ⟨named, counted, counts⟩ := (inItems hit).mp (top.among hit member)
  obtain ⟨_, kept, inside⟩ := mem_named.mp named
  have score := (ranked.scored hit member).2.2
  rw [similarity, known] at score
  rw [count_named _ kept inside, queried, known] at counted
  simp only [List.map_cons, List.map_nil, List.sum_cons, List.sum_nil, add_zero,
    Finset.card_singleton, Nat.cast_one] at counted
  exact ⟨inside, counted.symm.trans score, score ▸ counts⟩

theorem ExactSimilarity.consistent [IsStrictOrderedRing K] (exact : space.ExactSimilarity K) :
    space.Consistent := by
  -- The containment of a query of one term counts the rows of a frame.
  have once (bytes : Bytes) (termId : TermId) (found : space.text.lookupTerm bytes = some termId)
      (frame : FrameId) (listed : frame ∈ space.listed termId) :
      (space.listed termId).count frame = 1 := by
    have overlap : {termId} ∩ space.docTerms frame = {termId} :=
      Finset.singleton_inter_of_mem (mem_docTerms.mpr listed)
    have ratio := (exact.single .containment found listed).2.1
    rw [SetMeasure.ratio, SetMeasure.value, overlap, Finset.card_singleton, Nat.cast_one, div_one,
      div_one] at ratio
    exact Nat.cast_eq_one.mp ratio
  refine ⟨fun bytes termId found => ?_, fun bytes termId found frame listed => ?_,
    fun bytes termId found frame listed => ?_⟩
  · refine List.nodup_iff_count_le_one.mpr fun frame => ?_
    by_cases listed : frame ∈ space.listed termId
    · exact (once bytes termId found frame listed).le
    · rw [List.count_eq_zero_of_not_mem listed]
      exact Nat.zero_le 1
  · exact (exact.single .containment found listed).1
  · -- The Jaccard score of a query of one term is one by the size of the frame.
    have inside : termId ∈ space.docTerms frame := mem_docTerms.mpr listed
    have overlap : {termId} ∩ space.docTerms frame = {termId} := Finset.singleton_inter_of_mem inside
    have union : {termId} ∪ space.docTerms frame = space.docTerms frame :=
      Finset.union_eq_right.mpr (Finset.singleton_subset_iff.mpr inside)
    have ratio := (exact.single .jaccard found listed).2.1
    rw [SetMeasure.ratio, SetMeasure.value, once bytes termId found frame listed, overlap, union,
      Finset.card_singleton, Nat.cast_one, add_sub_cancel_left, one_div, one_div, inv_inj] at ratio
    exact Nat.cast_injective ratio

end Exact

end TermSetSpace

end Valise
