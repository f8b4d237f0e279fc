import Valise.TextAnswers

/-!
What one flush adds: consecutive ids for the new terms, one posting list for each term of the
batch, and nothing else.
-/

namespace Valise

open ByteLists Outcomes SortedTables

/-! ### Runs of one term -/

theorem groupRuns_mem {flats : List FlatPosting} {run : TermId × List Posting}
    (member : run ∈ groupRuns flats) : run.2 ≠ [] ∧ ∃ flat ∈ flats, flat.termId = run.1 := by
  induction flats generalizing run with
  | nil => simp [groupRuns] at member
  | cons flat flats ih =>
      simp only [groupRuns] at member
      split at member
      · obtain rfl := List.mem_singleton.mp member
        exact ⟨by simp, flat, List.mem_cons_self, rfl⟩
      · rename_i termId postings runs grouped
        have later : ∀ run ∈ runs, run.2 ≠ [] ∧ ∃ other ∈ flat :: flats, other.termId = run.1 := by
          intro run inside
          obtain ⟨some_row, other, found, same⟩ := ih (grouped ▸ List.mem_cons_of_mem _ inside)
          exact ⟨some_row, other, List.mem_cons_of_mem _ found, same⟩
        split at member
        · rename_i joined
          rcases List.mem_cons.mp member with head | inside
          · subst head
            exact ⟨by simp, flat, List.mem_cons_self, joined.symm⟩
          · exact later run inside
        · rcases List.mem_cons.mp member with head | inside
          · subst head
            exact ⟨by simp, flat, List.mem_cons_self, rfl⟩
          · rcases List.mem_cons.mp inside with second | beyond
            · obtain ⟨some_row, other, found, same⟩ :=
                @ih run (grouped ▸ second ▸ List.mem_cons_self)
              exact ⟨some_row, other, List.mem_cons_of_mem _ found, same⟩
            · exact later run beyond

theorem groupRuns_ascending {flats : List FlatPosting}
    (sorted : flats.Pairwise flatBefore) :
    Ascending (fun run => termRank run.1) (groupRuns flats) := by
  induction flats with
  | nil => exact ascending_nil _
  | cons flat flats ih =>
      obtain ⟨before, tail⟩ := List.pairwise_cons.mp sorted
      have ordered := ih tail
      have least : ∀ run ∈ groupRuns flats, termRank flat.termId ≤ termRank run.1 := by
        intro run inside
        obtain ⟨-, other, found, same⟩ := groupRuns_mem inside
        rcases before other found with smaller | equal
        · exact same ▸ smaller.le
        · exact (congrArg termRank (equal.1.trans same)).le
      simp only [groupRuns]
      split
      · exact List.pairwise_singleton _ _
      · rename_i termId postings runs grouped
        rw [grouped] at ordered least
        obtain ⟨after, rest⟩ := List.pairwise_cons.mp ordered
        split
        · exact List.pairwise_cons.mpr ⟨after, rest⟩
        · rename_i different
          have smaller : termRank flat.termId < termRank termId :=
            lt_of_le_of_ne (least _ List.mem_cons_self) fun same =>
              different (termRank_injective same).symm
          refine List.pairwise_cons.mpr ⟨fun run inside => ?_, ordered⟩
          rcases List.mem_cons.mp inside with head | beyond
          · exact head ▸ smaller
          · exact smaller.trans (after run beyond)

theorem groupRuns_rows (flats : List FlatPosting) (termId : TermId) :
    ((groupRuns flats).filter fun run => run.1 = termId).flatMap Prod.snd =
      (flats.filter fun flat => flat.termId = termId).map FlatPosting.posting := by
  induction flats with
  | nil => rfl
  | cons flat flats ih =>
      simp only [groupRuns]
      split
      · rename_i grouped
        rw [grouped] at ih
        by_cases same : flat.termId = termId
        · simpa [same] using ih
        · simpa [same] using ih
      · rename_i head postings runs grouped
        rw [grouped] at ih
        by_cases joined : head = flat.termId
        · subst joined
          by_cases same : flat.termId = termId
          · simp only [List.filter_cons, same, decide_true, if_true, List.flatMap_cons] at ih
            simp [same, ih]
          · simpa [same] using ih
        · rw [if_neg joined]
          by_cases same : flat.termId = termId
          · simpa [same] using ih
          · simpa [same] using ih

def SamePlace (first second : FlatPosting) : Prop :=
  first.termId = second.termId ∧ first.frameId = second.frameId

theorem flatBefore_total (first second : FlatPosting) :
    flatBefore first second ∨ flatBefore second first := by
  unfold flatBefore
  rcases Nat.lt_trichotomy (termRank first.termId) (termRank second.termId) with less | same | more
  · exact .inl (.inl less)
  · have equal := termRank_injective same
    rcases Nat.le_total (frameRank first.frameId) (frameRank second.frameId) with le | ge
    · exact .inl (.inr ⟨equal, le⟩)
    · exact .inr (.inr ⟨equal.symm, ge⟩)
  · exact .inr (.inl more)

theorem flatBefore_trans {first second third : FlatPosting} (left : flatBefore first second)
    (right : flatBefore second third) : flatBefore first third := by
  unfold flatBefore at *
  rcases left with less | ⟨same, le⟩
  · rcases right with less' | ⟨same', _⟩
    · exact .inl (less.trans less')
    · exact .inl (same' ▸ less)
  · rcases right with less' | ⟨same', le'⟩
    · exact .inl (same ▸ less')
    · exact .inr ⟨same.trans same', le.trans le'⟩

theorem sortFlat_sorted (flats : List FlatPosting) : (sortFlat flats).Pairwise flatBefore := by
  have : Std.Total flatBefore := ⟨flatBefore_total⟩
  have : IsTrans FlatPosting flatBefore := ⟨fun _ _ _ => flatBefore_trans⟩
  exact List.pairwise_insertionSort flatBefore flats

theorem sortFlat_perm (flats : List FlatPosting) : (sortFlat flats).Perm flats :=
  List.perm_insertionSort flatBefore flats

theorem postingLists_rows (flats : List FlatPosting) (termId : TermId) :
    (listed termId (postingLists flats)).flatMap PostingList.postings =
      ((sortFlat flats).filter fun flat => flat.termId = termId).map FlatPosting.posting := by
  rw [← groupRuns_rows, listed, postingLists, List.filter_map, List.flatMap_map]
  rfl

theorem mem_postingLists_rows {flats : List FlatPosting} {termId : TermId} {row : Posting} :
    row ∈ (listed termId (postingLists flats)).flatMap PostingList.postings ↔
      ∃ flat ∈ flats, flat.termId = termId ∧ flat.posting = row := by
  rw [postingLists_rows]
  simp only [List.mem_map, List.mem_filter, (sortFlat_perm flats).mem_iff, decide_eq_true_eq]
  constructor
  · rintro ⟨flat, ⟨member, same⟩, equal⟩
    exact ⟨flat, member, same, equal⟩
  · rintro ⟨flat, member, same, equal⟩
    exact ⟨flat, ⟨member, same⟩, equal⟩

theorem postingLists_segment {flats : List FlatPosting}
    (distinct : flats.Pairwise fun first second => ¬SamePlace first second) :
    SegmentLists (postingLists flats) := by
  have ascendingRuns := groupRuns_ascending (sortFlat_sorted flats)
  have distinctLists : (postingLists flats).Pairwise fun first second =>
      first.termId ≠ second.termId := by
    rw [postingLists, List.pairwise_map]
    exact ascendingRuns.imp fun before same => absurd (congrArg termRank same) (Nat.ne_of_lt before)
  have nonempty : ∀ list ∈ postingLists flats, list.postings ≠ [] := by
    intro list member
    obtain ⟨run, inside, rfl⟩ := List.mem_map.mp member
    exact (groupRuns_mem inside).1
  refine ⟨distinctLists, nonempty, fun list member => ?_, fun list member => ?_⟩
  · obtain ⟨run, -, rfl⟩ := List.mem_map.mp member
    rfl
  · -- within one term, the order of the tuples is the strict order of their frames
    have only := listed_of_distinct distinctLists member
    have rows := postingLists_rows flats list.termId
    rw [only] at rows
    simp only [List.flatMap_cons, List.flatMap_nil, List.append_nil] at rows
    rw [rows, Ascending, List.pairwise_map]
    have apart : (sortFlat flats).Pairwise fun first second => ¬SamePlace first second :=
      (sortFlat_perm flats).symm.pairwise distinct fun other same =>
        other ⟨same.1.symm, same.2.symm⟩
    have both := (sortFlat_sorted flats).and apart
    have filtered := both.filter fun flat => flat.termId = list.termId
    refine filtered.imp_of_mem fun {first second} inFirst inSecond order => ?_
    obtain ⟨before, different⟩ := order
    have firstTerm : first.termId = list.termId := by simpa using (List.mem_filter.mp inFirst).2
    have secondTerm : second.termId = list.termId := by simpa using (List.mem_filter.mp inSecond).2
    rcases before with less | ⟨_, le⟩
    · rw [firstTerm, secondTerm] at less
      exact absurd less (Nat.lt_irrefl _)
    · refine lt_of_le_of_ne le fun same => different ⟨firstTerm.trans secondTerm.symm, ?_⟩
      exact frameRank_injective same

/-! ### Term ids -/

/-- The known terms with their ids: no term and no id twice, and no id still to be assigned. -/
structure Terms (state : TextSpaceState) (pairs : List (Bytes × TermId)) : Prop where
  bytesDistinct : (pairs.map Prod.fst).Nodup
  idsDistinct : (pairs.map Prod.snd).Nodup
  known : ∀ bytes termId, state.lookupTerm bytes = some termId ↔ (bytes, termId) ∈ pairs
  below : ∀ pair ∈ pairs, pair.2.toNat < state.nextTermId.toNat

theorem Terms.perm {state : TextSpaceState} {pairs others : List (Bytes × TermId)}
    (terms : Terms state pairs) (same : pairs.Perm others) : Terms state others where
  bytesDistinct := (same.map Prod.fst).nodup_iff.mp terms.bytesDistinct
  idsDistinct := (same.map Prod.snd).nodup_iff.mp terms.idsDistinct
  known bytes termId := (terms.known bytes termId).trans same.mem_iff
  below pair member := terms.below pair (same.mem_iff.mpr member)

/-- Two terms never share an id. -/
theorem Terms.injective {state : TextSpaceState} {pairs : List (Bytes × TermId)}
    (terms : Terms state pairs) {first second : Bytes} {termId : TermId}
    (left : state.lookupTerm first = some termId) (right : state.lookupTerm second = some termId) :
    first = second := by
  have same := List.inj_on_of_nodup_map terms.idsDistinct ((terms.known _ _).mp left)
    ((terms.known _ _).mp right) (Eq.refl termId)
  exact congrArg Prod.fst same

def TextSpaceState.withTerm (state : TextSpaceState) (token : Bytes) : TextSpaceState :=
  { state with
    nextTermId := state.nextTermId + 1
    termIdByBytes := store bytesRank token state.nextTermId state.termIdByBytes }

theorem lookupTerm_withTerm {state : TextSpaceState} {token : Bytes}
    (unknown : state.lookupTerm token = none) (bytes : Bytes) :
    (state.withTerm token).lookupTerm bytes =
      if token = bytes then some state.nextTermId else state.lookupTerm bytes := by
  simp only [TextSpaceState.lookupTerm, TextSpaceState.withTerm,
    valueAt_store bytesRank bytesRank_injective] at unknown ⊢
  by_cases same : token = bytes
  · subst same
    simp [(Option.or_eq_none_iff.mp unknown).1]
  · simp [same]

theorem Terms.withTerm {state : TextSpaceState} {pairs : List (Bytes × TermId)}
    (terms : Terms state pairs) {token : Bytes} (unknown : state.lookupTerm token = none)
    (room : state.nextTermId.toNat + 1 < 2 ^ 32) :
    Terms (state.withTerm token) (pairs ++ [(token, state.nextTermId)]) := by
  have next : (state.withTerm token).nextTermId.toNat = state.nextTermId.toNat + 1 := by
    simp only [TextSpaceState.withTerm, UInt32.toNat_add]
    exact Nat.mod_eq_of_lt room
  refine ⟨?_, ?_, fun bytes termId => ?_, fun pair member => ?_⟩
  · rw [List.map_append, List.nodup_append]
    refine ⟨terms.bytesDistinct, by simp, fun bytes inside other new same => ?_⟩
    obtain ⟨pair, member, rfl⟩ := List.mem_map.mp inside
    obtain rfl : other = token := by simpa using new
    have found := (terms.known pair.1 pair.2).mpr member
    rw [same, unknown] at found
    simp at found
  · rw [List.map_append, List.nodup_append]
    refine ⟨terms.idsDistinct, by simp, fun termId inside other new same => ?_⟩
    obtain ⟨pair, member, rfl⟩ := List.mem_map.mp inside
    obtain rfl : other = state.nextTermId := by simpa using new
    exact absurd (terms.below pair member) (by rw [same]; exact Nat.lt_irrefl _)
  · rw [lookupTerm_withTerm unknown, List.mem_append]
    by_cases same : token = bytes
    · subst same
      have absent : (token, termId) ∉ pairs := fun member => by
        have found := (terms.known token termId).mpr member
        rw [unknown] at found
        simp at found
      simp [absent, eq_comm]
    · simp [same, terms.known, Ne.symm same]
  · rw [next]
    rcases List.mem_append.mp member with old | new
    · exact (terms.below pair old).trans (Nat.lt_succ_self _)
    · obtain rfl : pair = (token, state.nextTermId) := by simpa using new
      exact Nat.lt_succ_self _

theorem assignTermIds_spec {tokens : List Bytes} {state after : TextSpaceState}
    {pairs : List (Bytes × TermId)} {records : List (TermId × Bytes)} (terms : Terms state pairs)
    (distinct : tokens.Nodup) (unknown : ∀ token ∈ tokens, state.lookupTerm token = none)
    (assigned : assignTermIds state tokens = (after, .ok records)) :
    Terms after (pairs ++ records.map Prod.swap) ∧ records.map Prod.snd = tokens ∧
      ∃ known next, after = { state with termIdByBytes := known, nextTermId := next } := by
  induction tokens generalizing state pairs records with
  | nil =>
      simp only [assignTermIds, Prod.mk.injEq, Outcome.ok.injEq] at assigned
      obtain ⟨rfl, rfl⟩ := assigned
      exact ⟨by simpa using terms, rfl, _, _, rfl⟩
  | cons token tokens ih =>
      obtain ⟨apart, tail⟩ := List.nodup_cons.mp distinct
      have fresh := unknown token List.mem_cons_self
      simp only [assignTermIds] at assigned
      split at assigned
      · rename_i room
        obtain ⟨sameState, sameRecords⟩ := Prod.mk.inj assigned
        obtain ⟨rest, restOk, joined⟩ := Outcome.bind_eq_ok.mp sameRecords
        simp only [Outcome.pure_eq, Outcome.ok.injEq] at joined
        subst joined
        have later := @ih (state.withTerm token) _ _ (terms.withTerm fresh room) tail (by
          intro other member
          have different : token ≠ other := fun same => apart (same ▸ member)
          rw [lookupTerm_withTerm fresh, if_neg different]
          exact unknown other (List.mem_cons_of_mem _ member)) (Prod.ext sameState restOk)
        obtain ⟨laterTerms, laterTokens, known, next, laterState⟩ := later
        refine ⟨?_, by simp [laterTokens], known, next, laterState⟩
        simpa using laterTerms
      · simp at assigned

theorem newTermBytes_spec (state : TextSpaceState) (tokens : List Bytes) :
    (newTermBytes state tokens).Nodup ∧ ∀ token, token ∈ newTermBytes state tokens ↔
      token ∈ tokens ∧ state.lookupTerm token = none := by
  have ascending := upsertAll_ascending bytesRank (ascending_nil bytesRank)
    (tokens.filter fun token => state.lookupTerm token = none)
  constructor
  · exact ascending.imp fun before same => absurd (same ▸ before) (lt_irrefl _)
  · intro token
    have held := @find_eq_some _ _ _ bytesRank _ ascending (bytesRank token) token
    rw [find_upsertAll, find_nil, Option.or_none] at held
    constructor
    · intro member
      obtain ⟨inside, -⟩ := find_some bytesRank (held.mpr ⟨member, rfl⟩)
      simpa using inside
    · intro wanted
      refine (held.mp ?_).1
      cases found : find bytesRank (bytesRank token)
          (tokens.filter fun token => state.lookupTerm token = none).reverse with
      | none =>
          have absent := (find_none bytesRank).mp found token (by simpa using wanted)
          exact absurd (Eq.refl _) absent
      | some other => rw [bytesRank_injective (find_some bytesRank found).2]

/-! ### The tuples of a batch -/

/-- A batch as the hash maps hold it: no frame twice, and no term twice within a frame. -/
structure WellFormed (pending : PendingFrames) : Prop where
  frames : Ascending (fun entry => frameRank entry.1) pending
  counts : ∀ entry ∈ pending, Ascending (fun count => bytesRank count.1) entry.2.termCounts

/-- The batch has this posting for the term. -/
def Indexes (lookup : Bytes → Option TermId) (pending : PendingFrames) (termId : TermId)
    (row : Posting) : Prop :=
  ∃ entry ∈ pending, ∃ count ∈ entry.2.termCounts, lookup count.1 = some termId ∧
    row = ⟨entry.1, entry.2.collectionId, 1, count.2⟩

def frameTuples (lookup : Bytes → Option TermId) (entry : FrameId × PendingFrameIndex) :
    List FlatPosting :=
  entry.2.termCounts.filterMap fun count =>
    (lookup count.1).map fun termId => ⟨termId, entry.1, entry.2.collectionId, count.2⟩

theorem flattenFrame_ok (lookup : Bytes → Option TermId) (frameId : FrameId)
    (collectionId : CollectionId) (counts : List (Bytes × UInt32))
    (found : ∀ count ∈ counts, lookup count.1 ≠ none) :
    flattenFrame lookup frameId collectionId counts = .ok (counts.filterMap fun count =>
      (lookup count.1).map fun termId => ⟨termId, frameId, collectionId, count.2⟩) := by
  induction counts with
  | nil => rfl
  | cons count counts ih =>
      obtain ⟨bytes, termFreq⟩ := count
      have rest := ih fun other member => found other (List.mem_cons_of_mem _ member)
      cases known : lookup bytes with
      | none => exact absurd known (found _ List.mem_cons_self)
      | some termId => simp [flattenFrame, known, rest]

theorem flattenPending_ok {lookup : Bytes → Option TermId} (pending : PendingFrames)
    (found : ∀ token ∈ pendingTokens pending, lookup token ≠ none) :
    flattenPending lookup pending = .ok (pending.flatMap (frameTuples lookup)) := by
  induction pending with
  | nil => rfl
  | cons entry pending ih =>
      obtain ⟨frameId, frame⟩ := entry
      have here := flattenFrame_ok lookup frameId frame.collectionId frame.termCounts fun count member =>
          found count.1 (List.mem_flatMap.mpr ⟨(frameId, frame), List.mem_cons_self,
            List.mem_map_of_mem member⟩)
      have rest := ih fun token member => found token (by
        obtain ⟨other, inside, held⟩ := List.mem_flatMap.mp member
        exact List.mem_flatMap.mpr ⟨other, List.mem_cons_of_mem _ inside, held⟩)
      rw [flattenPending, here, rest]
      rfl

theorem mem_frameTuples {lookup : Bytes → Option TermId} {entry : FrameId × PendingFrameIndex}
    {flat : FlatPosting} :
    flat ∈ frameTuples lookup entry ↔ ∃ count ∈ entry.2.termCounts,
      lookup count.1 = some flat.termId ∧
        flat = ⟨flat.termId, entry.1, entry.2.collectionId, count.2⟩ := by
  simp only [frameTuples, List.mem_filterMap, Option.map_eq_some_iff]
  constructor
  · rintro ⟨count, member, termId, known, rfl⟩
    exact ⟨count, member, known, rfl⟩
  · rintro ⟨count, member, known, same⟩
    exact ⟨count, member, flat.termId, known, same.symm⟩

theorem tuples_rows (lookup : Bytes → Option TermId) (pending : PendingFrames) (termId : TermId)
    (row : Posting) :
    row ∈ (listed termId (postingLists (pending.flatMap (frameTuples lookup)))).flatMap
        PostingList.postings ↔ Indexes lookup pending termId row := by
  rw [mem_postingLists_rows]
  constructor
  · rintro ⟨flat, member, rfl, rfl⟩
    obtain ⟨entry, inside, held⟩ := List.mem_flatMap.mp member
    obtain ⟨count, counted, known, same⟩ := mem_frameTuples.mp held
    refine ⟨entry, inside, count, counted, known, ?_⟩
    rw [same]
    rfl
  · rintro ⟨entry, inside, count, counted, known, rfl⟩
    refine ⟨⟨termId, entry.1, entry.2.collectionId, count.2⟩, ?_, rfl, rfl⟩
    exact List.mem_flatMap.mpr ⟨entry, inside, mem_frameTuples.mpr ⟨count, counted, known, rfl⟩⟩

theorem tuples_distinct {lookup : Bytes → Option TermId} {pending : PendingFrames}
    (wellFormed : WellFormed pending)
    (injective : ∀ first second termId, lookup first = some termId →
      lookup second = some termId → first = second) :
    (pending.flatMap (frameTuples lookup)).Pairwise fun first second => ¬SamePlace first second := by
  rw [List.pairwise_flatMap]
  constructor
  · intro entry member
    rw [frameTuples, List.pairwise_filterMap]
    refine (wellFormed.counts entry member).imp fun {left right} before first found second alsoFound => ?_
    obtain ⟨termId, known, rfl⟩ := Option.map_eq_some_iff.mp found
    obtain ⟨other, alsoKnown, rfl⟩ := Option.map_eq_some_iff.mp alsoFound
    rintro ⟨sameTerm, -⟩
    simp only at sameTerm
    have bytes := injective _ _ _ known (sameTerm ▸ alsoKnown)
    exact absurd (congrArg bytesRank bytes) (ne_of_lt before)
  · refine wellFormed.frames.imp fun {left right} before first inLeft second inRight => ?_
    obtain ⟨_, _, _, sameFirst⟩ := mem_frameTuples.mp inLeft
    obtain ⟨_, _, _, sameSecond⟩ := mem_frameTuples.mp inRight
    rintro ⟨-, sameFrame⟩
    rw [sameFirst, sameSecond] at sameFrame
    simp only at sameFrame
    exact absurd (congrArg frameRank sameFrame) (Nat.ne_of_lt before)

/-! ### The flush as a whole -/

/-- What a flush of `pending` turns the state `before` into, and what it writes. -/
structure Flushed (before after : TextSpaceState) (pairs : List (Bytes × TermId))
    (pending : PendingFrames) (out : FlushOutput) (lists : List PostingList) : Prop where
  segment : SegmentLists lists
  carries : Carries out.postingsSegment lists
  terms : Terms after (pairs ++ out.termDictSegment.map fun entry => (entry.termBytes, entry.termId))
  tracks : ∀ segs rest, Tracks before segs rest → Tracks after segs (rest ++ lists)
  rows : ∀ termId row, row ∈ (listed termId lists).flatMap PostingList.postings ↔
    Indexes after.lookupTerm pending termId row
  extended : ∀ bytes termId, before.lookupTerm bytes = some termId →
    after.lookupTerm bytes = some termId
  assigned : ∀ token ∈ pendingTokens pending, after.lookupTerm token ≠ none

theorem Tracks.congr {first second : TextSpaceState} {segs : List PostingsSegmentDirectory}
    {rest : List PostingList} (tracks : Tracks first segs rest)
    (segments : second.postingsSegments = first.postingsSegments)
    (index : second.singleSegmentDirIndex = first.singleSegmentDirIndex)
    (locator : second.postingsLocator = first.postingsLocator)
    (df : second.dfByTerm = first.dfByTerm)
    (postings : second.postingsByTerm = first.postingsByTerm) : Tracks second segs rest where
  segments := segments.trans tracks.segments
  index := index.trans tracks.index
  locator := locator.trans tracks.locator
  df termId := by rw [df, tracks.df]
  postings termId := by rw [postings, tracks.postings]
  ascending := by rw [postings]; exact tracks.ascending

theorem docStats_same (entries : List DocStatsEntry) (state : TextSpaceState) :
    ∃ docStats, entries.foldl recordDocStats state = { state with docStats := docStats } := by
  induction entries generalizing state with
  | nil => exact ⟨state.docStats, rfl⟩
  | cons entry entries ih =>
      obtain ⟨docStats, same⟩ := ih (recordDocStats state entry)
      exact ⟨docStats, same⟩

theorem applyAll_terms (lists : List PostingList) (state : TextSpaceState) :
    (lists.foldl applyPostingList state).sortedTerms = state.sortedTerms ∧
      (lists.foldl applyPostingList state).termIdByBytes = state.termIdByBytes ∧
      (lists.foldl applyPostingList state).nextTermId = state.nextTermId := by
  induction lists generalizing state with
  | nil => exact ⟨rfl, rfl, rfl⟩
  | cons list lists ih => exact ih (applyPostingList state list)

theorem Terms.congr {first second : TextSpaceState} {pairs : List (Bytes × TermId)}
    (terms : Terms first pairs) (sorted : second.sortedTerms = first.sortedTerms)
    (written : second.termIdByBytes = first.termIdByBytes)
    (next : second.nextTermId = first.nextTermId) : Terms second pairs where
  bytesDistinct := terms.bytesDistinct
  idsDistinct := terms.idsDistinct
  known bytes termId := by
    rw [← terms.known, TextSpaceState.lookupTerm, TextSpaceState.lookupTerm, sorted, written]
  below pair member := by
    rw [next]
    exact terms.below pair member

/-- Each new term is recorded in the dictionary segment, with its id. -/
theorem termDict_perm {newTerms : List (TermId × Bytes)} {lists : List PostingList}
    (idsDistinct : (newTerms.map Prod.fst).Nodup)
    (listsDistinct : lists.Pairwise fun first second => first.termId ≠ second.termId)
    (used : ∀ entry ∈ newTerms, ∃ list ∈ lists, list.termId = entry.1) :
    (newTerms.map Prod.swap).Perm
      ((lists.filterMap (termDictRecord newTerms)).map fun entry =>
        (entry.termBytes, entry.termId)) := by
  have recorded : (lists.filterMap (termDictRecord newTerms)).map (fun entry =>
      (entry.termBytes, entry.termId)) = (lists.filterMap fun list =>
        newTerms.find? fun entry => entry.1 = list.termId).map Prod.swap := by
    rw [List.map_filterMap, List.map_filterMap]
    refine List.filterMap_congr fun list _ => ?_
    cases found : newTerms.find? fun entry => entry.1 = list.termId with
    | none => simp [termDictRecord, found]
    | some entry =>
        have same : entry.1 = list.termId := by simpa using List.find?_some found
        simp [termDictRecord, found, Prod.swap, same]
  rw [recorded]
  refine List.Perm.map _ ?_
  have termsNodup : newTerms.Nodup := List.Nodup.of_map _ idsDistinct
  refine (List.perm_ext_iff_of_nodup termsNodup ?_).mpr fun entry => ?_
  · rw [List.Nodup, List.pairwise_filterMap]
    refine listsDistinct.imp fun {first second} apart left found right alsoFound same => apart ?_
    have leftId : left.1 = first.termId := by simpa using List.find?_some found
    have rightId : right.1 = second.termId := by simpa using List.find?_some alsoFound
    rw [← leftId, ← rightId, same]
  · rw [List.mem_filterMap]
    constructor
    · intro member
      obtain ⟨list, inside, same⟩ := used entry member
      refine ⟨list, inside, ?_⟩
      cases found : newTerms.find? fun entry => entry.1 = list.termId with
      | none =>
          have absent := List.find?_eq_none.mp found entry member
          simp [same] at absent
      | some other =>
          have id : other.1 = list.termId := by simpa using List.find?_some found
          exact congrArg some (List.inj_on_of_nodup_map idsDistinct
            (List.mem_of_find?_eq_some found) member (id.trans same))
    · rintro ⟨list, -, found⟩
      exact List.mem_of_find?_eq_some found

theorem buildFlushOutput_spec {pending : PendingFrames} {before after : TextSpaceState}
    {pairs : List (Bytes × TermId)} {out : FlushOutput} (terms : Terms before pairs)
    (wellFormed : WellFormed pending)
    (built : buildFlushOutput pending before = (after, .ok out)) :
    ∃ lists, Flushed before after pairs pending out lists := by
  obtain ⟨tokensDistinct, tokensNew⟩ := newTermBytes_spec before (pendingTokens pending)
  rcases assignedOk : assignTermIds before (newTermBytes before (pendingTokens pending)) with
    ⟨assigned, newTerms | error | _⟩
  rotate_left
  · simp [buildFlushOutput, assignedOk] at built
  · simp [buildFlushOutput, assignedOk] at built
  obtain ⟨laterTerms, tokens, known, next, sameState⟩ := assignTermIds_spec terms tokensDistinct
    (fun token member => ((tokensNew token).mp member).2) assignedOk
  simp only [buildFlushOutput, assignedOk] at built
  have extended : ∀ bytes termId, before.lookupTerm bytes = some termId →
      assigned.lookupTerm bytes = some termId := fun bytes termId found =>
    (laterTerms.known bytes termId).mpr
      (List.mem_append_left _ ((terms.known bytes termId).mp found))
  have found : ∀ token ∈ pendingTokens pending, assigned.lookupTerm token ≠ none := by
    intro token member
    cases old : before.lookupTerm token with
    | some termId => simp [extended token termId old]
    | none =>
        have new : token ∈ newTerms.map Prod.snd := by
          rw [tokens]
          exact (tokensNew token).mpr ⟨member, old⟩
        obtain ⟨entry, inside, rfl⟩ := List.mem_map.mp new
        have assignedId := (laterTerms.known entry.2 entry.1).mpr
          (List.mem_append_right _ (List.mem_map.mpr ⟨entry, inside, rfl⟩))
        simp [assignedId]
  simp only [flattenPending_ok pending found, Prod.mk.injEq, Outcome.bind_eq_ok,
    Outcome.pure_eq, Outcome.ok.injEq] at built
  obtain ⟨sameAfter, postings, encoded, rfl⟩ := built
  obtain ⟨docStats, withStats⟩ := docStats_same
    (pending.map fun entry => docStatsRecord entry.1 entry.2)
    ((postingLists (pending.flatMap (frameTuples assigned.lookupTerm))).foldl applyPostingList
      assigned)
  have afterEq := sameAfter.symm.trans withStats
  have distinct := tuples_distinct wellFormed fun first second termId left right =>
    laterTerms.injective left right
  have segment := postingLists_segment distinct
  obtain ⟨sorted, written, nextId⟩ := applyAll_terms
    (postingLists (pending.flatMap (frameTuples assigned.lookupTerm))) assigned
  have lookups : after.lookupTerm = assigned.lookupTerm := by
    funext bytes
    rw [afterEq, TextSpaceState.lookupTerm, TextSpaceState.lookupTerm, sorted, written]
  have idsDistinct : (newTerms.map Prod.fst).Nodup := by
    have ids := laterTerms.idsDistinct
    rw [List.map_append, List.nodup_append] at ids
    rw [List.map_map] at ids
    exact ids.2.1
  have used : ∀ entry ∈ newTerms, ∃ list ∈
      postingLists (pending.flatMap (frameTuples assigned.lookupTerm)), list.termId = entry.1 := by
    intro entry member
    have token : entry.2 ∈ newTermBytes before (pendingTokens pending) := by
      rw [← tokens]
      exact List.mem_map_of_mem member
    obtain ⟨frame, inside, held⟩ := List.mem_flatMap.mp ((tokensNew entry.2).mp token).1
    obtain ⟨count, counted, same⟩ := List.mem_map.mp held
    have assignedId := (laterTerms.known entry.2 entry.1).mpr
      (List.mem_append_right _ (List.mem_map.mpr ⟨entry, member, rfl⟩))
    have row := (tuples_rows assigned.lookupTerm pending entry.1 _).mpr
      ⟨frame, inside, count, counted, same ▸ assignedId, rfl⟩
    obtain ⟨list, hit, -⟩ := List.mem_flatMap.mp row
    exact ⟨list, (mem_listed.mp hit).1, (mem_listed.mp hit).2⟩
  refine ⟨_, segment, encodePostingsSegment_carries encoded, ?_, fun segs rest tracks => ?_,
    fun termId row => ?_, fun bytes termId old => ?_, fun token member => ?_⟩
  · have all := laterTerms.perm (List.Perm.append_left pairs
      (termDict_perm idsDistinct segment.distinct used))
    refine all.congr ?_ ?_ ?_
    · rw [afterEq]
      exact sorted
    · rw [afterEq]
      exact written
    · rw [afterEq]
      exact nextId
  · have start : Tracks assigned segs rest := by
      rw [sameState]
      exact tracks.congr rfl rfl rfl rfl rfl
    rw [afterEq]
    exact (start.applyAll _).congr rfl rfl rfl rfl rfl
  · rw [lookups]
    exact tuples_rows assigned.lookupTerm pending termId row
  · rw [lookups]
    exact extended bytes termId old
  · rw [lookups]
    exact found token member

end Valise
