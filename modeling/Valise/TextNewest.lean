import Valise.TextMirror

/-!
When re-indexing is newest-wins: every posting list has each frame once, under the frequency of
its latest indexing, and the document frequency counts exactly those frames.
-/

namespace Valise

open ByteLists Chains Outcomes Runs SortedTables

/-- The frame's index in the latest batch that has it; batches are oldest first. -/
def latestIndex : List PendingFrames → FrameId → Option PendingFrameIndex
  | [], _ => none
  | batch :: later, frameId => (latestIndex later frameId).or (valueAt frameRank frameId batch)

namespace TextSpaceState

end TextSpaceState

def indexedWith (bytes : Bytes) (entry : FrameId × PendingFrameIndex) : Bool :=
  bytes ∈ entry.2.termCounts.map Prod.fst

/-- What keeps every list newest-wins when a commit reaches the flush: it goes through if it has
postings, no frame is flushed again after it was flushed with a term, no pending term has postings
in the loaded segments, and a term's frames can be counted in 32 bits. -/
structure CommitNewest (handle : TextHandle) (fault : Option CommitFault) : Prop where
  succeeds : handle.FlushesPostings →
    fault = some .beforeFlush ∨ (handle.commit fault).2 = .ok ()
  settled : fault ≠ some .beforeFlush → ∀ batch ∈ handle.flushed, ∀ old ∈ batch,
    ∀ new ∈ handle.pending, old.1 = new.1 → old.2.termCounts = []
  unloaded : fault ≠ some .beforeFlush → ∀ token ∈ pendingTokens handle.pending,
    ∀ seg ∈ handle.state.postingsSegments, ∀ entry ∈ seg.entries,
      handle.state.lookupTerm token ≠ some entry.termId
  few : fault ≠ some .beforeFlush → ∀ token ∈ pendingTokens handle.pending,
    (handle.flushed.flatten ++ handle.pending).countP (indexedWith token) < 2 ^ 32

inductive NewestStep : TextHandle → TextHandle → Prop where
  | index {handle} (frameId collectionId tokens) :
      NewestStep handle (handle.index frameId collectionId tokens)
  | commit {handle} (fault) : CommitNewest handle fault → NewestStep handle (handle.commit fault).1
  | reopen {handle state} :
      handle.rebuilt = some state → NewestStep handle (handle.reopened state)

/-- No term is both loaded and flushed since, and no frame is flushed again after it had terms. -/
structure Settled (handle : TextHandle) (segs : List PostingsSegmentDirectory)
    (listss : List (List PostingList)) (loaded : Nat) : Prop where
  mirrors : Mirrors handle segs listss loaded
  apart : ∀ termId, listed termId (listss.take loaded).flatten = [] ∨
    listed termId (listss.drop loaded).flatten = []
  distinct : ∀ termId, DistinctFrames termId listss.flatten
  batches : ∀ batch ∈ handle.flushed, WellFormed batch
  once : handle.flushed.Pairwise fun older newer => ∀ old ∈ older, ∀ new ∈ newer,
    old.1 = new.1 → old.2.termCounts = []
  few : ∀ token, handle.flushed.flatten.countP (indexedWith token) < 2 ^ 32

def IsSettled (handle : TextHandle) : Prop := ∃ segs listss loaded, Settled handle segs listss loaded

theorem mem_of_latestIndex {flushed : List PendingFrames}
    (batches : ∀ batch ∈ flushed, WellFormed batch) {frameId : FrameId} {index : PendingFrameIndex}
    (latest : latestIndex flushed frameId = some index) :
    ∃ batch ∈ flushed, (frameId, index) ∈ batch := by
  induction flushed with
  | nil => simp [latestIndex] at latest
  | cons batch later ih =>
      rw [latestIndex] at latest
      cases found : latestIndex later frameId with
      | some newer =>
          rw [found, Option.some_or] at latest
          obtain ⟨other, member, inside⟩ :=
            ih (fun other member => batches other (List.mem_cons_of_mem _ member)) (found.trans latest)
          exact ⟨other, List.mem_cons_of_mem _ member, inside⟩
      | none =>
          rw [found, Option.none_or] at latest
          have wellFormed := batches batch List.mem_cons_self
          exact ⟨batch, List.mem_cons_self,
            (valueAt_eq_some frameRank frameRank_injective wellFormed.frames).mp latest⟩

/-- A frame that was flushed with a term is never flushed again, so this is its latest index. -/
theorem latestIndex_of_mem {flushed : List PendingFrames}
    (batches : ∀ batch ∈ flushed, WellFormed batch)
    (once : flushed.Pairwise fun older newer => ∀ old ∈ older, ∀ new ∈ newer,
      old.1 = new.1 → old.2.termCounts = [])
    {batch : PendingFrames} {entry : FrameId × PendingFrameIndex} (held : batch ∈ flushed)
    (inside : entry ∈ batch) (some_term : entry.2.termCounts ≠ []) :
    latestIndex flushed entry.1 = some entry.2 := by
  induction flushed with
  | nil => simp at held
  | cons head later ih =>
      obtain ⟨settled, rest⟩ := List.pairwise_cons.mp once
      have laterBatches : ∀ batch ∈ later, WellFormed batch := fun other member =>
        batches other (List.mem_cons_of_mem _ member)
      rw [latestIndex]
      rcases List.mem_cons.mp held with same | beyond
      · subst same
        have never : latestIndex later entry.1 = none := by
          cases found : latestIndex later entry.1 with
          | none => rfl
          | some newer =>
              obtain ⟨other, member, again⟩ := mem_of_latestIndex laterBatches found
              exact absurd (settled other member entry inside _ again rfl) some_term
        have wellFormed := batches batch List.mem_cons_self
        rw [never, Option.none_or]
        exact (valueAt_eq_some frameRank frameRank_injective wellFormed.frames).mpr inside
      · rw [ih laterBatches rest beyond, Option.some_or]

section Invariant

variable {handle : TextHandle} {segs : List PostingsSegmentDirectory}
  {listss : List (List PostingList)} {loaded : Nat}

/-- A term's postings on disk are the counts of the latest indexes. -/
theorem Settled.rows (settled : Settled handle segs listss loaded) {bytes : Bytes} {termId : TermId}
    (known : handle.state.lookupTerm bytes = some termId) (frameId : FrameId) (termFreq : UInt32) :
    (frameId, termFreq) ∈ ((listed termId listss.flatten).flatMap PostingList.postings).map
        (fun row => (row.frameId, row.termFreq)) ↔
      ∃ index, latestIndex handle.flushed frameId = some index ∧
        valueAt bytesRank bytes index.termCounts = some termFreq := by
  obtain ⟨_, _, _, terms⟩ := settled.mirrors.terms
  constructor
  · intro member
    obtain ⟨row, inside, same⟩ := List.mem_map.mp member
    obtain ⟨rfl, rfl⟩ := Prod.mk.inj same
    obtain ⟨batch, held, entry, found, count, counted, sameTerm, rfl⟩ :=
      (settled.mirrors.rows termId row).mp inside
    have latest := latestIndex_of_mem settled.batches settled.once held found
      (List.ne_nil_of_mem counted)
    have bytesSame := terms.injective sameTerm known
    have wellFormed := (settled.batches batch held).counts entry found
    refine ⟨entry.2, latest, ?_⟩
    exact (valueAt_eq_some bytesRank bytesRank_injective wellFormed).mpr (bytesSame ▸ counted)
  · rintro ⟨index, latest, counted⟩
    obtain ⟨batch, held, inside⟩ := mem_of_latestIndex settled.batches latest
    have wellFormed := (settled.batches batch held).counts _ inside
    have member := (valueAt_eq_some bytesRank bytesRank_injective wellFormed).mp counted
    exact List.mem_map.mpr ⟨⟨frameId, index.collectionId, 1, termFreq⟩,
      (settled.mirrors.rows termId _).mpr ⟨batch, held, _, inside, _, member, known, rfl⟩, rfl⟩

/-- A commit that leaves the lists on disk alone keeps everything settled. -/
theorem Settled.kept {after : TextHandle} (settled : Settled handle segs listss loaded)
    (later : Mirrors after segs listss loaded) (same : after.flushed = handle.flushed) :
    Settled after segs listss loaded where
  mirrors := later
  apart := settled.apart
  distinct := settled.distinct
  batches := by rw [same]; exact settled.batches
  once := by rw [same]; exact settled.once
  few := by rw [same]; exact settled.few

/-- A term of the pending batch is in no loaded list, if no loaded entry is of a pending term. -/
theorem Settled.unloaded_new {after : TextHandle} {seg : PostingsSegmentDirectory}
    {lists : List PostingList} (settled : Settled handle segs listss loaded)
    (later : Mirrors after (segs ++ [seg]) (listss ++ [lists]) loaded)
    (rows : ∀ termId row, row ∈ (listed termId lists).flatMap PostingList.postings ↔
      Indexes after.state.lookupTerm handle.pending termId row)
    (extended : ∀ bytes termId, handle.state.lookupTerm bytes = some termId →
      after.state.lookupTerm bytes = some termId)
    (unloaded : ∀ token ∈ pendingTokens handle.pending, ∀ seg ∈ handle.state.postingsSegments,
      ∀ entry ∈ seg.entries, handle.state.lookupTerm token ≠ some entry.termId)
    {termId : TermId} (new : listed termId lists ≠ []) :
    listed termId (listss.take loaded).flatten = [] := by
  have mirrors := settled.mirrors
  obtain ⟨_, _, _, terms⟩ := later.terms
  obtain ⟨list, member⟩ := List.exists_mem_of_ne_nil _ new
  have segment := later.segments lists (List.mem_append_right _ (List.mem_singleton_self _))
  obtain ⟨row, inside⟩ :=
    List.exists_mem_of_ne_nil _ (segment.nonempty list (mem_listed.mp member).1)
  obtain ⟨entry, held, count, counted, known, -⟩ :=
    (rows termId row).mp (List.mem_flatMap.mpr ⟨list, member, inside⟩)
  by_contra some_loaded
  obtain ⟨old, oldMember⟩ := List.exists_mem_of_ne_nil _ some_loaded
  obtain ⟨oldInside, rfl⟩ := mem_listed.mp oldMember
  obtain ⟨oldLists, oldSegment, oldHere⟩ := List.mem_flatten.mp oldInside
  obtain ⟨loadedSeg, segInside, carries⟩ :=
    exists_related (List.forall₂_take loaded mirrors.carried).flip oldSegment
  obtain ⟨dirEntry, dirInside, carried⟩ := exists_related carries.flip oldHere
  have onDisk : oldLists ∈ listss := List.mem_of_mem_take oldSegment
  obtain ⟨oldRow, oldRowInside⟩ :=
    List.exists_mem_of_ne_nil _ ((mirrors.segments oldLists onDisk).nonempty old oldHere)
  obtain ⟨batch, -, oldEntry, -, oldCount, -, oldKnown, -⟩ :=
    (mirrors.rows old.termId oldRow).mp (List.mem_flatMap.mpr ⟨old,
      mem_listed.mpr ⟨List.mem_flatten.mpr ⟨oldLists, onDisk, oldHere⟩, rfl⟩, oldRowInside⟩)
  -- both tokens have the term's id, so they are one token
  have bytes : oldCount.1 = count.1 := terms.injective (extended _ _ oldKnown) known
  refine unloaded count.1 (List.mem_flatMap.mpr ⟨entry, held, List.mem_map_of_mem counted⟩)
    loadedSeg (mirrors.tracks.segments ▸ segInside) dirEntry dirInside ?_
  rw [← bytes, oldKnown, carried.1]

theorem countP_append_few {flushed : List PendingFrames} {pending : PendingFrames}
    (few : ∀ token, flushed.flatten.countP (indexedWith token) < 2 ^ 32)
    (together : ∀ token ∈ pendingTokens pending,
      (flushed.flatten ++ pending).countP (indexedWith token) < 2 ^ 32) (token : Bytes) :
    (flushed ++ [pending]).flatten.countP (indexedWith token) < 2 ^ 32 := by
  have joined : (flushed ++ [pending]).flatten = flushed.flatten ++ pending := by simp
  rw [joined]
  by_cases pendingToken : token ∈ pendingTokens pending
  · exact together token pendingToken
  · have none_pending : pending.countP (indexedWith token) = 0 := by
      rw [List.countP_eq_zero]
      intro entry member found
      simp only [indexedWith, decide_eq_true_eq] at found
      exact pendingToken (List.mem_flatMap.mpr ⟨entry, member, found⟩)
    rw [List.countP_append, none_pending]
    exact few token

theorem Settled.commit (settled : Settled handle segs listss loaded) (fault : Option CommitFault)
    (guard : CommitNewest handle fault) : IsSettled (handle.commit fault).1 := by
  have mirrors := settled.mirrors
  rcases mirrors.commit fault guard.succeeds with
    ⟨later, same, -⟩ | ⟨seg, lists, reached, later, same, rows, extended⟩
  · exact ⟨segs, listss, loaded, settled.kept later same⟩
  refine ⟨segs ++ [seg], listss ++ [lists], loaded, ?_⟩
  exact {
    mirrors := later
    apart := by
      intro termId
      rw [List.take_append_of_le_length mirrors.loadedFit,
        List.drop_append_of_le_length mirrors.loadedFit, List.flatten_append, listed_append]
      by_cases none_new : listed termId lists = []
      · simpa [none_new] using settled.apart termId
      · exact .inl (settled.unloaded_new later rows extended (guard.unloaded reached) none_new)
    distinct := fun termId => mirrors.distinct_append later rows extended
      (fun batch held old inside new pending same bytes member _ => by
        rw [guard.settled reached batch held old inside new pending same] at member
        simp at member) (settled.distinct termId)
    batches := by
      rw [same]
      intro batch member
      rcases List.mem_append.mp member with old | last
      · exact settled.batches batch old
      · rw [List.mem_singleton.mp last]
        exact mirrors.wellFormed
    once := by
      rw [same, List.pairwise_append]
      refine ⟨settled.once, List.pairwise_singleton _ _, fun older held newer last => ?_⟩
      rw [List.mem_singleton.mp last]
      exact guard.settled reached older held
    few := by
      rw [same]
      exact countP_append_few settled.few (guard.few reached) }

theorem IsSettled.step {after : TextHandle} (sound : IsSettled handle)
    (taken : NewestStep handle after) : IsSettled after := by
  obtain ⟨segs, listss, loaded, settled⟩ := sound
  cases taken with
  | index frameId collectionId tokens =>
      exact ⟨segs, listss, loaded,
        settled.kept (settled.mirrors.index frameId collectionId tokens) rfl⟩
  | commit fault guard => exact settled.commit fault guard
  | reopen rebuilt =>
      obtain ⟨state, found, -, -, mirrors⟩ := settled.mirrors.rebuilt
      obtain rfl := Option.some.inj (found.symm.trans rebuilt)
      exact ⟨segs, listss, listss.length, mirrors, fun termId => .inr (by simp [listed]),
        settled.distinct, settled.batches, settled.once, settled.few⟩

end Invariant

end Valise
