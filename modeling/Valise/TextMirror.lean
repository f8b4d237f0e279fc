import Valise.TextRuns

/-!
When the live text state answers as the state an open would build from the segments on disk.
-/

namespace Valise

open ByteLists Chains Outcomes Runs SortedTables

def TextSpaceState.frameFreqs (state : TextSpaceState) (termId : TermId) :
    List (FrameId × UInt32) :=
  ((state.lookupPostings termId).map fun list =>
    list.rows.map fun row => (row.frameId, row.termFreq)).getD []

structure Alike (live rebuilt : TextSpaceState) : Prop where
  terms : ∀ bytes, live.lookupTerm bytes = rebuilt.lookupTerm bytes
  dfs : ∀ termId, live.dfFor termId = rebuilt.dfFor termId
  lists : ∀ termId posting, posting ∈ live.frameFreqs termId ↔ posting ∈ rebuilt.frameFreqs termId
  corpus : live.iterAllPostings.Perm rebuilt.iterAllPostings

def MirrorsDisk (handle : TextHandle) : Prop :=
  ∃ rebuilt, handle.rebuilt = some rebuilt ∧ Alike handle.state rebuilt

/-- What keeps the live state in step with the disk when a commit flushes postings: the commit
goes through, no postings were loaded when the file was opened, and no frame is flushed again with
a term that an earlier commit flushed for it. -/
structure CommitMirrored (handle : TextHandle) (fault : Option CommitFault) : Prop where
  succeeds : handle.FlushesPostings →
    fault = some .beforeFlush ∨ (handle.commit fault).2 = .ok ()
  unloaded : handle.FlushesPostings → fault ≠ some .beforeFlush →
    ∀ seg ∈ handle.state.postingsSegments, seg.entries = []
  fresh : fault ≠ some .beforeFlush → ∀ batch ∈ handle.flushed, ∀ old ∈ batch,
    ∀ new ∈ handle.pending, old.1 = new.1 →
      ∀ bytes ∈ old.2.termCounts.map Prod.fst, bytes ∉ new.2.termCounts.map Prod.fst

inductive MirroredStep : TextHandle → TextHandle → Prop where
  | index {handle} (frameId collectionId tokens) :
      MirroredStep handle (handle.index frameId collectionId tokens)
  | commit {handle} (fault) :
      CommitMirrored handle fault → MirroredStep handle (handle.commit fault).1
  | reopen {handle state} :
      handle.rebuilt = some state → MirroredStep handle (handle.reopened state)

/-- All lists are loaded or all are flushed, and no frame is in two lists of a term. -/
structure OneSource (handle : TextHandle) (segs : List PostingsSegmentDirectory)
    (listss : List (List PostingList)) (loaded : Nat) : Prop where
  mirrors : Mirrors handle segs listss loaded
  oneSource : (listss.take loaded).flatten = [] ∨ (listss.drop loaded).flatten = []
  distinct : ∀ termId, DistinctFrames termId listss.flatten

def InStep (handle : TextHandle) : Prop := ∃ segs listss loaded, OneSource handle segs listss loaded

theorem distinctFrames_append {termId : TermId} {first second : List PostingList}
    (left : DistinctFrames termId first) (right : DistinctFrames termId second)
    (apart : ∀ row ∈ (listed termId first).flatMap PostingList.postings,
      ∀ other ∈ (listed termId second).flatMap PostingList.postings, row.frameId ≠ other.frameId) :
    DistinctFrames termId (first ++ second) := by
  rw [DistinctFrames, listed_append, List.flatMap_append, List.map_append, List.nodup_append]
  refine ⟨left, right, fun rank inFirst other inSecond same => ?_⟩
  obtain ⟨row, held, rfl⟩ := List.mem_map.mp inFirst
  obtain ⟨another, alsoHeld, rfl⟩ := List.mem_map.mp inSecond
  exact apart row held another alsoHeld (frameRank_injective same)

theorem SegmentLists.distinctFrames {lists : List PostingList} (segment : SegmentLists lists)
    (termId : TermId) : DistinctFrames termId lists := by
  rw [DistinctFrames]
  cases found : listed termId lists with
  | nil => simp
  | cons list others =>
      obtain ⟨member, rfl⟩ := mem_listed.mp (found ▸ List.mem_cons_self)
      rw [listed_of_distinct segment.distinct member] at found
      obtain rfl := (List.cons.inj found).2
      rw [List.flatMap_cons, List.flatMap_nil, List.append_nil, List.Nodup, List.pairwise_map]
      exact (segment.ascending list member).imp Nat.ne_of_lt

theorem DistinctFrames.of_append {termId : TermId} {first second : List PostingList}
    (distinct : DistinctFrames termId (first ++ second)) : DistinctFrames termId second := by
  rw [DistinctFrames, listed_append, List.flatMap_append, List.map_append] at distinct
  exact (List.nodup_append.mp distinct).2.1

section Invariant

variable {handle : TextHandle} {segs : List PostingsSegmentDirectory}
  {listss : List (List PostingList)} {loaded : Nat}

/-- The live state and the reopened one answer a term as the merge over all its lists on disk. -/
theorem Mirrors.answers (mirrors : Mirrors handle segs listss loaded) {termId : TermId}
    (apart : listed termId (listss.take loaded).flatten = [] ∨
      listed termId (listss.drop loaded).flatten = [])
    (distinct : DistinctFrames termId listss.flatten) :
    handle.state.lookupPostings termId = mergedList termId listss.flatten ∧
      handle.state.dfFor termId = totalDf (listed termId listss.flatten) := by
  have split : (listss.take loaded).flatten ++ (listss.drop loaded).flatten = listss.flatten := by
    rw [← List.flatten_append, List.take_append_drop]
  have whole : ∀ list ∈ (listss.drop loaded).flatten, ∃ lists, SegmentLists lists ∧ list ∈ lists := by
    intro list member
    obtain ⟨lists, segment, inside⟩ := List.mem_flatten.mp member
    exact ⟨lists, mirrors.segments lists (List.mem_of_mem_drop segment), inside⟩
  have live := mirrors.tracks.answers (List.forall₂_take loaded mirrors.carried)
    (fun lists member => mirrors.segments lists (List.mem_of_mem_take member))
    (fun list member => by
      obtain ⟨lists, segment, inside⟩ := whole list member
      exact segment.nonempty list inside)
    (fun list member => by
      obtain ⟨lists, segment, inside⟩ := whole list member
      exact segment.counted list inside)
    apart (DistinctFrames.of_append (split ▸ distinct))
  rwa [split] at live

theorem OneSource.alike (sound : OneSource handle segs listss loaded) : MirrorsDisk handle := by
  obtain ⟨mirrors, oneSource, distinct⟩ := sound
  obtain ⟨state, rebuilt, tracks, lookups, reopened⟩ := mirrors.rebuilt
  have live := fun termId => @Mirrors.answers _ _ _ _ mirrors termId
    (oneSource.imp (fun unloaded => by simp [unloaded, listed]) fun unflushed => by
      simp [unflushed, listed]) (distinct termId)
  have opened := fun termId => @Mirrors.answers _ _ _ _ reopened termId
    (.inr (by simp [listed])) (distinct termId)
  have same : ∀ termId, handle.state.lookupPostings termId = state.lookupPostings termId :=
    fun termId => (live termId).1.trans (opened termId).1.symm
  refine ⟨state, rebuilt, fun bytes => by rw [lookups], fun termId => ?_, fun termId posting => ?_, ?_⟩
  · exact (live termId).2.trans (opened termId).2.symm
  · rw [TextSpaceState.frameFreqs, TextSpaceState.frameFreqs, same]
  · have distinctLive := List.Nodup.of_map _ (iterAllPostings_nodup mirrors.tracks)
    have distinctOpened := List.Nodup.of_map _ (iterAllPostings_nodup tracks)
    refine (List.perm_ext_iff_of_nodup distinctLive distinctOpened).mpr fun item => ?_
    rw [mem_iterAllPostings mirrors.tracks (List.forall₂_take loaded mirrors.carried) oneSource,
      mem_iterAllPostings tracks mirrors.carried (.inr rfl), same]

/-- The lists of a batch share no frame with the lists of the same term on disk, if no frame of
the batch brings back a term it was flushed with. -/
theorem Mirrors.distinct_append {after : TextHandle} {seg : PostingsSegmentDirectory}
    {lists : List PostingList} (mirrors : Mirrors handle segs listss loaded)
    (later : Mirrors after (segs ++ [seg]) (listss ++ [lists]) loaded)
    (rows : ∀ termId row, row ∈ (listed termId lists).flatMap PostingList.postings ↔
      Indexes after.state.lookupTerm handle.pending termId row)
    (extended : ∀ bytes termId, handle.state.lookupTerm bytes = some termId →
      after.state.lookupTerm bytes = some termId)
    (fresh : ∀ batch ∈ handle.flushed, ∀ old ∈ batch, ∀ new ∈ handle.pending, old.1 = new.1 →
      ∀ bytes ∈ old.2.termCounts.map Prod.fst, bytes ∉ new.2.termCounts.map Prod.fst)
    {termId : TermId} (distinct : DistinctFrames termId listss.flatten) :
    DistinctFrames termId (listss ++ [lists]).flatten := by
  have segment := later.segments lists (List.mem_append_right _ (List.mem_singleton_self _))
  rw [List.flatten_append]
  refine distinctFrames_append distinct ?_ fun row old other new same => ?_
  · simpa using segment.distinctFrames termId
  · obtain ⟨batch, held, entry, inside, count, counted, known, rfl⟩ :=
      (mirrors.rows termId row).mp old
    obtain ⟨entry', inside', count', counted', known', rfl⟩ :=
      (rows termId other).mp (by simpa using new)
    obtain ⟨_, _, _, terms⟩ := later.terms
    have bytes : count.1 = count'.1 := terms.injective (extended _ _ known) known'
    exact fresh batch held entry inside entry' inside' same count.1
      (List.mem_map_of_mem counted) (bytes ▸ List.mem_map_of_mem counted')

theorem Mirrors.unloaded (mirrors : Mirrors handle segs listss loaded)
    (empty : ∀ seg ∈ handle.state.postingsSegments, seg.entries = []) :
    (listss.take loaded).flatten = [] := by
  rw [List.flatten_eq_nil_iff]
  intro lists member
  obtain ⟨seg, inside, carries⟩ :=
    exists_related (List.forall₂_take loaded mirrors.carried).flip member
  have entries := empty seg (mirrors.tracks.segments ▸ inside)
  have length := carries.length_eq
  rw [entries] at length
  exact List.length_eq_zero_iff.mp length.symm

/-- A list of the flushed segment comes from a pending frame with a term. -/
theorem flushesPostings_of_list {lookup : Bytes → Option TermId} {lists : List PostingList}
    (rows : ∀ termId row, row ∈ (listed termId lists).flatMap PostingList.postings ↔
      Indexes lookup handle.pending termId row)
    (segment : SegmentLists lists) (some_list : lists ≠ []) : handle.FlushesPostings := by
  obtain ⟨list, member⟩ := List.exists_mem_of_ne_nil _ some_list
  obtain ⟨row, inside⟩ := List.exists_mem_of_ne_nil _ (segment.nonempty list member)
  obtain ⟨entry, held, count, counted, -, -⟩ := (rows list.termId row).mp
    (List.mem_flatMap.mpr ⟨list, mem_listed.mpr ⟨member, rfl⟩, inside⟩)
  exact ⟨entry, held, List.ne_nil_of_mem counted⟩

theorem OneSource.commit (sound : OneSource handle segs listss loaded)
    (fault : Option CommitFault) (guard : CommitMirrored handle fault) :
    InStep (handle.commit fault).1 := by
  obtain ⟨mirrors, oneSource, distinct⟩ := sound
  rcases mirrors.commit fault guard.succeeds with
    ⟨later, -, -⟩ | ⟨seg, lists, reached, later, -, rows, extended⟩
  · exact ⟨segs, listss, loaded, later, oneSource, distinct⟩
  have segment : SegmentLists lists :=
    later.segments lists (List.mem_append_right _ (List.mem_singleton_self _))
  refine ⟨_, _, loaded, later, ?_, fun termId =>
    mirrors.distinct_append later rows extended (guard.fresh reached) (distinct termId)⟩
  rw [List.take_append_of_le_length mirrors.loadedFit,
    List.drop_append_of_le_length mirrors.loadedFit, List.flatten_append]
  by_cases none_new : lists = []
  · simpa [none_new] using oneSource
  · have postings := flushesPostings_of_list rows segment none_new
    exact .inl (mirrors.unloaded (guard.unloaded postings reached))

theorem InStep.step {after : TextHandle} (sound : InStep handle)
    (taken : MirroredStep handle after) : InStep after := by
  obtain ⟨segs, listss, loaded, oneSource⟩ := sound
  cases taken with
  | index frameId collectionId tokens =>
      exact ⟨segs, listss, loaded, oneSource.mirrors.index frameId collectionId tokens,
        oneSource.oneSource, oneSource.distinct⟩
  | commit fault guard => exact oneSource.commit fault guard
  | reopen rebuilt =>
      obtain ⟨state, found, -, -, mirrors⟩ := oneSource.mirrors.rebuilt
      obtain rfl := Option.some.inj (found.symm.trans rebuilt)
      exact ⟨segs, listss, listss.length, mirrors, .inr (by simp), oneSource.distinct⟩

end Invariant

theorem inStep_created : InStep {} :=
  ⟨[], [], 0, mirrors_created, .inl rfl, fun termId => by simp [DistinctFrames, listed]⟩

/-- Along every run of mirrored steps the live state answers as the disk does. -/
theorem mirroredRun_mirrorsDisk (handle : TextHandle)
    (run : Reachable (· = {}) MirroredStep handle) : MirrorsDisk handle := by
  have sound : InStep handle := run.invariant (fun state created => created ▸ inStep_created)
    fun _ _ sound taken => sound.step taken
  obtain ⟨segs, listss, loaded, oneSource⟩ := sound
  exact oneSource.alike

/-! ### A run in step with the disk, and one that is not -/

def firstBatch : TextHandle := (({} : TextHandle).index 1 1 [[97], [98], [97]]).index 2 1 [[98]]

def firstCommitted : TextHandle := (firstBatch.commit none).1

theorem firstBatch_mirrored : CommitMirrored firstBatch none where
  succeeds _ := .inr (by decide +kernel)
  unloaded _ _ := by decide +kernel
  fresh _ := by decide +kernel

theorem firstCommitted_run : Reachable (· = {}) MirroredStep firstCommitted :=
  .step (.step (.step (.start rfl) (.index 1 1 [[97], [98], [97]])) (.index 2 1 [[98]]))
    (.commit none firstBatch_mirrored)

def secondBatch : TextHandle := firstCommitted.index 3 1 [[97], [99]]

theorem secondBatch_mirrored : CommitMirrored secondBatch none where
  succeeds _ := .inr (by decide +kernel)
  unloaded _ _ := by decide +kernel
  fresh _ := by decide +kernel

theorem firstCommitted_opens : firstCommitted.rebuilt.isSome = true := by decide +kernel

/-- Two commits of one handle, the second with a known term. -/
theorem secondCommit_mirrorsDisk : MirrorsDisk (secondBatch.commit none).1 :=
  mirroredRun_mirrorsDisk (secondBatch.commit none).1
    (.step (.step firstCommitted_run (.index 3 1 [[97], [99]])) (.commit none secondBatch_mirrored))

def reopenedBatch : TextHandle :=
  (firstCommitted.reopened (firstCommitted.rebuilt.get firstCommitted_opens)).index 3 1 [[97]]

theorem reopenedBatch_run : Reachable (· = {}) TextStep reopenedBatch := by
  have committed : Reachable (· = {}) TextStep firstCommitted :=
    .step (.step (.step (.start rfl) (.index 1 1 [[97], [98], [97]])) (.index 2 1 [[98]]))
      (.commit none)
  exact .step (.step committed (.reopen (Option.some_get firstCommitted_opens).symm))
    (.index 3 1 [[97]])

/-- After a reopen the live state misses the frame that the next commit adds to a known term. -/
theorem mirrorsDisk_fails : ¬∀ handle, Reachable (· = {}) TextStep handle →
    (handle.commit none).2 = .ok () → MirrorsDisk (handle.commit none).1 := by
  intro claim
  obtain ⟨rebuilt, found, alike⟩ := claim reopenedBatch reopenedBatch_run (by decide +kernel)
  have onDisk : ((reopenedBatch.commit none).1.rebuilt.map fun state =>
      decide ((3, 1) ∈ state.frameFreqs 0)) = some true := by decide +kernel
  have live : (3, 1) ∉ (reopenedBatch.commit none).1.state.frameFreqs 0 := by decide +kernel
  rw [found] at onDisk
  exact live ((alike.lists 0 (3, 1)).mpr (by simpa using onDisk))

end Valise
