import Valise.Library.Runs
import Valise.TextFlushFacts

/-!
Runs of one text space: frames are indexed, commits flush them or fail around the flush, and the
file is closed and reopened.
-/

namespace Valise

open ByteLists Chains Outcomes Runs SortedTables

/-- Where an injected failure stops a commit: before it reaches the text flush, or after the flush
has gone through and before the new roots are published. -/
inductive CommitFault where
  | beforeFlush
  | afterFlush
deriving DecidableEq

/-- The file and its published roots, the live state and the frames pending in it. `flushed` keeps
the batches whose commits succeeded, for the statements only. -/
structure TextHandle where
  file : TextFile := []
  roots : TextRoots := {}
  state : TextSpaceState := {}
  pending : PendingFrames := []
  flushed : List PendingFrames := []

namespace TextHandle

def index (handle : TextHandle) (frameId : FrameId) (collectionId : CollectionId)
    (tokens : List Bytes) : TextHandle :=
  { handle with
    pending := store frameRank frameId (PendingFrameIndex.fromTokens collectionId tokens)
      handle.pending }

def appendFlush (file : TextFile) (roots : TextRoots) (out : FlushOutput) : TextFile × TextRoots :=
  (file ++ [.termDictionary ⟨roots.termDictionaryRoot, out.termDictSegment⟩,
      .postings ⟨roots.postingsRoot, out.postingsSegment⟩,
      .docStats ⟨roots.docStatsRoot, out.docStatsSegment⟩],
    ⟨some file.length, some (file.length + 1), some (file.length + 2)⟩)

/-- The pending batch leaves the map before it is built, and the new roots live in the footer
body that only a successful commit publishes. -/
def commit (handle : TextHandle) (fault : Option CommitFault) : TextHandle × Result Unit :=
  if fault = some .beforeFlush then (handle, .err .io)
  else if handle.pending = [] then (handle, if fault = none then .ok () else .err .io)
  else
    let built := buildFlushOutput handle.pending handle.state
    let handle' := { handle with state := built.1, pending := [] }
    match built.2 with
    | .err error => (handle', .err error)
    | .panic => (handle', .panic)
    | .ok out =>
        let appended := appendFlush handle.file handle.roots out
        if fault = none then
          ({ handle' with
              file := appended.1
              roots := appended.2
              flushed := handle.flushed ++ [handle.pending] }, .ok ())
        else ({ handle' with file := appended.1 }, .err .io)

def rebuilt (handle : TextHandle) : Option TextSpaceState :=
  rebuildTextSpaceState handle.file handle.roots

def reopened (handle : TextHandle) (state : TextSpaceState) : TextHandle :=
  { handle with state := state, pending := [] }

/-- Some pending frame has a term. -/
def FlushesPostings (handle : TextHandle) : Prop :=
  ∃ entry ∈ handle.pending, entry.2.termCounts ≠ []

end TextHandle

inductive TextStep : TextHandle → TextHandle → Prop where
  | index {handle} (frameId collectionId tokens) :
      TextStep handle (handle.index frameId collectionId tokens)
  | commit {handle} (fault) : TextStep handle (handle.commit fault).1
  | reopen {handle state} : handle.rebuilt = some state → TextStep handle (handle.reopened state)

/-- The posting lists on disk, one group a segment, and how the live state holds them: the first
`loaded` segments through the directory, the rest through the write-side maps. -/
structure Mirrors (handle : TextHandle) (segs : List PostingsSegmentDirectory)
    (listss : List (List PostingList)) (loaded : Nat) : Prop where
  terms : ∃ dicts, Holds handle.file.readTermDictionary handle.roots.termDictionaryRoot dicts ∧
    dicts.length ≤ handle.file.length ∧
    Terms handle.state (dicts.flatten.map fun entry => (entry.termBytes, entry.termId))
  postings : Holds handle.file.readPostings handle.roots.postingsRoot segs
  postingsFit : segs.length ≤ handle.file.length
  docStats : ∃ docs, Holds handle.file.readDocStats handle.roots.docStatsRoot docs ∧
    docs.length ≤ handle.file.length
  carried : List.Forall₂ Carries segs listss
  segments : ∀ lists ∈ listss, SegmentLists lists
  loadedFit : loaded ≤ listss.length
  tracks : Tracks handle.state (segs.take loaded) (listss.drop loaded).flatten
  wellFormed : WellFormed handle.pending
  rows : ∀ termId row, row ∈ (listed termId listss.flatten).flatMap PostingList.postings ↔
    ∃ batch ∈ handle.flushed, Indexes handle.state.lookupTerm batch termId row
  assigned : ∀ batch ∈ handle.flushed, ∀ token ∈ pendingTokens batch,
    handle.state.lookupTerm token ≠ none

theorem fromTokens_ascending (collectionId : CollectionId) (tokens : List Bytes) :
    Ascending (fun count => bytesRank count.1)
      (PendingFrameIndex.fromTokens collectionId tokens).termCounts := by
  have grown : ∀ counts : List (Bytes × UInt32),
      Ascending (fun count => bytesRank count.1) counts →
      Ascending (fun count => bytesRank count.1) (tokens.foldl countToken counts) := by
    induction tokens with
    | nil => exact fun _ ascending => ascending
    | cons token tokens ih =>
        exact fun counts ascending => ih _
          (upsert_ascending (fun count : Bytes × UInt32 => bytesRank count.1) ascending _)
  exact grown [] (ascending_nil _)

theorem WellFormed.index {pending : PendingFrames} (wellFormed : WellFormed pending)
    (frameId : FrameId) (collectionId : CollectionId) (tokens : List Bytes) :
    WellFormed (store frameRank frameId (PendingFrameIndex.fromTokens collectionId tokens)
      pending) where
  frames := upsert_ascending (fun entry : FrameId × PendingFrameIndex => frameRank entry.1)
    wellFormed.frames _
  counts entry member := by
    rcases mem_upsert _ member with new | kept
    · rw [new]
      exact fromTokens_ascending collectionId tokens
    · exact wellFormed.counts entry kept

theorem wellFormed_nil : WellFormed [] := ⟨ascending_nil _, by simp⟩

theorem mirrors_created : Mirrors {} [] [] 0 where
  terms := ⟨[], .empty, Nat.le_refl _, by
    refine ⟨by simp, by simp, fun bytes termId => ?_, by simp⟩
    simp [TextSpaceState.lookupTerm]⟩
  postings := .empty
  postingsFit := Nat.le_refl _
  docStats := ⟨[], .empty, Nat.le_refl _⟩
  carried := .nil
  segments := by simp
  loadedFit := Nat.le_refl _
  tracks := tracks_loadPostings [] []
  wellFormed := wellFormed_nil
  rows termId row := by simp [listed]
  assigned := by simp

/-! ### What an open rebuilds -/

theorem bumpTermId_bound (entries : List TermDictionaryEntry) (next : TermId)
    (room : ∀ entry ∈ entries, entry.termId.toNat + 1 < 2 ^ 32) :
    next.toNat ≤ (entries.foldl bumpTermId next).toNat ∧
      ∀ entry ∈ entries, entry.termId.toNat < (entries.foldl bumpTermId next).toNat := by
  induction entries generalizing next with
  | nil => simp
  | cons entry entries ih =>
      have small := room entry List.mem_cons_self
      have successor : (entry.termId + 1).toNat = entry.termId.toNat + 1 := by
        rw [UInt32.toNat_add]
        exact Nat.mod_eq_of_lt small
      have bumped : next.toNat ≤ (bumpTermId next entry).toNat ∧
          entry.termId.toNat < (bumpTermId next entry).toNat := by
        unfold bumpTermId
        split
        · rename_i less
          rw [successor]
          have := UInt32.lt_iff_toNat_lt.mp less
          omega
        · rename_i notLess
          have := mt UInt32.lt_iff_toNat_lt.mpr notLess
          omega
      obtain ⟨above, all⟩ := ih (bumpTermId next entry)
        fun other member => room other (List.mem_cons_of_mem _ member)
      refine ⟨bumped.1.trans above, fun other member => ?_⟩
      rcases List.mem_cons.mp member with head | later
      · rw [head]
        exact lt_of_lt_of_le bumped.2 above
      · exact all other later

theorem loadTerms_sorted {entries : List TermDictionaryEntry}
    (distinct : ((entries.map fun entry => (entry.termBytes, entry.termId)).map Prod.fst).Nodup) :
    Ascending (fun pair => bytesRank pair.1) (loadTerms entries {}).sortedTerms := by
  have sortedPerm := List.perm_insertionSort
    (fun first second : Bytes × TermId => bytesRank first.1 ≤ bytesRank second.1)
    (entries.map fun entry => (entry.termBytes, entry.termId))
  have : Std.Total fun first second : Bytes × TermId => bytesRank first.1 ≤ bytesRank second.1 :=
    ⟨fun first second => le_total _ _⟩
  have : IsTrans (Bytes × TermId) fun first second => bytesRank first.1 ≤ bytesRank second.1 :=
    ⟨fun _ _ _ => le_trans⟩
  have sorted := List.pairwise_insertionSort
    (fun first second : Bytes × TermId => bytesRank first.1 ≤ bytesRank second.1)
    (entries.map fun entry => (entry.termBytes, entry.termId))
  have apart : (loadTerms entries {}).sortedTerms.Pairwise fun first second =>
      first.1 ≠ second.1 :=
    List.pairwise_map.mp ((sortedPerm.map Prod.fst).nodup_iff.mpr distinct)
  exact (sorted.and apart).imp fun both =>
    lt_of_le_of_ne both.1 fun same => both.2 (bytesRank_injective same)

theorem loadTerms_terms {state : TextSpaceState} {entries : List TermDictionaryEntry}
    (terms : Terms state (entries.map fun entry => (entry.termBytes, entry.termId))) :
    Terms (loadTerms entries {}) (entries.map fun entry => (entry.termBytes, entry.termId)) := by
  have sortedPerm := List.perm_insertionSort
    (fun first second : Bytes × TermId => bytesRank first.1 ≤ bytesRank second.1)
    (entries.map fun entry => (entry.termBytes, entry.termId))
  have ascending := loadTerms_sorted terms.bytesDistinct
  refine ⟨terms.bytesDistinct, terms.idsDistinct, fun bytes termId => ?_, fun pair member => ?_⟩
  · have unwritten : (loadTerms entries {}).termIdByBytes = [] := rfl
    rw [TextSpaceState.lookupTerm, unwritten, valueAt_nil, Option.or_none,
      valueAt_eq_some bytesRank bytesRank_injective ascending]
    exact sortedPerm.mem_iff
  · obtain ⟨entry, inside, rfl⟩ := List.mem_map.mp member
    refine (bumpTermId_bound entries 0 fun other held => ?_).2 entry inside
    have below := terms.below (other.termBytes, other.termId) (List.mem_map_of_mem held)
    have bound := state.nextTermId.toNat_lt
    simp only at below
    omega

theorem loadPostings_terms (segs : List PostingsSegmentDirectory) (state : TextSpaceState) :
    (loadPostings segs state).sortedTerms = state.sortedTerms ∧
      (loadPostings segs state).termIdByBytes = state.termIdByBytes ∧
      (loadPostings segs state).nextTermId = state.nextTermId := by
  by_cases one : ∃ seg, segs = [seg]
  · obtain ⟨seg, rfl⟩ := one
    exact ⟨rfl, rfl, rfl⟩
  · rw [loadPostings_many fun seg same => one ⟨seg, same⟩]
    exact (recordAll_same _ _).2.2.2

def openedState (dicts : List (List TermDictionaryEntry)) (segs : List PostingsSegmentDirectory)
    (docs : List (List DocStatsEntry)) : TextSpaceState :=
  docs.flatten.foldl recordDocStats (loadPostings segs (loadTerms dicts.flatten {}))

theorem openedState_tracks (dicts : List (List TermDictionaryEntry))
    (segs : List PostingsSegmentDirectory) (docs : List (List DocStatsEntry)) :
    Tracks (openedState dicts segs docs) segs [] := by
  obtain ⟨docStats, withStats⟩ := docStats_same docs.flatten
    (loadPostings segs (loadTerms dicts.flatten {}))
  rw [openedState, withStats]
  exact (tracks_loadPostings segs dicts.flatten).congr rfl rfl rfl rfl rfl

theorem openedState_terms {state : TextSpaceState} {dicts : List (List TermDictionaryEntry)}
    (terms : Terms state (dicts.flatten.map fun entry => (entry.termBytes, entry.termId)))
    (segs : List PostingsSegmentDirectory) (docs : List (List DocStatsEntry)) :
    Terms (openedState dicts segs docs)
      (dicts.flatten.map fun entry => (entry.termBytes, entry.termId)) := by
  obtain ⟨docStats, withStats⟩ := docStats_same docs.flatten
    (loadPostings segs (loadTerms dicts.flatten {}))
  obtain ⟨sorted, unwritten, next⟩ := loadPostings_terms segs (loadTerms dicts.flatten {})
  rw [openedState, withStats]
  exact (loadTerms_terms terms).congr sorted unwritten next

/-! ### What a commit appends -/

theorem getElem?_grow {α : Type} {items : List α} {place : Nat} {item : α}
    (found : items[place]? = some item) (more : List α) : (items ++ more)[place]? = some item := by
  obtain ⟨bound, -⟩ := List.getElem?_eq_some_iff.mp found
  rw [List.getElem?_append_left bound]
  exact found

theorem readTermDictionary_grow {file : TextFile} (more : TextFile) (root : Nat)
    (link : Link Nat (List TermDictionaryEntry)) (read : file.readTermDictionary root = some link) :
    TextFile.readTermDictionary (file ++ more) root = some link := by
  unfold TextFile.readTermDictionary at read ⊢
  split at read
  · rename_i found
    rw [getElem?_grow found]
    exact read
  · simp at read

theorem readPostings_grow {file : TextFile} (more : TextFile) (root : Nat)
    (link : Link Nat PostingsSegmentDirectory) (read : file.readPostings root = some link) :
    TextFile.readPostings (file ++ more) root = some link := by
  unfold TextFile.readPostings at read ⊢
  split at read
  · rename_i found
    rw [getElem?_grow found]
    exact read
  · simp at read

theorem readDocStats_grow {file : TextFile} (more : TextFile) (root : Nat)
    (link : Link Nat (List DocStatsEntry)) (read : file.readDocStats root = some link) :
    TextFile.readDocStats (file ++ more) root = some link := by
  unfold TextFile.readDocStats at read ⊢
  split at read
  · rename_i found
    rw [getElem?_grow found]
    exact read
  · simp at read

/-- A batch without terms changes the document statistics only. -/
theorem buildFlushOutput_noPostings {pending : PendingFrames} (state : TextSpaceState)
    (noTerms : ∀ entry ∈ pending, entry.2.termCounts = []) :
    ∃ docStats out, buildFlushOutput pending state = ({ state with docStats := docStats }, .ok out) := by
  have tokens : pendingTokens pending = [] := by
    rw [pendingTokens, List.flatMap_eq_nil_iff]
    intro entry member
    simp [noTerms entry member]
  have flat : flattenPending state.lookupTerm pending = .ok [] := by
    rw [flattenPending_ok pending (by simp [tokens])]
    congr 1
    rw [List.flatMap_eq_nil_iff]
    intro entry member
    simp [frameTuples, noTerms entry member]
  obtain ⟨docStats, withStats⟩ := docStats_same
    (pending.map fun entry => docStatsRecord entry.1 entry.2) state
  have lists : postingLists [] = [] := rfl
  have unassigned : assignTermIds state (newTermBytes state (pendingTokens pending)) =
      (state, .ok []) := by
    rw [tokens]
    rfl
  refine ⟨docStats, ⟨[], ⟨[], []⟩, pending.map fun entry => docStatsRecord entry.1 entry.2⟩, ?_⟩
  simp only [buildFlushOutput, unassigned, flat, lists, List.foldl_nil, withStats]
  rfl

section Steps

variable {handle : TextHandle} {segs : List PostingsSegmentDirectory}
  {listss : List (List PostingList)} {loaded : Nat} (mirrors : Mirrors handle segs listss loaded)

include mirrors

theorem Mirrors.index (frameId : FrameId) (collectionId : CollectionId) (tokens : List Bytes) :
    Mirrors (handle.index frameId collectionId tokens) segs listss loaded :=
  { mirrors with wellFormed := mirrors.wellFormed.index frameId collectionId tokens }

/-- The chains read back in full, and the open holds every segment in its directory. -/
theorem Mirrors.rebuilt : ∃ state, handle.rebuilt = some state ∧ Tracks state segs [] ∧
    state.lookupTerm = handle.state.lookupTerm ∧ Mirrors (handle.reopened state) segs listss
      listss.length := by
  obtain ⟨dicts, dictsHeld, dictsFit, terms⟩ := mirrors.terms
  obtain ⟨docs, docsHeld, docsFit⟩ := mirrors.docStats
  have tracks := openedState_tracks dicts segs docs
  have laterTerms := openedState_terms terms segs docs
  have lookups : (openedState dicts segs docs).lookupTerm = handle.state.lookupTerm := by
    funext bytes
    exact Option.ext fun termId =>
      (laterTerms.known bytes termId).trans (terms.known bytes termId).symm
  refine ⟨_, ?_, tracks, lookups, ?_⟩
  · simp [TextHandle.rebuilt, rebuildTextSpaceState, openedState, dictsHeld.walk _ dictsFit,
      mirrors.postings.walk _ mirrors.postingsFit, docsHeld.walk _ docsFit]
  · have length := mirrors.carried.length_eq
    exact {
      terms := ⟨dicts, dictsHeld, dictsFit, laterTerms⟩
      postings := mirrors.postings
      postingsFit := mirrors.postingsFit
      docStats := ⟨docs, docsHeld, docsFit⟩
      carried := mirrors.carried
      segments := mirrors.segments
      loadedFit := Nat.le_refl _
      tracks := by
        rw [← length, List.take_length, length, List.drop_length]
        exact tracks
      wellFormed := wellFormed_nil
      rows := fun termId row => by
        rw [mirrors.rows, TextHandle.reopened, lookups]
      assigned := by
        rw [TextHandle.reopened, lookups]
        exact mirrors.assigned }

/-- Segments that no published root reaches change nothing, nor do document statistics. -/
theorem Mirrors.leftover (more : TextFile) (docStats : List (FrameId × DocStatsEntry)) :
    Mirrors { handle with
      file := handle.file ++ more
      state := { handle.state with docStats := docStats }
      pending := [] } segs listss loaded := by
  obtain ⟨dicts, dictsHeld, dictsFit, terms⟩ := mirrors.terms
  obtain ⟨docs, docsHeld, docsFit⟩ := mirrors.docStats
  have longer : handle.file.length ≤ (handle.file ++ more).length := by simp
  exact {
    terms := ⟨dicts, dictsHeld.mono (readTermDictionary_grow more), dictsFit.trans longer,
      terms.congr rfl rfl rfl⟩
    postings := mirrors.postings.mono (readPostings_grow more)
    postingsFit := mirrors.postingsFit.trans longer
    docStats := ⟨docs, docsHeld.mono (readDocStats_grow more), docsFit.trans longer⟩
    carried := mirrors.carried
    segments := mirrors.segments
    loadedFit := mirrors.loadedFit
    tracks := mirrors.tracks.congr rfl rfl rfl rfl rfl
    wellFormed := wellFormed_nil
    rows := mirrors.rows
    assigned := mirrors.assigned }

def TextHandle.published (handle : TextHandle) (after : TextSpaceState) (out : FlushOutput) :
    TextHandle where
  file := (TextHandle.appendFlush handle.file handle.roots out).1
  roots := (TextHandle.appendFlush handle.file handle.roots out).2
  state := after
  pending := []
  flushed := handle.flushed ++ [handle.pending]

theorem Mirrors.publish {after : TextSpaceState} {out : FlushOutput}
    (built : buildFlushOutput handle.pending handle.state = (after, .ok out)) :
    ∃ lists, Mirrors (handle.published after out) (segs ++ [out.postingsSegment])
        (listss ++ [lists]) loaded ∧
      (∀ termId row, row ∈ (listed termId lists).flatMap PostingList.postings ↔
        Indexes after.lookupTerm handle.pending termId row) ∧
      ∀ bytes termId, handle.state.lookupTerm bytes = some termId →
        after.lookupTerm bytes = some termId := by
  obtain ⟨dicts, dictsHeld, dictsFit, terms⟩ := mirrors.terms
  obtain ⟨docs, docsHeld, docsFit⟩ := mirrors.docStats
  obtain ⟨lists, flushed⟩ := buildFlushOutput_spec terms mirrors.wellFormed built
  have longer : (TextHandle.appendFlush handle.file handle.roots out).1.length =
      handle.file.length + 3 := by simp [TextHandle.appendFlush]
  refine ⟨lists, ?_, flushed.rows, flushed.extended⟩
  exact {
    terms := by
      refine ⟨dicts ++ [out.termDictSegment],
        .link ?_ (dictsHeld.mono (readTermDictionary_grow _)), ?_, ?_⟩
      · simp [TextFile.readTermDictionary, TextHandle.published, TextHandle.appendFlush]
      · simp only [TextHandle.published, longer, List.length_append, List.length_singleton]
        omega
      · rw [List.flatten_append, List.map_append]
        simpa [TextHandle.published] using flushed.terms
    postings := by
      refine .link ?_ (mirrors.postings.mono (readPostings_grow _))
      simp [TextFile.readPostings, TextHandle.published, TextHandle.appendFlush]
    postingsFit := by
      have := mirrors.postingsFit
      simp only [TextHandle.published, longer, List.length_append, List.length_singleton]
      omega
    docStats := by
      refine ⟨docs ++ [out.docStatsSegment], .link ?_ (docsHeld.mono (readDocStats_grow _)), ?_⟩
      · simp [TextFile.readDocStats, TextHandle.published, TextHandle.appendFlush]
      · simp only [TextHandle.published, longer, List.length_append, List.length_singleton]
        omega
    carried := List.rel_append mirrors.carried (.cons flushed.carries .nil)
    segments := by
      intro other member
      rcases List.mem_append.mp member with old | new
      · exact mirrors.segments other old
      · rw [List.mem_singleton.mp new]
        exact flushed.segment
    loadedFit := by
      have := mirrors.loadedFit
      simp only [List.length_append, List.length_singleton]
      omega
    tracks := by
      have length := mirrors.carried.length_eq
      have fit := mirrors.loadedFit
      rw [List.take_append_of_le_length (by omega), List.drop_append_of_le_length fit,
        List.flatten_append]
      simpa [TextHandle.published] using flushed.tracks _ _ mirrors.tracks
    wellFormed := wellFormed_nil
    rows := by
      intro termId row
      have known : ∀ batch ∈ handle.flushed, Indexes after.lookupTerm batch termId row ↔
          Indexes handle.state.lookupTerm batch termId row := by
        intro batch held
        constructor
        · rintro ⟨entry, inside, count, counted, found, same⟩
          refine ⟨entry, inside, count, counted, ?_, same⟩
          have token := mirrors.assigned batch held count.1
            (List.mem_flatMap.mpr ⟨entry, inside, List.mem_map_of_mem counted⟩)
          obtain ⟨other, old⟩ := Option.ne_none_iff_exists'.mp token
          rw [flushed.extended _ _ old] at found
          rw [old, found]
        · rintro ⟨entry, inside, count, counted, found, same⟩
          exact ⟨entry, inside, count, counted, flushed.extended _ _ found, same⟩
      have old := mirrors.rows termId row
      have new := flushed.rows termId row
      simp only [List.flatten_append, List.flatten_cons, List.flatten_nil, List.append_nil,
        listed_append, List.flatMap_append, List.mem_append, old, new, TextHandle.published]
      constructor
      · rintro (⟨batch, held, indexes⟩ | indexes)
        · exact ⟨batch, .inl held, (known batch held).mpr indexes⟩
        · exact ⟨handle.pending, .inr (List.mem_singleton_self _), indexes⟩
      · rintro ⟨batch, held | last, indexes⟩
        · exact .inl ⟨batch, held, (known batch held).mp indexes⟩
        · rw [List.mem_singleton.mp last] at indexes
          exact .inr indexes
    assigned := by
      intro batch held token member
      rcases List.mem_append.mp held with old | last
      · obtain ⟨termId, found⟩ := Option.ne_none_iff_exists'.mp (mirrors.assigned batch old token member)
        simp [TextHandle.published, flushed.extended _ _ found]
      · rw [List.mem_singleton.mp last] at member
        exact flushed.assigned token member }

/-- A commit either leaves the lists on disk alone, or appends the lists of the pending batch. -/
theorem Mirrors.commit (fault : Option CommitFault)
    (succeeds : handle.FlushesPostings → fault = some .beforeFlush ∨ (handle.commit fault).2 = .ok ()) :
    (Mirrors (handle.commit fault).1 segs listss loaded ∧
      (handle.commit fault).1.flushed = handle.flushed ∧
      (handle.commit fault).1.state.lookupTerm = handle.state.lookupTerm) ∨
    ∃ seg lists, fault ≠ some .beforeFlush ∧
      Mirrors (handle.commit fault).1 (segs ++ [seg]) (listss ++ [lists]) loaded ∧
      (handle.commit fault).1.flushed = handle.flushed ++ [handle.pending] ∧
      (∀ termId row, row ∈ (listed termId lists).flatMap PostingList.postings ↔
        Indexes (handle.commit fault).1.state.lookupTerm handle.pending termId row) ∧
      ∀ bytes termId, handle.state.lookupTerm bytes = some termId →
        (handle.commit fault).1.state.lookupTerm bytes = some termId := by
  by_cases early : fault = some .beforeFlush
  · rw [TextHandle.commit, if_pos early]
    exact .inl ⟨mirrors, rfl, rfl⟩
  by_cases nothing : handle.pending = []
  · rw [TextHandle.commit, if_neg early, if_pos nothing]
    exact .inl ⟨mirrors, rfl, rfl⟩
  by_cases published : fault = none ∧
      ∃ after out, buildFlushOutput handle.pending handle.state = (after, .ok out)
  · obtain ⟨rfl, after, out, built⟩ := published
    obtain ⟨lists, laterMirrors, rows, extended⟩ := mirrors.publish built
    have committed : (handle.commit none).1 = handle.published after out := by
      rw [TextHandle.commit, if_neg early, if_neg nothing, built]
      rfl
    rw [committed]
    exact .inr ⟨_, lists, early, laterMirrors, rfl, rows, extended⟩
  · have noTerms : ∀ entry ∈ handle.pending, entry.2.termCounts = [] := by
      intro entry member
      by_contra some_term
      have ok := (succeeds ⟨entry, member, some_term⟩).resolve_left early
      rw [TextHandle.commit, if_neg early, if_neg nothing] at ok
      rcases built : buildFlushOutput handle.pending handle.state with ⟨after, out | error | _⟩
      · by_cases unfaulted : fault = none
        · exact published ⟨unfaulted, after, out, built⟩
        · simp [built, unfaulted] at ok
      · simp [built] at ok
      · simp [built] at ok
    obtain ⟨docStats, out, built⟩ := buildFlushOutput_noPostings handle.state noTerms
    have faulted : fault ≠ none := fun unfaulted => published ⟨unfaulted, _, out, built⟩
    have committed : (handle.commit fault).1 = { handle with
        file := (TextHandle.appendFlush handle.file handle.roots out).1
        state := { handle.state with docStats := docStats }
        pending := [] } := by
      rw [TextHandle.commit, if_neg early, if_neg nothing, built]
      simp [faulted]
    rw [committed]
    exact .inl ⟨mirrors.leftover _ docStats, rfl, rfl⟩

end Steps

end Valise
