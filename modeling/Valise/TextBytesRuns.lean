import Valise.TextBytes
import Valise.TextRuns

/-!
Runs of a text index on the bytes of its file: frames are indexed, commits append their segments or
fail on the way, other writers append, and the file is reopened. Each run follows one over segments.
-/

namespace Valise

open ByteLists Chains Outcomes Runs SortedTables TermDictionaryCodec

namespace TextBytes

/-- The file with the roots that its footer names, the live state and the frames pending in it.
`flushed` keeps the batches whose commits succeeded, for the statements only. -/
structure TextDisk where
  data : Bytes
  root : TextIndexRoot
  state : TextSpaceState := {}
  pending : PendingFrames := []
  flushed : List PendingFrames := []

namespace TextDisk

def index (disk : TextDisk) (frameId : FrameId) (collectionId : CollectionId)
    (tokens : List Bytes) : TextDisk :=
  { disk with
    pending := store frameRank frameId (PendingFrameIndex.fromTokens collectionId tokens)
      disk.pending }

def reopened (disk : TextDisk) (state : TextSpaceState) : TextDisk :=
  { disk with state := state, pending := [] }

/-- A commit under the three segment ids that it allocates. One that fails after the build leaves
`torn` behind, which no published root names. -/
def commit (blake3 : Bytes → Checksum) (disk : TextDisk)
    (termDictId postingsId docStatsId : SegmentId) (torn : Option Bytes) : TextDisk × Result Unit :=
  if disk.pending = [] then (disk, .ok ())
  else
    let built := buildFlushOutput disk.root.textSpaceId disk.pending disk.state disk.root
    let taken := { disk with state := built.1, pending := [] }
    match built.2 with
    | .err error => (taken, .err error)
    | .panic => (taken, .panic)
    | .ok out =>
        match torn with
        | some bytes => ({ taken with data := disk.data ++ bytes }, .err .io)
        | none =>
            let written := writeSegments blake3 disk.data termDictId postingsId docStatsId out
              disk.root
            ({ taken with
                data := written.1
                root := written.2
                flushed := disk.flushed ++ [disk.pending] }, .ok ())

def rebuilt (blake3 : Bytes → Checksum) (decompress : Bytes → Option Bytes) (disk : TextDisk) :
    Result TextSpaceState :=
  rebuildTextSpaceState blake3 decompress disk.data disk.data.length disk.root

/-- What the next flush writes is addressed by the widths that it is kept in: 32 bits for a term in
its segment, 64 bits for a segment in the file. -/
def Fits (blake3 : Bytes → Checksum) (disk : TextDisk)
    (termDictId postingsId docStatsId : SegmentId) : Prop :=
  ∀ out, (buildFlushOutput disk.root.textSpaceId disk.pending disk.state disk.root).2 = .ok out →
    out.termDictSegment.length < 2 ^ 32 ∧
      fileLen (writeSegments blake3 disk.data termDictId postingsId docStatsId out disk.root).1 <
        2 ^ 64

/-- No flush has gone into the file yet. -/
structure Created (disk : TextDisk) : Prop where
  termDictionaryRoot : disk.root.termDictionaryRoot = none
  postingsRoot : disk.root.postingsRoot = none
  docStatsRoot : disk.root.docStatsRoot = none
  state : disk.state = {}
  pending : disk.pending = []
  flushed : disk.flushed = []

end TextDisk

inductive DiskStep (blake3 : Bytes → Checksum) (decompress : Bytes → Option Bytes) :
    TextDisk → TextDisk → Prop where
  | index {disk} (frameId collectionId tokens) :
      DiskStep blake3 decompress disk (disk.index frameId collectionId tokens)
  | append {disk} (more : Bytes) :
      DiskStep blake3 decompress disk { disk with data := disk.data ++ more }
  | commit {disk} (termDictId postingsId docStatsId torn) :
      disk.Fits blake3 termDictId postingsId docStatsId →
        DiskStep blake3 decompress disk (disk.commit blake3 termDictId postingsId docStatsId torn).1
  | reopen {disk state} : disk.rebuilt blake3 decompress = .ok state →
      DiskStep blake3 decompress disk (disk.reopened state)

/-! ### What the bytes and the segments have in common -/

def TellsTerms (content : Bytes × List TermDictRawSlice) (entries : List TermDictionaryEntry) : Prop :=
  content.2.map (termAt content.1) = entries.map fun entry => (entry.termBytes, entry.termId)

def TellsPostings (segment : PostingsCodec.PostingsSegmentDirectory)
    (directory : PostingsSegmentDirectory) : Prop :=
  directoryOf segment = directory

def TellsDocStats (segment : DocStatsCodec.DocStatsSegment) (entries : List DocStatsEntry) : Prop :=
  segment.records.map (·.toDocStatsEntry) = entries

section Simulation

variable (blake3 : Bytes → Checksum) (decompress : Bytes → Option Bytes)

/-- The chains on the bytes tell the same as the chains over segments, link by link. -/
structure SameChains (data : Bytes) (root : TextIndexRoot) (file : TextFile) (roots : TextRoots)
    (bound : Nat) : Prop where
  termDict : Parallel TellsTerms
    (fun ref => (readLink blake3 decompress .termDictionary termDictLink data ref).toOption)
    root.termDictionaryRoot file.readTermDictionary roots.termDictionaryRoot bound
  postings : Parallel TellsPostings
    (fun ref => (readLink blake3 decompress .postings postingsLink data ref).toOption)
    root.postingsRoot file.readPostings roots.postingsRoot bound
  docStats : Parallel TellsDocStats
    (fun ref => (readLink blake3 decompress .docStats docStatsLink data ref).toOption)
    root.docStatsRoot file.readDocStats roots.docStatsRoot bound

structure Simulates (disk : TextDisk) (handle : TextHandle) : Prop where
  state : handle.state = disk.state
  pending : handle.pending = disk.pending
  flushed : handle.flushed = disk.flushed
  chains : ∃ bound, SameChains blake3 decompress disk.data disk.root handle.file handle.roots bound ∧
    bound ≤ disk.data.length ∧ bound ≤ handle.file.length

variable {blake3 decompress}

theorem SameChains.append {data : Bytes} {root : TextIndexRoot} {file : TextFile} {roots : TextRoots}
    {bound : Nat} (same : SameChains blake3 decompress data root file roots bound) (bytes : Bytes)
    (more : TextFile) :
    SameChains blake3 decompress (data ++ bytes) root (file ++ more) roots bound where
  termDict := same.termDict.mono (readLink_append bytes) (readTermDictionary_grow more)
    (Nat.le_refl _)
  postings := same.postings.mono (readLink_append bytes) (readPostings_grow more) (Nat.le_refl _)
  docStats := same.docStats.mono (readLink_append bytes) (readDocStats_grow more) (Nat.le_refl _)

/-- A flush adds a link to each chain, and the new links tell the same too. -/
theorem SameChains.writeSegments {data : Bytes} {root : TextIndexRoot} {file : TextFile}
    {roots : TextRoots} {bound : Nat}
    (same : SameChains blake3 decompress data root file roots bound)
    {out : FlushOutput} {kept : Valise.FlushOutput} (encodes : Encodes root out kept)
    (termDictId postingsId docStatsId : SegmentId)
    (fits : fileLen (writeSegments blake3 data termDictId postingsId docStatsId out root).1 < 2 ^ 64) :
    SameChains blake3 decompress
      (TextBytes.writeSegments blake3 data termDictId postingsId docStatsId out root).1
      (TextBytes.writeSegments blake3 data termDictId postingsId docStatsId out root).2
      (TextHandle.appendFlush file roots kept).1 (TextHandle.appendFlush file roots kept).2
      (bound + 1) := by
  obtain ⟨terms, termsDecoded, termsSame⟩ := encodes.termDict
  obtain ⟨segment, postingsDecoded, postingsSame⟩ := encodes.postings
  obtain ⟨stats, statsDecoded, statsSame⟩ := encodes.docStats
  let termDictBytes := segmentBytes blake3 termDictId .termDictionary out.termDictRecordCount
    out.termDictSegment
  let postingsBytes := segmentBytes blake3 postingsId .postings out.postingsRecordCount
    out.postingsSegment
  let docStatsBytes := segmentBytes blake3 docStatsId .docStats out.docStatsRecordCount
    out.docStatsSegment
  have whole : fileLen (data ++ termDictBytes ++ postingsBytes ++ docStatsBytes) < 2 ^ 64 := fits
  have first : fileLen (data ++ termDictBytes) < 2 ^ 64 := by
    simp only [fileLen, List.length_append] at whole ⊢
    omega
  have second : fileLen (data ++ termDictBytes ++ postingsBytes) < 2 ^ 64 := by
    simp only [fileLen, List.length_append] at whole ⊢
    omega
  have older := same.append (termDictBytes ++ postingsBytes ++ docStatsBytes)
    [.termDictionary ⟨roots.termDictionaryRoot, kept.termDictSegment⟩,
      .postings ⟨roots.postingsRoot, kept.postingsSegment⟩,
      .docStats ⟨roots.docStatsRoot, kept.docStatsSegment⟩]
  simp only [← List.append_assoc] at older
  exact {
    termDict := older.termDict.link
      (readLink_append docStatsBytes _ _ (readLink_append postingsBytes _ _
        (readLink_appended termsDecoded first)))
      (by simp [TextFile.readTermDictionary]) termsSame
    postings := older.postings.link
      (readLink_append docStatsBytes _ _ (readLink_appended postingsDecoded second))
      (by simp [TextFile.readPostings]) postingsSame
    docStats := older.docStats.link (readLink_appended statsDecoded whole)
      (by simp [TextFile.readDocStats]) statsSame }

theorem map_of_same {α β : Type} {tell : α → β} {contents : List α} {others : List β}
    (same : List.Forall₂ (fun content other => tell content = other) contents others) :
    contents.map tell = others := by
  have equal := List.forall₂_map_left_iff.mpr same
  rwa [List.forall₂_eq_eq_eq] at equal

theorem loadTermSlices_same {chain : List (Bytes × List TermDictRawSlice)}
    {dicts : List (List TermDictionaryEntry)} (same : List.Forall₂ TellsTerms chain dicts)
    (state : TextSpaceState) : loadTermSlices chain state = loadTerms dicts.flatten state := by
  have terms : (chain.flatMap fun content => content.2.map (termAt content.1)) =
      dicts.flatten.map fun entry => (entry.termBytes, entry.termId) := by
    have each := map_of_same (List.forall₂_map_right_iff.mpr same)
    rw [List.flatMap, each, List.map_flatten]
  have ids : (chain.flatMap Prod.snd).map (·.termId) = dicts.flatten.map (·.termId) := by
    have taken := congrArg (List.map Prod.snd) terms
    rw [List.map_flatMap, List.map_map] at taken
    rw [List.map_flatMap]
    simpa only [List.map_map, Function.comp_def, termAt] using taken
  have bumped : (chain.flatMap Prod.snd).foldl bumpRawTermId state.nextTermId =
      dicts.flatten.foldl bumpTermId state.nextTermId := by
    have folded := congrArg (List.foldl (fun next termId : TermId =>
      if next < termId + 1 then termId + 1 else next) state.nextTermId) ids
    rwa [List.foldl_map, List.foldl_map] at folded
  rw [loadTermSlices, loadTerms, bumped, terms]

/-- What an open reads from the bytes is what it reads from the segments. -/
theorem Simulates.rebuilt {disk : TextDisk} {handle : TextHandle}
    (simulates : Simulates blake3 decompress disk handle) :
    ∃ state, disk.rebuilt blake3 decompress = .ok state ∧ handle.rebuilt = some state := by
  obtain ⟨bound, same, dataFits, fileFits⟩ := simulates.chains
  obtain ⟨chain, dicts, chainHolds, dictsHold, termsSame, termsFew⟩ := same.termDict
  obtain ⟨segments, directories, segmentsHold, directoriesHold, postingsSame, postingsFew⟩ :=
    same.postings
  obtain ⟨stats, docs, statsHold, docsHold, statsSame, statsFew⟩ := same.docStats
  have dictsFew := termsSame.length_eq
  have directoriesFew := postingsSame.length_eq
  have docsFew := statsSame.length_eq
  refine ⟨openedState dicts directories docs, ?_, ?_⟩
  · rw [TextDisk.rebuilt, rebuildTextSpaceState, walkTermDictChainLazy, walkPostingsChainDirectory,
      walkDocStatsChain, chainHolds.collect _ (by omega), Outcome.ok_bind,
      segmentsHold.collect _ (by omega), Outcome.ok_bind, statsHold.collect _ (by omega),
      Outcome.ok_bind]
    simp only [List.reverse_nil, List.append_nil]
    rw [loadTermSlices_same termsSame, map_of_same postingsSame, List.flatMap, map_of_same statsSame]
    rfl
  · simp [TextHandle.rebuilt, Valise.rebuildTextSpaceState, openedState,
      dictsHold.walk _ (by omega : dicts.length ≤ handle.file.length),
      directoriesHold.walk _ (by omega : directories.length ≤ handle.file.length),
      docsHold.walk _ (by omega : docs.length ≤ handle.file.length)]

/-! ### Steps -/

theorem simulates_created {disk : TextDisk} (created : disk.Created) :
    Simulates blake3 decompress disk {} where
  state := created.state.symm
  pending := created.pending.symm
  flushed := created.flushed.symm
  chains := by
    refine ⟨0, ?_, Nat.zero_le _, Nat.zero_le _⟩
    constructor
    · rw [created.termDictionaryRoot]
      exact parallel_empty _ _ _ _
    · rw [created.postingsRoot]
      exact parallel_empty _ _ _ _
    · rw [created.docStatsRoot]
      exact parallel_empty _ _ _ _

/-- Bytes and segments that no published root names change nothing, and the pending frames are
taken into the state in the same way. -/
theorem Simulates.leftover {disk : TextDisk} {handle : TextHandle}
    (simulates : Simulates blake3 decompress disk handle) (bytes : Bytes) (more : TextFile)
    (state : TextSpaceState) (pending : PendingFrames) :
    Simulates blake3 decompress
      { disk with data := disk.data ++ bytes, state := state, pending := pending }
      { handle with file := handle.file ++ more, state := state, pending := pending } := by
  obtain ⟨bound, same, dataFits, fileFits⟩ := simulates.chains
  refine ⟨rfl, rfl, simulates.flushed, bound, same.append bytes more, ?_, ?_⟩
  · rw [List.length_append]
    exact dataFits.trans (Nat.le_add_right _ _)
  · rw [List.length_append]
    exact fileFits.trans (Nat.le_add_right _ _)

theorem commit_afterFlush {handle : TextHandle} (filled : handle.pending ≠ []) :
    ∃ more, (handle.commit (some .afterFlush)).1 = { handle with
      file := handle.file ++ more
      state := (Valise.buildFlushOutput handle.pending handle.state).1
      pending := [] } := by
  rw [TextHandle.commit, if_neg (by simp), if_neg filled]
  dsimp only
  cases (Valise.buildFlushOutput handle.pending handle.state).2 with
  | ok out => exact ⟨_, rfl⟩
  | err error => exact ⟨[], by rw [List.append_nil]⟩
  | panic => exact ⟨[], by rw [List.append_nil]⟩

theorem commit_published {handle : TextHandle} {kept : Valise.FlushOutput}
    (filled : handle.pending ≠ [])
    (built : (Valise.buildFlushOutput handle.pending handle.state).2 = .ok kept) :
    (handle.commit none).1 =
      handle.published (Valise.buildFlushOutput handle.pending handle.state).1 kept := by
  rw [TextHandle.commit, if_neg (by simp), if_neg filled]
  simp only [built]
  rfl

theorem buildFlushOutput_state (textSpaceId : TextSpaceId) (pending : PendingFrames)
    (state : TextSpaceState) (prior : TextIndexRoot) :
    (buildFlushOutput textSpaceId pending state prior).1 =
      (Valise.buildFlushOutput pending state).1 := by
  rw [buildFlushOutput_records]
  rfl

/-- A commit over segments that publishes when the one on bytes does, and else fails around its
flush, keeps the two alike. -/
theorem Simulates.commit {disk : TextDisk} {handle : TextHandle}
    (simulates : Simulates blake3 decompress disk handle)
    {termDictId postingsId docStatsId : SegmentId}
    (fits : disk.Fits blake3 termDictId postingsId docStatsId) (torn : Option Bytes) :
    ∃ fault, Simulates blake3 decompress
      (disk.commit blake3 termDictId postingsId docStatsId torn).1 (handle.commit fault).1 := by
  by_cases nothing : disk.pending = []
  · have nothingToo : handle.pending = [] := simulates.pending.trans nothing
    refine ⟨none, ?_⟩
    rw [TextDisk.commit, if_pos nothing, TextHandle.commit, if_neg (by simp), if_pos nothingToo]
    exact simulates
  · have filled : handle.pending ≠ [] := fun none => nothing (simulates.pending.symm.trans none)
    have after := buildFlushOutput_state disk.root.textSpaceId disk.pending disk.state disk.root
    obtain ⟨more, failed⟩ := commit_afterFlush filled
    rw [simulates.pending, simulates.state, ← after] at failed
    rw [TextDisk.commit, if_neg nothing]
    dsimp only
    cases built : (buildFlushOutput disk.root.textSpaceId disk.pending disk.state disk.root).2 with
    | err error =>
        have left := simulates.leftover [] more
          (buildFlushOutput disk.root.textSpaceId disk.pending disk.state disk.root).1 []
        rw [List.append_nil] at left
        exact ⟨_, failed ▸ left⟩
    | panic =>
        have left := simulates.leftover [] more
          (buildFlushOutput disk.root.textSpaceId disk.pending disk.state disk.root).1 []
        rw [List.append_nil] at left
        exact ⟨_, failed ▸ left⟩
    | ok out =>
        cases torn with
        | some bytes => exact ⟨_, failed ▸ simulates.leftover bytes more _ []⟩
        | none =>
            obtain ⟨termsFit, fileFits⟩ := fits out built
            obtain ⟨kept, keptBuilt, encodes⟩ := buildFlushOutput_encodes nothing built termsFit
            obtain ⟨bound, same, dataBound, fileBound⟩ := simulates.chains
            rw [← simulates.pending, ← simulates.state] at keptBuilt
            have published := commit_published filled keptBuilt
            refine ⟨none, published ▸ ?_⟩
            refine ⟨?_, rfl, ?_, bound + 1,
              same.writeSegments encodes termDictId postingsId docStatsId fileFits, ?_, ?_⟩
            · rw [TextHandle.published, simulates.pending, simulates.state]
              exact after.symm
            · rw [TextHandle.published, simulates.pending, simulates.flushed]
            · have longer : (writeSegments blake3 disk.data termDictId postingsId docStatsId out
                  disk.root).1.length ≥ disk.data.length + 1 := by
                simp only [writeSegments, appendSegmentAtEnd, segmentBytes, List.length_append,
                  SegmentHeader.encode_length, segmentHeaderSize]
                omega
              exact (Nat.succ_le_succ dataBound).trans longer
            · have longer : (TextHandle.appendFlush handle.file handle.roots kept).1.length =
                  handle.file.length + 3 := by simp [TextHandle.appendFlush]
              have room : bound + 1 ≤ handle.file.length + 3 := by omega
              exact room.trans (Nat.le_of_eq longer.symm)

/-- Every run on the bytes follows a run over segments, with the same live state, the same pending
frames and the same batches flushed, and an open reads from the bytes what it would read from the
segments. -/
theorem textDisk_refines {disk : TextDisk}
    (reachable : Reachable TextDisk.Created (DiskStep blake3 decompress) disk) :
    ∃ handle, Reachable (· = {}) TextStep handle ∧ handle.state = disk.state ∧
      handle.pending = disk.pending ∧ handle.flushed = disk.flushed ∧
      ∃ state, disk.rebuilt blake3 decompress = .ok state ∧ handle.rebuilt = some state := by
  have initially : ∀ disk : TextDisk, disk.Created →
      ∃ handle : TextHandle, handle = {} ∧ Simulates blake3 decompress disk handle :=
    fun disk created => ⟨{}, rfl, simulates_created created⟩
  have matched : ∀ before after handle, Simulates blake3 decompress before handle →
      DiskStep blake3 decompress before after →
      ∃ later, (later = handle ∨ TextStep handle later) ∧
        Simulates blake3 decompress after later := by
    intro before after handle simulates step
    cases step with
    | index frameId collectionId tokens =>
        refine ⟨_, .inr (.index frameId collectionId tokens), simulates.state, ?_,
          simulates.flushed, simulates.chains⟩
        rw [TextHandle.index, TextDisk.index, simulates.pending]
    | append more =>
        obtain ⟨bound, same, dataFits, fileFits⟩ := simulates.chains
        have kept := same.append more []
        rw [List.append_nil] at kept
        refine ⟨handle, .inl rfl, simulates.state, simulates.pending, simulates.flushed, bound, kept,
          ?_, fileFits⟩
        rw [List.length_append]
        exact dataFits.trans (Nat.le_add_right _ _)
    | commit termDictId postingsId docStatsId torn fits =>
        obtain ⟨fault, kept⟩ := simulates.commit fits torn
        exact ⟨_, .inr (.commit fault), kept⟩
    | reopen opened =>
        obtain ⟨state, same, rebuilt⟩ := simulates.rebuilt
        obtain rfl := Outcome.ok.inj (opened.symm.trans same)
        exact ⟨_, .inr (.reopen rebuilt), rfl, rfl, simulates.flushed, simulates.chains⟩
  obtain ⟨handle, reached, simulates⟩ := reachable.simulated initially matched
  exact ⟨handle, reached, simulates.state, simulates.pending, simulates.flushed, simulates.rebuilt⟩

end Simulation

def zeroDigest (_ : Bytes) : Checksum := ⟨List.replicate 32 0, rfl⟩

def newDisk : TextDisk where
  data := []
  root := ⟨1, none, none, none, none, Vec.empty, Vec.empty⟩

/-- A frame that was flushed, and one whose commit failed behind it. -/
def writtenDisk : TextDisk :=
  ((((newDisk.index 7 1 [[0x61], [0x62]]).commit zeroDigest 1 2 3 none).1.index 8 1
    [[0x61]]).commit zeroDigest 4 5 6 (some [0xFF])).1

def fitsHere (disk : TextDisk) (termDictId postingsId docStatsId : SegmentId) : Bool :=
  (buildFlushOutput disk.root.textSpaceId disk.pending disk.state disk.root).2.toOption.all
    fun out => decide (out.termDictSegment.length < 2 ^ 32 ∧
      fileLen (writeSegments zeroDigest disk.data termDictId postingsId docStatsId out
        disk.root).1 < 2 ^ 64)

theorem fits_of_fitsHere {disk : TextDisk} {termDictId postingsId docStatsId : SegmentId}
    (checked : fitsHere disk termDictId postingsId docStatsId = true) :
    disk.Fits zeroDigest termDictId postingsId docStatsId := by
  intro out built
  rw [fitsHere, built] at checked
  exact of_decide_eq_true checked

theorem writtenDisk_refines : ∃ handle, Reachable (· = {}) TextStep handle ∧
    handle.flushed.length = 1 ∧ ∃ state,
      writtenDisk.rebuilt zeroDigest (fun _ => none) = .ok state ∧
        handle.rebuilt = some state := by
  have written : Reachable TextDisk.Created (DiskStep zeroDigest fun _ => none) writtenDisk := by
    refine .step (.step (.step (.step (.start ?_) (.index 7 1 _)) (.commit 1 2 3 none ?_))
      (.index 8 1 _)) (.commit 4 5 6 (some [0xFF]) ?_)
    · exact ⟨rfl, rfl, rfl, rfl, rfl, rfl⟩
    · exact fits_of_fitsHere (by decide +kernel)
    · exact fits_of_fitsHere (by decide +kernel)
  obtain ⟨handle, reached, -, -, flushed, state, opened, rebuilt⟩ := textDisk_refines written
  refine ⟨handle, reached, ?_, state, opened, rebuilt⟩
  rw [flushed]
  decide +kernel

end TextBytes

end Valise
