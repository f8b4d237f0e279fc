import Valise.OpenState

/-!
What the file holds of the catalog of an open handle: away from the dirty rows the delta chains of
the footer replay to the tables, and everything else that an open reads is there.
-/

namespace Valise

open ByteLists Chains Commands Command DeltaTables Outcomes SortedTables

/-! ### One table and its chain -/

/-- Away from the dirty ids, the chain from the root replays to the table. -/
def Chained (file : StoredFile) (root : Option SegmentPlace) (kind : CatalogTableKind)
    (table : List kind.Row) (dirty : List Nat) : Prop :=
  ∃ deltas, Holds (file.readDelta kind) root deltas ∧ deltas.length ≤ file.length ∧
    DeltaTables.Tracks kind.rowId deltas table dirty

theorem readDelta_append {file : StoredFile} (later : StoredFile) {kind : CatalogTableKind}
    {root : SegmentPlace} {link : Link SegmentPlace (List kind.Row)}
    (found : file.readDelta kind root = some link) :
    StoredFile.readDelta (file ++ later) kind root = some link := by
  obtain ⟨content, read, decoded⟩ := Option.bind_eq_some_iff.mp found
  exact Option.bind_eq_some_iff.mpr ⟨content, readSegment_append later read, decoded⟩

/-- A delta that was encoded decodes to its rows. -/
theorem decodeDelta_encode {kind : CatalogTableKind} {previous : Option SegmentPlace}
    {rows : List kind.Row} {content : SegmentContent}
    (encoded : encodeCatalogDelta kind previous rows = .ok content) :
    StoredFile.decodeDelta kind content = some ⟨previous, rows⟩ := by
  cases kind with
  | frame =>
      simp only [encodeCatalogDelta, Outcome.bind_eq_ok, Outcome.pure_eq, Outcome.ok.injEq] at encoded
      obtain ⟨columns, columnsEncoded, same⟩ := encoded
      rw [← same]
      simp [StoredFile.decodeDelta, StoredFile.decodeFrameDelta,
        decodeFrameCatalog_encode columnsEncoded, Outcome.toOption]
  | _ =>
      simp only [encodeCatalogDelta, Outcome.pure_eq, Outcome.ok.injEq] at encoded
      rw [← encoded]
      rfl

namespace Chained

variable {file : StoredFile} {root : Option SegmentPlace} {kind : CatalogTableKind}
  {table : List kind.Row} {dirty : List Nat}

theorem append (chained : Chained file root kind table dirty) (later : StoredFile) :
    Chained (file ++ later) root kind table dirty := by
  obtain ⟨deltas, held, fit, tracks⟩ := chained
  refine ⟨deltas, held.mono fun _ _ found => readDelta_append later found, ?_, tracks⟩
  simp only [List.length_append]
  omega

theorem upsert (chained : Chained file root kind table dirty) (row : kind.Row) :
    Chained file root kind (upsert kind.rowId row table) (markDirty (kind.rowId row) dirty) := by
  obtain ⟨deltas, held, fit, tracks⟩ := chained
  exact ⟨deltas, held, fit, tracks.upsert row⟩

/-- The dirty rows, written as a new link, leave nothing dirty. -/
theorem flush (chained : Chained file root kind table dirty) {content : SegmentContent}
    (encoded : encodeCatalogDelta kind root (dirtyRecords kind.rowId table dirty) = .ok content)
    (segmentId : SegmentId) :
    Chained (file ++ [⟨segmentId, content⟩]) (some ⟨segmentId, file.length⟩) kind table [] := by
  obtain ⟨deltas, held, fit, tracks⟩ := chained
  refine ⟨deltas ++ [dirtyRecords kind.rowId table dirty],
    .link ?_ (held.mono fun _ _ found => readDelta_append _ found), by simpa using fit, tracks.flush⟩
  exact Option.bind_eq_some_iff.mpr
    ⟨content, readSegment_last file segmentId content, decodeDelta_encode encoded⟩

theorem readCatalogChainDedup_eq {deltas : List (List kind.Row)}
    (distinct : ∀ delta ∈ deltas, (delta.map kind.rowId).Nodup) :
    readCatalogChainDedup kind deltas = replay kind.rowId deltas := by
  unfold readCatalogChainDedup
  split
  · exact (replay_single (distinct _ (List.mem_singleton_self _))).symm
  · rfl

theorem foldDeltas_eq {deltas : List (List kind.Row)}
    (distinct : ∀ delta ∈ deltas, (delta.map kind.rowId).Nodup) :
    foldDeltas kind deltas = replay kind.rowId deltas := by
  cases kind with
  | frame => exact replayNewestFirst_eq distinct
  | collection => rfl
  | segment => rfl
  | _ => exact readCatalogChainDedup_eq distinct

/-- With nothing dirty, an open reads the table back. -/
theorem readTable (chained : Chained file root kind table []) {body : FooterBody}
    (rooted : body.roots kind = root) : readTable file body kind = .ok table := by
  obtain ⟨deltas, held, fit, tracks⟩ := chained
  rw [Valise.readTable, rooted, held.walk file.length fit]
  simp only [foldDeltas_eq tracks.distinct, tracks.replay_eq, Outcome.pure_eq]

end Chained

/-! ### All that an open reads -/

/-- The chains of a text space can be walked to their ends. -/
structure Readable (file : TextFile) (roots : TextRoots) : Prop where
  terms : ∃ dictionaries, Holds file.readTermDictionary roots.termDictionaryRoot dictionaries ∧
    dictionaries.length ≤ file.length
  postings : ∃ segments, Holds file.readPostings roots.postingsRoot segments ∧
    segments.length ≤ file.length
  docStats : ∃ stats, Holds file.readDocStats roots.docStatsRoot stats ∧
    stats.length ≤ file.length

/-- The roots of a footer lead to what they should. -/
structure Rooted (file : StoredFile) (tables : Tables) (texts : TextSpaceId → TextHandle)
    (body : FooterBody) (dirty : CatalogTableKind → List Nat) : Prop where
  chained : ∀ kind, Chained file (body.roots kind) kind (tables kind) (dirty kind)
  filters : ∀ entry ∈ body.collectionFilterRoots, ∃ collectionId frameIds vectorIds,
    file.readSegment entry.2 = some (.collectionFilter collectionId frameIds vectorIds)
  timeIndex : ∀ root, body.timeIndexRoot = some root →
    ∃ entries, file.readSegment root = some (.timeIndex entries)
  texts : ∀ textSpaceId, Readable (texts textSpaceId).file (body.textRootsOf textSpaceId)

def RowLoads (file : StoredFile) (analyzers : List AnalyzerDesc) :
    (kind : CatalogTableKind) → kind.Row → Prop
  | .codec, row => ∃ params, loadCodec file row = .ok params
  | .textSpace, row => ∃ analyzer, loadAnalyzer analyzers row = .ok analyzer
  | _, _ => True

structure Stored (handle : ValiseFile) : Prop where
  rooted : Rooted handle.file handle.tables handle.textOf handle.footer handle.dirtyIds
  textRoots : ∀ textSpaceId, handle.footer.textRootsOf textSpaceId = (handle.textOf textSpaceId).roots
  stubs : handle.frameStubs = (handle.tables .frame).map FrameDesc.stub
  ids : ∀ kind ≠ .segment, ∀ row ∈ handle.tables kind,
    0 < kind.rowId row ∧ kind.rowId row < handle.idAllocator.counter kind
  loads : ∀ kind, ∀ row ∈ handle.tables kind,
    RowLoads handle.file (handle.tables .analyzer) kind row

/-- No payload and no vector waits for a commit. -/
structure NothingWaits (handle : ValiseFile) : Prop where
  payloads : handle.pendingPayloadFrames = []
  vectors : ∀ key batch, handle.batch key = some batch → batch.vectors = []

/-- Nothing is dirty unless the flag is set. -/
structure Clean (handle : ValiseFile) : Prop where
  published : handle.published = handle.footer
  dirtyIds : ∀ kind, handle.dirtyIds kind = []
  settled : NothingWaits handle

def CleanUnlessDirty (handle : ValiseFile) : Prop := handle.dirty = false → Clean handle

theorem Readable.append {file : TextFile} {roots : TextRoots} (readable : Readable file roots)
    (later : TextFile) : Readable (file ++ later) roots := by
  obtain ⟨⟨dictionaries, terms, termsFit⟩, ⟨segments, postings, postingsFit⟩, stats, docStats,
    statsFit⟩ := readable
  have longer : file.length ≤ (file ++ later).length := by simp
  exact ⟨⟨dictionaries, terms.mono (readTermDictionary_grow _), termsFit.trans longer⟩,
    ⟨segments, postings.mono (readPostings_grow _), postingsFit.trans longer⟩,
    stats, docStats.mono (readDocStats_grow _), statsFit.trans longer⟩

theorem Readable.flush {file : TextFile} {roots : TextRoots} (readable : Readable file roots)
    (out : FlushOutput) : Readable (TextHandle.appendFlush file roots out).1
      (TextHandle.appendFlush file roots out).2 := by
  obtain ⟨⟨dictionaries, terms, termsFit⟩, ⟨segments, postings, postingsFit⟩, stats, docStats,
    statsFit⟩ := readable
  have longer : (TextHandle.appendFlush file roots out).1.length = file.length + 3 := by
    simp [TextHandle.appendFlush]
  refine ⟨⟨dictionaries ++ [out.termDictSegment],
      .link ?_ (terms.mono (readTermDictionary_grow _)), ?_⟩,
    ⟨segments ++ [out.postingsSegment], .link ?_ (postings.mono (readPostings_grow _)), ?_⟩,
    stats ++ [out.docStatsSegment], .link ?_ (docStats.mono (readDocStats_grow _)), ?_⟩
  · simp [TextFile.readTermDictionary, TextHandle.appendFlush]
  · simp only [longer, List.length_append, List.length_singleton]
    omega
  · simp [TextFile.readPostings, TextHandle.appendFlush]
  · simp only [longer, List.length_append, List.length_singleton]
    omega
  · simp [TextFile.readDocStats, TextHandle.appendFlush]
  · simp only [longer, List.length_append, List.length_singleton]
    omega

theorem Readable.rebuilds {file : TextFile} {roots : TextRoots} (readable : Readable file roots) :
    ∃ state, rebuildTextSpaceState file roots = some state := by
  obtain ⟨⟨dictionaries, terms, termsFit⟩, ⟨segments, postings, postingsFit⟩, stats, docStats,
    statsFit⟩ := readable
  simp [rebuildTextSpaceState, terms.walk _ termsFit, postings.walk _ postingsFit,
    docStats.walk _ statsFit]

/-! ### The open succeeds -/

theorem readTables_eq {file : StoredFile} {body : FooterBody} {tables : Tables}
    (read : ∀ kind, readTable file body kind = .ok (tables kind)) :
    readTables file body = .ok tables := by
  simp only [readTables, read, Outcome.ok_bind, Outcome.pure_eq, Outcome.ok.injEq]
  funext kind
  cases kind <;> rfl

theorem observeIds_ok {kind : CatalogTableKind} {observed : List Nat}
    (valid : ∀ id ∈ observed, 0 < id ∧ id + 1 < kind.idLimit) (ids : IdAllocator) :
    ∃ after, observeIds kind observed ids = .ok after := by
  induction observed generalizing ids with
  | nil => exact ⟨ids, rfl⟩
  | cons id rest ih =>
      have here := valid id List.mem_cons_self
      have taken : ¬(id = 0 ∨ kind.idLimit ≤ id + 1) := by omega
      rw [observeIds, if_neg taken]
      exact ih (fun other member => valid other (List.mem_cons_of_mem _ member)) _

theorem observeCatalogIds_ok {tables : Tables} {kinds : List CatalogTableKind}
    (valid : ∀ kind ∈ kinds, ∀ row ∈ tables kind,
      0 < kind.rowId row ∧ kind.rowId row + 1 < kind.idLimit) (ids : IdAllocator) :
    ∃ after, observeCatalogIds tables kinds ids = .ok after := by
  induction kinds generalizing ids with
  | nil => exact ⟨ids, rfl⟩
  | cons kind kinds ih =>
      have here : ∀ id ∈ (tables kind).map kind.rowId, 0 < id ∧ id + 1 < kind.idLimit := by
        intro id member
        obtain ⟨row, inside, rfl⟩ := List.mem_map.mp member
        exact valid kind List.mem_cons_self row inside
      obtain ⟨after, observed⟩ := observeIds_ok here ids
      rw [observeCatalogIds, observed, Outcome.ok_bind]
      exact ih (fun other member => valid other (List.mem_cons_of_mem _ member)) after

theorem counter_lt (ids : IdAllocator) (kind : CatalogTableKind) :
    ids.counter kind < kind.idLimit := by
  cases kind <;> first | exact UInt32.toNat_lt _ | exact UInt64.toNat_lt _

theorem buildCodecCache_ok {file : StoredFile} {codecs : List CodecDesc}
    (loads : ∀ codec ∈ codecs, ∃ params, loadCodec file codec = .ok params)
    (cache : List (CodecId × CodecParams)) :
    ∃ after, buildCodecCache file codecs cache = .ok after := by
  induction codecs generalizing cache with
  | nil => exact ⟨cache, rfl⟩
  | cons codec codecs ih =>
      obtain ⟨params, loaded⟩ := loads codec List.mem_cons_self
      rw [buildCodecCache, loaded, Outcome.ok_bind]
      exact ih (fun other member => loads other (List.mem_cons_of_mem _ member)) _

theorem buildAnalyzerCache_ok {analyzers : List AnalyzerDesc} {spaces : List TextSpaceDesc}
    (loads : ∀ space ∈ spaces, ∃ analyzer, loadAnalyzer analyzers space = .ok analyzer)
    (cache : List (TextSpaceId × AnalyzerDesc)) :
    ∃ after, buildAnalyzerCache analyzers spaces cache = .ok after := by
  induction spaces generalizing cache with
  | nil => exact ⟨cache, rfl⟩
  | cons space spaces ih =>
      obtain ⟨analyzer, loaded⟩ := loads space List.mem_cons_self
      rw [buildAnalyzerCache, loaded, Outcome.ok_bind]
      exact ih (fun other member => loads other (List.mem_cons_of_mem _ member)) _

theorem rebuildAllTextSpaceStates_ok {files : TextSpaceId → TextFile} {body : FooterBody}
    (readable : ∀ textSpaceId, Readable (files textSpaceId) (body.textRootsOf textSpaceId))
    (spaces : List TextSpaceDesc) (states : List (TextSpaceId × TextSpaceState)) :
    ∃ after, rebuildAllTextSpaceStates files body spaces states = .ok after := by
  induction spaces generalizing states with
  | nil => exact ⟨states, rfl⟩
  | cons space spaces ih =>
      obtain ⟨state, rebuilt⟩ := (readable space.textSpaceId).rebuilds
      simp only [rebuildAllTextSpaceStates, rebuilt]
      exact ih _

theorem loadCollectionFilterCache_ok {file : StoredFile} {roots : List (CollectionId × SegmentPlace)}
    (stored : ∀ entry ∈ roots, ∃ collectionId frameIds vectorIds,
      file.readSegment entry.2 = some (.collectionFilter collectionId frameIds vectorIds))
    (cache : List (CollectionId × List FrameId × List VectorId)) :
    ∃ after, loadCollectionFilterCache file roots cache = .ok after := by
  induction roots generalizing cache with
  | nil => exact ⟨cache, rfl⟩
  | cons entry roots ih =>
      obtain ⟨collectionId, frameIds, vectorIds, read⟩ := stored entry List.mem_cons_self
      simp only [loadCollectionFilterCache, read]
      exact ih (fun other member => stored other (List.mem_cons_of_mem _ member)) _

theorem loadTimeIndexCache_ok {file : StoredFile} {root : Option SegmentPlace}
    (stored : ∀ place, root = some place →
      ∃ entries, file.readSegment place = some (.timeIndex entries)) :
    ∃ after, loadTimeIndexCache file root = .ok after := by
  cases root with
  | none => exact ⟨[], rfl⟩
  | some place =>
      obtain ⟨entries, read⟩ := stored place rfl
      exact ⟨entries, by simp [loadTimeIndexCache, read]⟩

/-- An open reads back the tables that the published footer roots. -/
theorem opens_rooted {handle : ValiseFile} {tables : Tables}
    (rooted : Rooted handle.file tables handle.textOf handle.published fun _ => [])
    (valid : ∀ kind ∈ CatalogTableKind.flushOrder, ∀ row ∈ tables kind,
      0 < kind.rowId row ∧ kind.rowId row + 1 < kind.idLimit)
    (loads : ∀ kind, ∀ row ∈ tables kind, RowLoads handle.file (tables .analyzer) kind row) :
    ∃ state, handle.opened = .ok state ∧ state.tables = tables ∧
      state.frameStubs = (tables .frame).map FrameDesc.stub := by
  have read : readTables handle.file handle.published = .ok tables :=
    readTables_eq fun kind => (rooted.chained kind).readTable rfl
  obtain ⟨ids, observed⟩ := observeCatalogIds_ok valid handle.published.idAllocator
  obtain ⟨codecs, codecsBuilt⟩ := buildCodecCache_ok (loads .codec) []
  obtain ⟨analyzers, analyzersBuilt⟩ := buildAnalyzerCache_ok (loads .textSpace) []
  obtain ⟨states, statesBuilt⟩ :=
    rebuildAllTextSpaceStates_ok rooted.texts (tables .textSpace) []
  obtain ⟨filters, filtersLoaded⟩ := loadCollectionFilterCache_ok rooted.filters []
  obtain ⟨timeIndex, timeIndexLoaded⟩ := loadTimeIndexCache_ok rooted.timeIndex
  refine ⟨⟨tables, (tables .frame).map FrameDesc.stub, ids, codecs, analyzers, states, filters,
    timeIndex⟩, ?_, rfl, rfl⟩
  simp only [ValiseFile.opened, loadOpenState, read, Outcome.ok_bind, observed, codecsBuilt,
    analyzersBuilt, statesBuilt, filtersLoaded, timeIndexLoaded, Outcome.pure_eq]

theorem Stored.validIds {handle : ValiseFile} (stored : Stored handle) :
    ∀ kind ∈ CatalogTableKind.flushOrder, ∀ row ∈ handle.tables kind,
      0 < kind.rowId row ∧ kind.rowId row + 1 < kind.idLimit := by
  intro kind flushed row member
  obtain ⟨positive, below⟩ :=
    stored.ids kind ((CatalogTableKind.mem_flushOrder kind).mp flushed) row member
  have := counter_lt handle.idAllocator kind
  omega

/-- With nothing dirty, an open of the file finds the catalog of the handle. -/
theorem Stored.opens {handle : ValiseFile} (stored : Stored handle) (clean : Clean handle) :
    ∃ state, handle.opened = .ok state ∧ state.tables = handle.tables ∧
      state.frameStubs = handle.frameStubs := by
  have rooted : Rooted handle.file handle.tables handle.textOf handle.published fun _ => [] := by
    have same : handle.dirtyIds = fun _ => [] := funext clean.dirtyIds
    rw [clean.published, ← same]
    exact stored.rooted
  rw [stored.stubs]
  exact opens_rooted rooted stored.validIds stored.loads

end Valise
