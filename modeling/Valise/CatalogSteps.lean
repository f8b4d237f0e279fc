import Valise.StoredCatalog

/-!
The operations of a handle keep what its file holds of the catalog.
-/

namespace Valise

open ByteLists Chains Commands Command DeltaTables Outcomes SortedTables

/-! ### What the changes of a handle keep -/

theorem loadCodec_append {file : StoredFile} (later : StoredFile) {codec : CodecDesc}
    {params : CodecParams} (loaded : loadCodec file codec = .ok params) :
    loadCodec (file ++ later) codec = .ok params := by
  unfold loadCodec at loaded ⊢
  split at loaded
  · rename_i read
    rw [readSegment_append later read]
    exact loaded
  · simp at loaded

theorem RowLoads.append {file : StoredFile} {analyzers : List AnalyzerDesc} (later : StoredFile)
    {kind : CatalogTableKind} {row : kind.Row} (loads : RowLoads file analyzers kind row) :
    RowLoads (file ++ later) analyzers kind row := by
  cases kind with
  | codec =>
      obtain ⟨params, loaded⟩ := loads
      exact ⟨params, loadCodec_append later loaded⟩
  | textSpace => exact loads
  | _ => trivial

theorem RowLoads.upsertAnalyzer {file : StoredFile} {analyzers : List AnalyzerDesc}
    {analyzer : AnalyzerDesc}
    (fresh : find (CatalogTableKind.rowId .analyzer) analyzer.analyzerId.toNat analyzers = none)
    {kind : CatalogTableKind} {row : kind.Row} (loads : RowLoads file analyzers kind row) :
    RowLoads file (upsert (CatalogTableKind.rowId .analyzer) analyzer analyzers) kind row := by
  cases kind with
  | textSpace =>
      obtain ⟨found, loaded⟩ := loads
      refine ⟨found, ?_⟩
      rw [loadAnalyzer, find_upsert_other]
      · exact loaded
      · intro same
        have missing : find (CatalogTableKind.rowId .analyzer) row.analyzerId.toNat analyzers =
            none := same ▸ fresh
        simp [loadAnalyzer, missing] at loaded
  | codec => exact loads
  | _ => trivial

section Rooted

variable {file : StoredFile} {tables : Tables} {texts : TextSpaceId → TextHandle}
  {body : FooterBody} {dirty : CatalogTableKind → List Nat}

theorem Rooted.append (rooted : Rooted file tables texts body dirty) (later : StoredFile) :
    Rooted (file ++ later) tables texts body dirty where
  chained kind := (rooted.chained kind).append later
  filters entry member := by
    obtain ⟨collectionId, frameIds, vectorIds, read⟩ := rooted.filters entry member
    exact ⟨collectionId, frameIds, vectorIds, readSegment_append later read⟩
  timeIndex root found := by
    obtain ⟨entries, read⟩ := rooted.timeIndex root found
    exact ⟨entries, readSegment_append later read⟩
  texts := rooted.texts

/-- A table may change when its chain keeps track of it. -/
theorem Rooted.setTable (rooted : Rooted file tables texts body dirty) {kind : CatalogTableKind}
    {table : List kind.Row} {marked : List Nat}
    (chained : Chained file (body.roots kind) kind table marked) :
    Rooted file (Function.update tables kind table) texts body (Function.update dirty kind marked) where
  chained other := by
    by_cases same : other = kind
    · subst same
      simpa using chained
    · rw [Function.update_of_ne same, Function.update_of_ne same]
      exact rooted.chained other
  filters := rooted.filters
  timeIndex := rooted.timeIndex
  texts := rooted.texts

theorem Rooted.setText (rooted : Rooted file tables texts body dirty)
    {after : TextSpaceId → TextHandle}
    (kept : ∀ textSpaceId, ∃ later, (after textSpaceId).file = (texts textSpaceId).file ++ later) :
    Rooted file tables after body dirty where
  chained := rooted.chained
  filters := rooted.filters
  timeIndex := rooted.timeIndex
  texts textSpaceId := by
    obtain ⟨later, grown⟩ := kept textSpaceId
    rw [grown]
    exact (rooted.texts textSpaceId).append later

end Rooted

theorem textOf_setText (handle : ValiseFile) (textSpaceId other : TextSpaceId) (text : TextHandle) :
    (handle.setText textSpaceId text).textOf other =
      if textSpaceId = other then text else handle.textOf other := by
  simp only [ValiseFile.textOf, ValiseFile.setText,
    valueAt_store UInt32.toNat (fun _ _ => UInt32.toNat_inj.mp)]
  split <;> rfl

namespace Stored

variable {handle : ValiseFile}

theorem append (stored : Stored handle) (later : StoredFile) :
    Stored { handle with file := handle.file ++ later } where
  rooted := stored.rooted.append later
  textRoots := stored.textRoots
  stubs := stored.stubs
  ids := stored.ids
  loads kind row member := (stored.loads kind row member).append later

/-- A row with a valid id that loads may be written into any table but the frames. -/
theorem upsertRow (stored : Stored handle) (kind : CatalogTableKind) (notFrame : kind ≠ .frame)
    (row : kind.Row)
    (valid : kind ≠ .segment → 0 < kind.rowId row ∧
      kind.rowId row < handle.idAllocator.counter kind)
    (loads : RowLoads handle.file (handle.tables .analyzer) kind row)
    (fresh : kind = .analyzer → find kind.rowId (kind.rowId row) (handle.tables kind) = none) :
    Stored (handle.upsertRow kind row) where
  rooted := stored.rooted.setTable ((stored.rooted.chained kind).upsert row)
  textRoots := stored.textRoots
  stubs := by
    simp only [ValiseFile.upsertRow, ValiseFile.setTable, Function.update_of_ne (Ne.symm notFrame)]
    exact stored.stubs
  ids other notSegment written member := by
    simp only [ValiseFile.upsertRow, ValiseFile.setTable] at member ⊢
    by_cases same : other = kind
    · subst same
      rw [Function.update_self] at member
      rcases mem_upsert _ member with new | kept
      · exact new ▸ valid notSegment
      · exact stored.ids other notSegment written kept
    · rw [Function.update_of_ne same] at member
      exact stored.ids other notSegment written member
  loads other written member := by
    have before : RowLoads handle.file (handle.tables .analyzer) other written := by
      simp only [ValiseFile.upsertRow, ValiseFile.setTable] at member
      by_cases same : other = kind
      · subst same
        rw [Function.update_self] at member
        rcases mem_upsert _ member with new | kept
        · exact new ▸ loads
        · exact stored.loads other written kept
      · rw [Function.update_of_ne same] at member
        exact stored.loads other written member
    by_cases analyzer : kind = .analyzer
    · subst analyzer
      simp only [ValiseFile.upsertRow, ValiseFile.setTable, Function.update_self]
      exact before.upsertAnalyzer (fresh rfl)
    · simp only [ValiseFile.upsertRow, ValiseFile.setTable,
        Function.update_of_ne (Ne.symm analyzer)]
      exact before

theorem registerSegment (stored : Stored handle) (entry : SegmentCatalogEntry) :
    Stored (handle.upsertRow .segment entry) :=
  stored.upsertRow .segment (by decide) entry (by simp) trivial nofun

theorem upsertFrame (stored : Stored handle) (frame : FrameDesc)
    (valid : 0 < frame.frameId.toNat ∧
      frame.frameId.toNat < handle.idAllocator.counter .frame) :
    Stored (handle.upsertFrame frame) where
  rooted := stored.rooted.setTable ((stored.rooted.chained .frame).upsert frame)
  textRoots := stored.textRoots
  stubs := by
    simp only [ValiseFile.upsertFrame, ValiseFile.upsertRow, ValiseFile.setTable,
      Function.update_self, stored.stubs]
    exact (map_upsert _ (fun _ => rfl) frame _).symm
  ids other notSegment written member := by
    simp only [ValiseFile.upsertFrame, ValiseFile.upsertRow, ValiseFile.setTable] at member ⊢
    by_cases same : other = .frame
    · subst same
      rw [Function.update_self] at member
      rcases mem_upsert _ member with new | kept
      · exact new ▸ valid
      · exact stored.ids .frame notSegment written kept
    · rw [Function.update_of_ne same] at member
      exact stored.ids other notSegment written member
  loads other written member := by
    simp only [ValiseFile.upsertFrame, ValiseFile.upsertRow, ValiseFile.setTable,
      Function.update_of_ne (show CatalogTableKind.analyzer ≠ .frame by decide)] at member ⊢
    by_cases same : other = .frame
    · subst same
      trivial
    · rw [Function.update_of_ne same] at member
      exact stored.loads other written member

/-- Frames rewritten in place keep their ids and their status, and every rewritten one is marked. -/
theorem rewriteFrames (stored : Stored handle) (change : FrameDesc → FrameDesc) (marked : List Nat)
    (named : ∀ frame, (change frame).frameId = frame.frameId)
    (status : ∀ frame, (change frame).status = frame.status)
    (marks : ∀ frame ∈ handle.tables .frame, change frame ≠ frame → frame.frameId.toNat ∈ marked)
    (known : ∀ id ∈ marked, ∃ frame,
      find (CatalogTableKind.rowId .frame) id (handle.tables .frame) = some frame) :
    Stored (handle.setTable .frame ((handle.tables .frame).map change) marked) where
  rooted := by
    obtain ⟨deltas, held, fit, tracks⟩ := stored.rooted.chained .frame
    refine stored.rooted.setTable ⟨deltas, held, fit, tracks.rewrite (fun frame => ?_) marks known⟩
    exact congrArg UInt64.toNat (named frame)
  textRoots := stored.textRoots
  stubs := by
    simp only [ValiseFile.setTable, Function.update_self, stored.stubs, List.map_map]
    refine List.map_congr_left fun frame _ => ?_
    simp only [Function.comp_apply, FrameDesc.stub, named, status]
  ids other notSegment written member := by
    simp only [ValiseFile.setTable] at member ⊢
    by_cases same : other = .frame
    · subst same
      rw [Function.update_self] at member
      obtain ⟨frame, inside, rfl⟩ := List.mem_map.mp member
      have valid := stored.ids .frame notSegment frame inside
      simp only [CatalogTableKind.rowId, named] at valid ⊢
      exact valid
    · rw [Function.update_of_ne same] at member
      exact stored.ids other notSegment written member
  loads other written member := by
    simp only [ValiseFile.setTable,
      Function.update_of_ne (show CatalogTableKind.analyzer ≠ .frame by decide)] at member ⊢
    by_cases same : other = .frame
    · subst same
      trivial
    · rw [Function.update_of_ne same] at member
      exact stored.loads other written member

theorem allocated (stored : Stored handle) {ids : IdAllocator}
    (grown : ∀ kind, handle.idAllocator.counter kind ≤ ids.counter kind) :
    Stored { handle with idAllocator := ids } where
  rooted := stored.rooted
  textRoots := stored.textRoots
  stubs := stored.stubs
  ids kind notSegment row member := by
    obtain ⟨positive, below⟩ := stored.ids kind notSegment row member
    exact ⟨positive, lt_of_lt_of_le below (grown kind)⟩
  loads := stored.loads

/-- A text space's state and pending frames may change, and its file may grow. -/
theorem setText (stored : Stored handle) (textSpaceId : TextSpaceId) (text : TextHandle)
    (roots : text.roots = (handle.textOf textSpaceId).roots)
    (grown : ∃ later, text.file = (handle.textOf textSpaceId).file ++ later) :
    Stored (handle.setText textSpaceId text) := by
  exact {
    rooted := by
      refine stored.rooted.setText fun other => ?_
      rw [textOf_setText]
      split
      · rename_i same
        exact same ▸ grown
      · exact ⟨[], (List.append_nil _).symm⟩
    textRoots := by
      intro other
      rw [textOf_setText]
      split
      · rename_i same
        rw [roots, ← same]
        exact stored.textRoots textSpaceId
      · exact stored.textRoots other
    stubs := stored.stubs
    ids := stored.ids
    loads := stored.loads }

end Stored

end Valise
