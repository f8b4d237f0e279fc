import Valise.CatalogRuns
import Valise.TimeIndex

/-!
Calls that change nothing that a property looks at: such a property sees the frames as the time
index sees them, the rows of the tables that it watches, and what was written for them so far.
-/

namespace Valise

open ByteLists Commands Command Outcomes SortedTables

/-- What the time index can see of a frame. -/
abbrev DatedFrame := TimeIndexEntry × FrameStatus

def FrameDesc.dated (frame : FrameDesc) : DatedFrame := (frame.indexEntry, frame.status)

def DatedFrame.id (frame : DatedFrame) : Nat := frame.1.frameId.toNat

def ValiseFile.dates (handle : ValiseFile) : List DatedFrame :=
  (handle.tables .frame).map FrameDesc.dated

@[simp] theorem payloadFixup_dated (segmentId : SegmentId) (pending : List PendingPayloadFrame)
    (frame : FrameDesc) : (payloadFixup segmentId pending frame).dated = frame.dated := by
  unfold payloadFixup
  split <;> rfl

@[simp] theorem uriFixup_dated (segmentId : SegmentId) (pending : List PendingUri)
    (frame : FrameDesc) : (uriFixup segmentId pending frame).dated = frame.dated := by
  unfold uriFixup
  split <;> rfl

/-- Two handles that agree on the watched tables. More ids may be dirty in the second, and its
file may be longer. -/
structure SameSeen (watched : CatalogTableKind → Prop) (before after : ValiseFile) : Prop where
  frames : watched .frame → after.dates = before.dates
  stubs : after.frameStubs = before.frameStubs
  rows : ∀ kind ≠ .frame, watched kind → after.tables kind = before.tables kind
  dirtyIds : ∀ kind, watched kind → ∀ id ∈ before.dirtyIds kind, id ∈ after.dirtyIds kind
  counters : ∀ kind, watched kind →
    after.idAllocator.counter kind = before.idAllocator.counter kind
  file : ∃ later, after.file = before.file ++ later
  published : after.published = before.published
  footer : after.footer = before.footer
  filters : after.collectionFilterCache = before.collectionFilterCache
  timeIndex : after.timeIndexCache = before.timeIndexCache

theorem SameSeen.refl {watched : CatalogTableKind → Prop} (handle : ValiseFile) :
    SameSeen watched handle handle where
  frames _ := rfl
  stubs := rfl
  rows _ _ _ := rfl
  dirtyIds _ _ _ listed := listed
  counters _ _ := rfl
  file := ⟨[], (List.append_nil _).symm⟩
  published := rfl
  footer := rfl
  filters := rfl
  timeIndex := rfl

/-- What can be seen of a handle. -/
def ValiseFile.seen (handle : ValiseFile) :=
  (handle.tables, handle.frameStubs, handle.dirtyIds, handle.idAllocator, handle.file,
    handle.published, handle.footer, handle.collectionFilterCache, handle.timeIndexCache)

theorem SameSeen.of_seen {watched : CatalogTableKind → Prop} {before after : ValiseFile}
    (same : after.seen = before.seen) : SameSeen watched before after := by
  simp only [ValiseFile.seen, Prod.mk.injEq] at same
  obtain ⟨tables, stubs, dirtyIds, ids, file, published, footer, filters, timeIndex⟩ := same
  constructor
  · intro _
    rw [ValiseFile.dates, tables]
    rfl
  · exact stubs
  · intro kind _ _
    rw [tables]
  · intro kind _ id listed
    rwa [dirtyIds]
  · intro kind _
    rw [ids]
  · exact ⟨[], by rw [file, List.append_nil]⟩
  · exact published
  · exact footer
  · exact filters
  · exact timeIndex

/-- The property cannot tell such handles apart. -/
def Overlooks (watched : CatalogTableKind → Prop) (property : ValiseFile → Prop) : Prop :=
  ∀ before after, SameSeen watched before after → property before → property after

/-- The roots of the filters and of the time index, which texts and tables leave alone. -/
def SameIndexes (before after : FooterBody) : Prop :=
  after.collectionFilterRoots = before.collectionFilterRoots ∧
    after.timeIndexRoot = before.timeIndexRoot

namespace Overlooks

variable {watched : CatalogTableKind → Prop} {property : ValiseFile → Prop}

theorem and {other : ValiseFile → Prop} (first : Overlooks watched property)
    (second : Overlooks watched other) :
    Overlooks watched fun handle => property handle ∧ other handle :=
  fun before after same holds =>
    ⟨first before after same holds.1, second before after same holds.2⟩

theorem keeps_modify (overlooks : Overlooks watched property) {change : ValiseFile → ValiseFile}
    (alike : ∀ handle, SameSeen watched handle (change handle)) :
    Keeps property (Command.modify change : Engine Unit) :=
  fun handle holds => overlooks handle (change handle) (alike handle) holds

theorem keeps_unseen (overlooks : Overlooks watched property) {change : ValiseFile → ValiseFile}
    (same : ∀ handle, (change handle).seen = handle.seen) :
    Keeps property (Command.modify change : Engine Unit) :=
  overlooks.keeps_modify fun handle => .of_seen (same handle)

theorem keeps_takes (overlooks : Overlooks watched property) {ι : Type} {allocateId : Engine ι}
    {kind : CatalogTableKind} {toNat : ι → Nat} (takes : Takes allocateId kind toNat)
    (unwatched : ¬watched kind) : Keeps property allocateId := by
  refine ((takes property).weaken (fun _ holds => holds) ?_ fun _ holds => holds).keeps
  rintro id _ ⟨earlier, ids, holds, took, rfl⟩
  refine overlooks earlier _
    { SameSeen.refl earlier with counters := fun other seen => took.others other ?_ } holds
  rintro rfl
  exact unwatched seen

theorem keeps_upsertRow (overlooks : Overlooks watched property) (kind : CatalogTableKind)
    (unwatched : ¬watched kind) (row : kind.Row) :
    Keeps property (Command.modify fun handle => handle.upsertRow kind row : Engine Unit) := by
  refine overlooks.keeps_modify fun handle => ?_
  have apart : ∀ other, watched other → other ≠ kind := by
    rintro _ seen rfl
    exact unwatched seen
  refine { SameSeen.refl handle with frames := ?_, rows := ?_, dirtyIds := ?_ }
  · intro seen
    simp only [ValiseFile.dates, ValiseFile.upsertRow, ValiseFile.setTable,
      Function.update_of_ne (apart .frame seen)]
  · intro other _ seen
    exact Function.update_of_ne (apart other seen) _ _
  · intro other seen id listed
    simp only [ValiseFile.upsertRow, ValiseFile.setTable, Function.update_of_ne (apart other seen)]
    exact listed

theorem keeps_markDirtyFlag (overlooks : Overlooks watched property) :
    Keeps property markDirtyFlag :=
  overlooks.keeps_unseen fun _ => rfl

theorem keeps_appendSegmentAtEnd (overlooks : Overlooks watched property) (point : IoPoint)
    (segmentId : SegmentId) (content : SegmentContent) :
    Keeps property (appendSegmentAtEnd point segmentId content) :=
  keeps_bind (fallible_keeps _) fun _ => keeps_bind keeps_get fun _ =>
    keeps_bind (overlooks.keeps_modify fun handle =>
      { SameSeen.refl handle with file := ⟨_, rfl⟩ }) fun _ => keeps_pure _

/-! ### Segments -/

section Segments

variable (overlooks : Overlooks watched property) (segments : ¬watched .segment)

include overlooks segments

theorem keeps_registerSegment (segmentId : SegmentId) (segmentType : SegmentType)
    (root : SegmentPlace) (itemCount : Nat) (compression : Compression) :
    Keeps property (registerSegment segmentId segmentType root itemCount compression) :=
  overlooks.keeps_upsertRow .segment segments _

theorem keeps_allocateSegmentId : Keeps property allocateSegmentId :=
  overlooks.keeps_takes allocateSegmentId_takes segments

theorem keeps_appendRegisteredSegment (point : IoPoint) (segmentType : SegmentType)
    (itemCount : Nat) (content : SegmentContent) :
    Keeps property (appendRegisteredSegment point segmentType itemCount content) :=
  keeps_bind (overlooks.keeps_allocateSegmentId segments) fun _ =>
    keeps_bind (overlooks.keeps_appendSegmentAtEnd _ _ _) fun _ =>
    keeps_bind (overlooks.keeps_registerSegment segments _ _ _ _ _) fun _ => keeps_pure _

/-- The new segment can be read back from its root. -/
theorem meets_appendRegisteredSegment (point : IoPoint) (segmentType : SegmentType)
    (itemCount : Nat) (content : SegmentContent) :
    Meets property (appendRegisteredSegment point segmentType itemCount content)
      (fun root handle => property handle ∧ handle.file.readSegment root = some content) property := by
  refine meets_bind (overlooks.keeps_allocateSegmentId segments).meets fun segmentId => ?_
  have appended : Meets property (appendSegmentAtEnd point segmentId content)
      (fun root handle => property handle ∧ handle.file.readSegment root = some content) property := by
    refine (meets_append fun _ holds => holds).weaken (fun _ holds => holds) ?_ fun _ holds => holds
    rintro _ _ ⟨earlier, holds, rfl, rfl⟩
    exact ⟨overlooks earlier _ { SameSeen.refl earlier with file := ⟨_, rfl⟩ } holds,
      readSegment_last _ _ _⟩
  refine meets_bind appended fun root => ?_
  have reads : Overlooks watched fun handle =>
      property handle ∧ handle.file.readSegment root = some content := by
    refine overlooks.and fun before after same found => ?_
    obtain ⟨later, grown⟩ := same.file
    rw [grown]
    exact readSegment_append later found
  have kept := reads.keeps_registerSegment segments segmentId segmentType root itemCount .none
  refine meets_bind (kept.meets.weaken (fun _ held => held) (fun _ _ held => held) ?_) fun _ =>
    meets_pure root fun _ held => held
  exact fun _ held => held.1

end Segments

/-! ### Registrations -/

/-- A row enters a table that is not watched. -/
theorem keeps_enter (overlooks : Overlooks watched property) {ι : Type} {kind : CatalogTableKind}
    {allocateId : Engine ι} {toNat : ι → Nat} (takes : Takes allocateId kind toNat)
    (unwatched : ¬watched kind) (row : ι → kind.Row) :
    Keeps property (do
      let id ← allocateId
      Command.modify fun handle => handle.upsertRow kind (row id)
      markDirtyFlag
      return id) :=
  keeps_bind (overlooks.keeps_takes takes unwatched) fun _ =>
    keeps_bind (overlooks.keeps_upsertRow _ unwatched _) fun _ =>
    keeps_bind overlooks.keeps_markDirtyFlag fun _ => keeps_pure _

theorem keeps_createCollectionAt (overlooks : Overlooks watched property)
    (unwatched : ¬watched .collection) (name : String) (createdAt : Int64) :
    Keeps property (createCollectionAt name createdAt) :=
  keeps_bind keeps_get fun _ => keeps_bind (keeps_lift _) fun _ =>
    overlooks.keeps_enter allocateCollectionId_takes unwatched _

theorem keeps_registerAnalyzer (overlooks : Overlooks watched property)
    (unwatched : ¬watched .analyzer) (desc : AnalyzerDesc) :
    Keeps property (registerAnalyzer desc) :=
  keeps_bind (ensureTextEnabled_keeps _) fun _ =>
    overlooks.keeps_enter allocateAnalyzerId_takes unwatched _

theorem keeps_registerFieldSchema (overlooks : Overlooks watched property)
    (unwatched : ¬watched .fieldSchema) (desc : FieldSchemaDesc) :
    Keeps property (registerFieldSchema desc) :=
  keeps_bind (ensureTextEnabled_keeps _) fun _ =>
    overlooks.keeps_enter allocateFieldSchemaId_takes unwatched _

theorem keeps_registerRetrievalProfile (overlooks : Overlooks watched property)
    (unwatched : ¬watched .retrievalProfile) (desc : RetrievalProfileDesc) :
    Keeps property (registerRetrievalProfile desc) :=
  keeps_bind (ensureTextEnabled_keeps _) fun _ =>
    overlooks.keeps_enter allocateRetrievalProfileId_takes unwatched _

theorem keeps_registerFusionProfile (overlooks : Overlooks watched property)
    (unwatched : ¬watched .fusionProfile) (desc : FusionProfileDesc) :
    Keeps property (registerFusionProfile desc) :=
  keeps_bind (keeps_lift _) fun _ => overlooks.keeps_enter allocateFusionProfileId_takes unwatched _

theorem keeps_registerEmbeddingSpace (overlooks : Overlooks watched property)
    (unwatched : ¬watched .embeddingSpace) (spec : EmbeddingSpaceSpec) :
    Keeps property (registerEmbeddingSpace spec) := by
  refine keeps_bind keeps_get fun _ => keeps_bind (keeps_lift _) fun _ =>
    keeps_bind (keeps_lift _) fun _ => keeps_bind (keeps_lift _) fun _ =>
    keeps_bind (keeps_lift _) fun _ => keeps_bind ?_ fun _ => keeps_bind (keeps_lift _) fun _ =>
    overlooks.keeps_enter allocateEmbeddingSpaceId_takes unwatched _
  cases spec.primaryCodecId with
  | none => exact keeps_lift _
  | some primaryId => exact checkPrimaryCodec_keeps _ _

theorem keeps_registerTextSpace (overlooks : Overlooks watched property)
    (unwatched : ¬watched .textSpace) (desc : TextSpaceDesc) :
    Keeps property (registerTextSpace desc) := by
  refine keeps_bind (ensureTextEnabled_keeps _) fun _ => keeps_bind keeps_get fun _ =>
    keeps_bind (keeps_lift _) fun _ => keeps_bind (keeps_lift _) fun _ =>
    keeps_bind (keeps_lift _) fun _ =>
    keeps_bind (overlooks.keeps_takes allocateTextSpaceId_takes unwatched) fun _ => ?_
  cases find (CatalogTableKind.rowId .analyzer) desc.analyzerId.toNat _ with
  | none => exact keeps_lift _
  | some analyzer =>
      exact keeps_bind (keeps_lift _) fun _ =>
        keeps_bind (overlooks.keeps_upsertRow .textSpace unwatched _) fun _ =>
        keeps_bind (overlooks.keeps_unseen fun _ => rfl) fun _ =>
        keeps_bind overlooks.keeps_markDirtyFlag fun _ => keeps_pure _

theorem keeps_registerCodec (overlooks : Overlooks watched property) (segments : ¬watched .segment)
    (unwatched : ¬watched .codec) (params : CodecParams) : Keeps property (registerCodec params) :=
  keeps_bind (keeps_lift _) fun _ =>
    keeps_bind (overlooks.keeps_allocateSegmentId segments) fun _ =>
    keeps_bind (overlooks.keeps_takes allocateCodecId_takes unwatched) fun _ =>
    keeps_bind (overlooks.keeps_appendSegmentAtEnd _ _ _) fun _ =>
    keeps_bind (fallible_keeps _) fun _ =>
    keeps_bind (overlooks.keeps_registerSegment segments _ _ _ _ _) fun _ =>
    keeps_bind (overlooks.keeps_upsertRow .codec unwatched _) fun _ =>
    keeps_bind overlooks.keeps_markDirtyFlag fun _ => keeps_bind (keeps_lift _) fun _ =>
    keeps_bind (overlooks.keeps_unseen fun _ => rfl) fun _ => keeps_pure _

/-! ### Buffers -/

section Buffers

variable (overlooks : Overlooks watched property) (segments : ¬watched .segment)

include overlooks segments

theorem keeps_flushPendingUris : Keeps property flushPendingUris := by
  refine keeps_bind keeps_get fun read => keeps_ite (keeps_pure _) ?_
  exact keeps_bind (overlooks.keeps_allocateSegmentId segments) fun _ =>
    keeps_bind (keeps_lift _) fun _ =>
    keeps_bind (overlooks.keeps_appendSegmentAtEnd _ _ _) fun _ =>
    keeps_bind (fallible_keeps _) fun _ =>
    keeps_bind (overlooks.keeps_registerSegment segments _ _ _ _ _) fun _ =>
    keeps_bind (overlooks.keeps_unseen fun _ => rfl) fun _ => keeps_pure _

omit overlooks segments in
/-- Frames rewritten in place show the time index what they did. -/
theorem sameSeen_rewrite (handle : ValiseFile) {change : FrameDesc → FrameDesc} (marked : List Nat)
    (same : ∀ frame, (change frame).dated = frame.dated) :
    SameSeen watched handle
      (handle.setTable .frame ((handle.tables .frame).map change) marked) := by
  refine { SameSeen.refl handle with frames := ?_, rows := ?_, dirtyIds := ?_ }
  · intro _
    simp only [ValiseFile.dates, ValiseFile.setTable, Function.update_self, List.map_map]
    exact List.map_congr_left fun frame _ => same frame
  · intro kind other _
    exact Function.update_of_ne other _ _
  · intro kind _ id listed
    by_cases here : kind = .frame
    · subst here
      simp only [ValiseFile.setTable, Function.update_self]
      exact DeltaTables.mem_upsertAll_ids.mpr (.inr listed)
    · simp only [ValiseFile.setTable, Function.update_of_ne here]
      exact listed

theorem keeps_flushPendingPayloads : Keeps property flushPendingPayloads := by
  refine keeps_bind keeps_get fun read => keeps_ite (keeps_pure _) ?_
  exact keeps_bind (overlooks.keeps_allocateSegmentId segments) fun _ =>
    keeps_bind (keeps_lift _) fun _ => keeps_bind (fallible_keeps _) fun _ =>
    keeps_bind (overlooks.keeps_appendSegmentAtEnd _ _ _) fun _ =>
    keeps_bind (fallible_keeps _) fun _ =>
    keeps_bind (overlooks.keeps_registerSegment segments _ _ _ _ _) fun _ =>
    keeps_bind (overlooks.keeps_flushPendingUris segments) fun _ =>
    keeps_bind (overlooks.keeps_modify fun handle =>
      { sameSeen_rewrite handle _ fun _ => by simp with }) fun _ =>
    keeps_bind (keeps_lift _) fun _ => overlooks.keeps_unseen fun _ => rfl

theorem keeps_flushFullPayloads : Keeps property flushFullPayloads :=
  keeps_bind keeps_get fun _ =>
    keeps_ite (overlooks.keeps_flushPendingPayloads segments) (keeps_pure _)

theorem keeps_openBatch (key : BatchKey) : Keeps property (openBatch key) := by
  refine keeps_bind keeps_get fun handle => ?_
  cases handle.batch key with
  | some batch => exact keeps_pure _
  | none =>
      exact keeps_bind (overlooks.keeps_allocateSegmentId segments) fun _ =>
        overlooks.keeps_unseen fun _ => rfl

end Buffers

section Vectors

variable (overlooks : Overlooks watched property)

include overlooks

theorem keeps_indexFrameText (analyze : Analyze) (frameId : FrameId) (textSpaceId : TextSpaceId) :
    Keeps property (indexFrameText analyze frameId textSpaceId) := by
  refine keeps_bind keeps_get fun handle => ?_
  cases handle.findFrame frameId with
  | none => exact keeps_lift _
  | some frame =>
      refine keeps_bind (keeps_lift _) fun _ => ?_
      cases valueAt UInt32.toNat textSpaceId handle.analyzerCache with
      | none => exact keeps_lift _
      | some analyzer =>
          refine keeps_bind (keeps_lift _) fun payload => ?_
          cases analyze analyzer payload with
          | none => exact keeps_lift _
          | some tokens =>
              exact keeps_bind (overlooks.keeps_unseen fun _ => rfl) fun _ =>
                overlooks.keeps_markDirtyFlag

theorem keeps_drainFullVectorChunks (key : BatchKey) :
    Keeps property (drainFullVectorChunks key) := by
  refine keeps_bind keeps_get fun handle => ?_
  cases handle.batch key with
  | none => exact keeps_lift _
  | some batch =>
      refine keeps_ite (keeps_lift _) (keeps_bind (overlooks.keeps_unseen fun _ => rfl) fun _ => ?_)
      cases valueAt UInt32.toNat key.2 handle.codecCache with
      | none => exact keeps_lift _
      | some params => exact keeps_bind (keeps_lift _) fun _ => overlooks.keeps_unseen fun _ => rfl

theorem keeps_putVector (segments : ¬watched .segment) (unwatched : ¬watched .vector)
    (input : PutVector) : Keeps property (putVector input) := by
  refine keeps_bind keeps_get fun handle => ?_
  cases handle.findFrame input.ownerFrameId with
  | none => exact keeps_lift _
  | some frame =>
    refine keeps_bind (keeps_lift _) fun _ => ?_
    cases find (CatalogTableKind.rowId .embeddingSpace) input.embeddingSpaceId.toNat
        (handle.tables .embeddingSpace) with
    | none => exact keeps_lift _
    | some space =>
      refine keeps_bind (keeps_lift _) fun _ => keeps_bind (keeps_lift _) fun _ => ?_
      cases space.primaryCodecId with
      | none => exact keeps_lift _
      | some codecId =>
        refine keeps_bind (keeps_lift _) fun _ =>
          keeps_bind (overlooks.keeps_openBatch segments _) fun _ =>
          keeps_bind (overlooks.keeps_takes allocateVectorId_takes unwatched) fun _ =>
          keeps_bind keeps_get fun handle => ?_
        cases handle.batch (input.embeddingSpaceId, codecId) with
        | none => exact keeps_lift _
        | some batch =>
          exact keeps_bind (overlooks.keeps_unseen fun _ => rfl) fun _ =>
            keeps_bind (overlooks.keeps_upsertRow .vector unwatched _) fun _ =>
            keeps_bind overlooks.keeps_markDirtyFlag fun _ =>
            keeps_bind (overlooks.keeps_drainFullVectorChunks _) fun _ => keeps_pure _

theorem keeps_deleteVector (unwatched : ¬watched .vector) (vectorId : VectorId) :
    Keeps property (deleteVector vectorId) := by
  refine keeps_bind keeps_get fun handle => keeps_bind (keeps_lift _) fun _ => ?_
  cases find (CatalogTableKind.rowId .vector) vectorId.toNat (handle.tables .vector) with
  | none => exact keeps_lift _
  | some desc =>
      exact keeps_bind (keeps_lift _) fun _ =>
        keeps_bind (overlooks.keeps_upsertRow .vector unwatched _) fun _ =>
        overlooks.keeps_markDirtyFlag

/-! ### The write phase of a commit -/

omit overlooks in
theorem encodeTail_keeps (batch : PendingVectorBatch) : Keeps property (encodeTail batch) := by
  refine keeps_ite (keeps_pure _) (keeps_bind keeps_get fun handle => ?_)
  cases valueAt UInt32.toNat batch.codecId handle.codecCache with
  | none => exact keeps_lift _
  | some params => exact keeps_bind (keeps_lift _) fun _ => keeps_pure _

variable (segments : ¬watched .segment)

include segments

theorem keeps_flushBatchAt (key : BatchKey) : Keeps property (flushBatchAt key) := by
  refine keeps_bind keeps_get fun handle => ?_
  cases handle.batch key with
  | none => exact keeps_lift _
  | some batch =>
      refine keeps_bind (overlooks.keeps_unseen fun _ => rfl) fun _ => keeps_ite (keeps_pure _) ?_
      exact keeps_bind (keeps_lift _) fun _ => keeps_bind (encodeTail_keeps _) fun _ =>
        keeps_bind (keeps_lift _) fun _ =>
        keeps_bind (overlooks.keeps_appendSegmentAtEnd _ _ _) fun _ =>
        keeps_bind (fallible_keeps _) fun _ => overlooks.keeps_registerSegment segments _ _ _ _ _

theorem keeps_flushPendingVectorBatches : Keeps property flushPendingVectorBatches :=
  keeps_bind keeps_get fun _ => keeps_forEach (overlooks.keeps_flushBatchAt segments) _

end Vectors

section Writes

variable (overlooks : Overlooks watched property) (segments : ¬watched .segment) {start : FooterBody}

include overlooks segments

theorem keeps_appendTextSegment (point : IoPoint) (segmentType : SegmentType) (itemCount : Nat)
    (textSpaceId : TextSpaceId) :
    Keeps property (appendTextSegment point segmentType itemCount textSpaceId) :=
  keeps_bind (overlooks.keeps_appendRegisteredSegment segments _ _ _ _) fun _ => keeps_pure _

theorem meets_flushPendingText (prepared : PreparedCommit) (textSpaceId : TextSpaceId) :
    Meets (fun handle => property handle ∧ SameIndexes start prepared.body)
      (flushPendingText prepared textSpaceId)
      (fun prepared handle => property handle ∧ SameIndexes start prepared.body) property := by
  refine meets_get_bind fun handle held => ?_
  have here : ∀ other, other = handle → property other := by
    rintro _ rfl
    exact held.1
  cases valueAt UInt32.toNat textSpaceId handle.texts with
  | none => exact meets_lift (fun _ _ ok => nomatch ok) here
  | some text =>
    by_cases empty : text.pending = []
    · simp only [if_pos empty]
      exact meets_pure _ fun other same => ⟨here other same, held.2⟩
    · simp only [if_neg empty]
      refine Meets.weaken (?_ : Meets property _ _ property) here (fun _ _ holds => holds)
        fun _ holds => holds
      exact meets_bind (overlooks.keeps_unseen fun _ => by rfl).meets fun _ =>
        meets_bind (keeps_lift _).meets fun _ =>
        meets_bind (overlooks.keeps_appendTextSegment segments _ _ _ _).meets fun _ =>
        meets_bind (overlooks.keeps_appendTextSegment segments _ _ _ _).meets fun _ =>
        meets_bind (overlooks.keeps_appendTextSegment segments _ _ _ _).meets fun _ =>
        meets_bind (overlooks.keeps_unseen fun _ => by rfl).meets fun _ =>
        meets_pure _ fun _ holds => ⟨holds, held.2⟩

theorem meets_flushPendingTextIndexes (prepared : PreparedCommit) :
    Meets (fun handle => property handle ∧ SameIndexes start prepared.body)
      (flushPendingTextIndexes prepared)
      (fun prepared handle => property handle ∧ SameIndexes start prepared.body) property := by
  refine meets_get_bind fun handle held => ?_
  have all := meets_foldEach
    (fun _ prepared handle => property handle ∧ SameIndexes start prepared.body)
    (fun textSpaceId _ prepared => overlooks.meets_flushPendingText segments prepared textSpaceId)
    (handle.texts.map Prod.fst) prepared
  refine all.weaken ?_ (fun _ _ after => after) fun _ holds => holds
  rintro _ rfl
  exact held

theorem meets_flushCatalogTable (body : FooterBody) (kind : CatalogTableKind) :
    Meets (fun handle => property handle ∧ SameIndexes start body) (flushCatalogTable body kind)
      (fun body handle => property handle ∧ SameIndexes start body) property := by
  refine meets_get_bind fun handle held => ?_
  have here : ∀ other, other = handle → property other := by
    rintro _ rfl
    exact held.1
  by_cases clean : handle.dirtyIds kind = []
  · rw [if_pos clean]
    exact meets_pure _ fun other same => ⟨here other same, held.2⟩
  · rw [if_neg clean]
    refine Meets.weaken (?_ : Meets property _ _ property) here (fun _ _ holds => holds)
      fun _ holds => holds
    exact meets_bind (fallible_keeps _).meets fun _ => meets_bind (keeps_lift _).meets fun _ =>
      meets_bind (overlooks.keeps_appendRegisteredSegment segments _ _ _ _).meets fun _ =>
      meets_pure _ fun _ holds => ⟨holds, held.2⟩

theorem meets_flushSegmentRegistry (body : FooterBody) :
    Meets (fun handle => property handle ∧ SameIndexes start body) (flushSegmentRegistry body)
      (fun body handle => property handle ∧ SameIndexes start body) property := by
  refine meets_get_bind fun handle held => ?_
  have here : ∀ other, other = handle → property other := by
    rintro _ rfl
    exact held.1
  by_cases clean : handle.dirtyIds .segment = []
  · rw [if_pos clean]
    exact meets_pure _ fun other same => ⟨here other same, held.2⟩
  · rw [if_neg clean]
    refine Meets.weaken (?_ : Meets property _ _ property) here (fun _ _ holds => holds)
      fun _ holds => holds
    exact meets_bind (fallible_keeps _).meets fun _ =>
      meets_bind (overlooks.keeps_allocateSegmentId segments).meets fun _ =>
      meets_bind (overlooks.keeps_appendSegmentAtEnd _ _ _).meets fun _ =>
      meets_pure _ fun _ holds => ⟨holds, held.2⟩

theorem keeps_flushPendingTextIndexes (prepared : PreparedCommit) :
    Keeps property (flushPendingTextIndexes prepared) := by
  intro handle holds
  have met := (overlooks.meets_flushPendingTextIndexes segments prepared).weaken
    (fun _ holds => ⟨holds, rfl, rfl⟩) (fun _ _ held => held.1) fun _ holds => holds
  exact met.final holds

theorem keeps_flushCatalogTable (body : FooterBody) (kind : CatalogTableKind) :
    Keeps property (flushCatalogTable body kind) := by
  intro handle holds
  have met := (overlooks.meets_flushCatalogTable segments body kind).weaken
    (fun _ holds => ⟨holds, rfl, rfl⟩) (fun _ _ held => held.1) fun _ holds => holds
  exact met.final holds

theorem keeps_flushSegmentRegistry (body : FooterBody) :
    Keeps property (flushSegmentRegistry body) := by
  intro handle holds
  have met := (overlooks.meets_flushSegmentRegistry segments body).weaken
    (fun _ holds => ⟨holds, rfl, rfl⟩) (fun _ _ held => held.1) fun _ holds => holds
  exact met.final holds

end Writes

end Overlooks

end Valise
