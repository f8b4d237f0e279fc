import Valise.CatalogSteps

/-!
What the operations of a handle can do to it: each one is a sequence of a few kinds of changes,
whether it succeeds or stops halfway.
-/

namespace Valise

open ByteLists Chains Commands Command DeltaTables Outcomes Relation SortedTables

/-- An id was taken from one counter; the other counters stand. -/
structure IdAllocator.Took (before after : IdAllocator) (kind : CatalogTableKind) (id : Nat) :
    Prop where
  positive : 0 < id
  was : before.counter kind = id
  next : after.counter kind = id + 1
  others : ∀ other ≠ kind, after.counter other = before.counter other

theorem IdAllocator.Took.grown {before after : IdAllocator} {kind : CatalogTableKind} {id : Nat}
    (took : before.Took after kind id) (other : CatalogTableKind) :
    before.counter other ≤ after.counter other := by
  by_cases same : other = kind
  · rw [same, took.was, took.next]
    omega
  · exact (took.others other same).ge

theorem IdAllocator.Took.named_lt {before after : IdAllocator} {kind : CatalogTableKind} {id : Nat}
    (took : before.Took after kind id) : id < after.counter kind := by
  rw [took.next]
  exact Nat.lt_succ_self id

/-- The tables whose new rows need nothing but an id. -/
def CatalogTableKind.Plain : CatalogTableKind → Prop
  | .collection => True
  | .analyzer => True
  | .fieldSchema => True
  | .retrievalProfile => True
  | .embeddingSpace => True
  | .fusionProfile => True
  | _ => False

namespace ValiseFile

def storeSegment (handle : ValiseFile) (ids : IdAllocator) (segmentId : SegmentId)
    (content : SegmentContent) (segmentType : SegmentType) (itemCount : Nat)
    (compression : Compression) : ValiseFile :=
  ({ handle with
    idAllocator := ids
    file := handle.file ++ [⟨segmentId, content⟩] } : ValiseFile).upsertRow .segment
      ⟨segmentId, segmentType, ⟨segmentId, handle.file.length⟩, itemCount, compression⟩

/-- A frame enters the catalog while its payload and its key wait in the buffers. -/
def enterFrame (handle : ValiseFile) (ids : IdAllocator) (frame : FrameDesc) (payload : Bytes)
    (uri : Option Bytes) : ValiseFile :=
  { ((({ handle with idAllocator := ids } : ValiseFile).bufferPayload frame.frameId
      payload).bufferUri frame.frameId uri).upsertFrame frame with
    dirty := true }

def tombstoneFrame (handle : ValiseFile) (frame : FrameDesc) (now : Int64) : ValiseFile :=
  { handle.upsertFrame
      { frame with status := .tombstoned, role := .tombstone, updatedAt := now } with
    dirty := true }

/-- The frames get the places of their payloads and keys, and nothing waits any more. -/
def placePayloads (handle : ValiseFile) (payloadSegment uriSegment : SegmentId)
    (uris : List PendingUri) : ValiseFile :=
  { handle.setTable .frame
      ((handle.tables .frame).map fun frame => uriFixup uriSegment uris
        (payloadFixup payloadSegment handle.pendingPayloadFrames frame))
      (uris.map (·.frameId.toNat) ++ handle.pendingPayloadFrames.map (·.frameId.toNat)) with
    pendingPayloadFrames := []
    pendingUris := [] }

def enterVector (handle : ValiseFile) (ids : IdAllocator) (key : BatchKey)
    (batch : PendingVectorBatch) (desc : VectorDesc) (values : List F32) : ValiseFile :=
  { (({ handle with idAllocator := ids } : ValiseFile).setBatch key
      { batch with
        vectors := batch.vectors ++ [desc]
        rawValues := batch.rawValues ++ [values] }).upsertRow .vector desc with
    dirty := true }

def dropBatch (handle : ValiseFile) (key : BatchKey) : ValiseFile :=
  { handle with
    pendingVectorBatches := handle.pendingVectorBatches.filter fun entry => entry.1 ≠ key }

/-- The rows of a batch, encoded or still raw, become a segment. -/
def flushBatch (handle : ValiseFile) (key : BatchKey) (batch : PendingVectorBatch) : ValiseFile :=
  ({ handle.dropBatch key with
    file := handle.file ++ [⟨batch.segmentId,
      .vectorData (batch.append batch.rawValues).written⟩] } : ValiseFile).upsertRow .segment
    ⟨batch.segmentId, .vectorData, ⟨batch.segmentId, handle.file.length⟩, batch.vectors.length, .none⟩

/-- The prepared footer is the current one, and nothing is dirty. -/
def publish (handle : ValiseFile) (prepared : PreparedCommit) : ValiseFile :=
  { handle with
    footer := prepared.body
    texts := publishTexts prepared handle.texts
    dirtyIds := fun _ => []
    dirty := false }

/-- The footer roots the whole catalog of the handle, dirty rows included. -/
structure RootsAll (handle : ValiseFile) (body : FooterBody) : Prop where
  rooted : Rooted handle.file handle.tables handle.textOf body (fun _ => [])
  ids : body.idAllocator = handle.idAllocator
  texts : ∀ textSpaceId, valueAt UInt32.toNat textSpaceId handle.texts = none →
    body.textRootsOf textSpaceId = {}

end ValiseFile

/-- Payloads are compressed whenever they are written. -/
def SegmentContent.Packed (content : SegmentContent) (compression : Compression) : Prop :=
  ∀ bytes, content = .payload bytes → compression = .zstd

/-- What the changes of a call may do: lose vectors that were accepted, and enter new ones. -/
structure Leave where
  losing : Bool
  entering : Bool

def Leave.any : Leave := ⟨true, true⟩

inductive Change (leave : Leave) : ValiseFile → ValiseFile → Prop where
  | allocated {handle ids kind id} : handle.idAllocator.Took ids kind id →
      Change leave handle { handle with idAllocator := ids }
  | appended {handle} (segment : StoredSegment) :
      Change leave handle { handle with file := handle.file ++ [segment] }
  | segmentStored {handle ids} {segmentId : SegmentId} (content segmentType itemCount compression) :
      handle.dirty = true → content.Packed compression →
      handle.idAllocator.Took ids .segment segmentId.toNat →
      Change leave handle
        (handle.storeSegment ids segmentId content segmentType itemCount compression)
  | rowEntered {handle ids kind} {row : kind.Row} : kind.Plain →
      handle.idAllocator.Took ids kind (kind.rowId row) →
      Change leave handle
        { ({ handle with idAllocator := ids } : ValiseFile).upsertRow kind row with dirty := true }
  | textSpaceEntered {handle ids} (row : TextSpaceDesc) {analyzer} :
      handle.idAllocator.Took ids .textSpace row.textSpaceId.toNat →
      loadAnalyzer (handle.tables .analyzer) row = .ok analyzer →
      Change leave handle
        { ({ handle with idAllocator := ids } : ValiseFile).upsertRow .textSpace row with
          analyzerCache := store UInt32.toNat row.textSpaceId analyzer handle.analyzerCache
          texts := store UInt32.toNat row.textSpaceId {} handle.texts
          dirty := true }
  | codecEntered {handle segmentIds ids} {segmentId : SegmentId} {codecId : CodecId}
      {params : CodecParams} : handle.idAllocator.Took segmentIds .segment segmentId.toNat →
      segmentIds.Took ids .codec codecId.toNat → params.encode = .ok () →
      params.instantiate = .ok () →
      Change leave handle
        { (handle.storeSegment ids segmentId (.codecParams params) .codecParams 1 .none).upsertRow
            .codec ⟨codecId, params.family, params.wireVersion, ⟨segmentId, handle.file.length⟩⟩ with
          dirty := true }
  | codecCached {handle} (codecId params) :
      Change leave handle
        { handle with codecCache := store UInt32.toNat codecId params handle.codecCache }
  | frameEntered {handle ids} {frame : FrameDesc} (payload uri) :
      handle.idAllocator.Took ids .frame frame.frameId.toNat →
      frame.payloadRef = none → frame.uriRef = none → frame.payloadEncoding = .raw →
      Change leave handle (handle.enterFrame ids frame payload uri)
  | frameTombstoned {handle} {frame : FrameDesc} (now) :
      handle.findFrame frame.frameId = some frame →
      Change leave handle (handle.tombstoneFrame frame now)
  | payloadsPlaced {handle payloadSegment uriSegment} : handle.dirty = true →
      handle.file.segmentContent (handle.tables .segment) payloadSegment =
        some (.payload handle.pendingPayloadBuf) →
      (handle.pendingUris ≠ [] → handle.file.segmentContent (handle.tables .segment) uriSegment =
        some (.metadata handle.pendingUriBuf)) →
      Change leave handle (handle.placePayloads payloadSegment uriSegment handle.pendingUris)
  | buffersCleared {handle} : handle.pendingPayloadFrames = [] → handle.pendingUris = [] →
      Change leave handle { handle with pendingPayloadBuf := [], pendingUriBuf := [] }
  | textIndexed {handle} (textSpaceId frameId collectionId tokens) :
      (valueAt UInt32.toNat textSpaceId handle.analyzerCache).isSome →
      Change leave handle
        { handle.setText textSpaceId
            ((handle.textOf textSpaceId).index frameId collectionId tokens) with
          dirty := true }
  | batchOpened {handle ids} {key : BatchKey} {segmentId : SegmentId} : handle.batch key = none →
      handle.idAllocator.Took ids .segment segmentId.toNat →
      Change leave handle
        (({ handle with idAllocator := ids } : ValiseFile).setBatch key ⟨key.1, key.2, segmentId, [], [], []⟩)
  | vectorEntered {handle ids} {key : BatchKey} {batch : PendingVectorBatch} {desc : VectorDesc}
      (values) : leave.entering = true → handle.batch key = some batch →
      handle.idAllocator.Took ids .vector desc.vectorId.toNat →
      desc.dataSegmentId = batch.segmentId → desc.ordinalInSegment = batch.vectors.length →
      Change leave handle (handle.enterVector ids key batch desc values)
  | vectorsDrained {handle} {key : BatchKey} {batch : PendingVectorBatch} (count : Nat) :
      handle.batch key = some batch →
      Change leave handle (handle.setBatch key
        (({ batch with rawValues := batch.rawValues.drop count } : PendingVectorBatch).append
          (batch.rawValues.take count)))
  | vectorsDropped {handle} {key : BatchKey} {batch : PendingVectorBatch} (count : Nat) :
      leave.losing = true → handle.batch key = some batch →
      Change leave handle (handle.setBatch key
        { batch with rawValues := batch.rawValues.drop count })
  | vectorTombstoned {handle} {desc : VectorDesc} :
      find (CatalogTableKind.rowId .vector) desc.vectorId.toNat (handle.tables .vector) = some desc →
      Change leave handle
        { handle.upsertRow .vector { desc with status := .tombstoned } with dirty := true }
  | batchFlushed {handle} {key : BatchKey} {batch : PendingVectorBatch} : handle.dirty = true →
      handle.batch key = some batch → (batch.append batch.rawValues).Finishes →
      Change leave handle (handle.flushBatch key batch)
  | batchDropped {handle} (key : BatchKey) :
      (leave.losing = true ∨ ∀ batch, handle.batch key = some batch → batch.vectors = []) →
      Change leave handle (handle.dropBatch key)
  | textFlushed {handle} (textSpaceId) {text : TextHandle} :
      text.roots = (handle.textOf textSpaceId).roots →
      (∃ later, text.file = (handle.textOf textSpaceId).file ++ later) →
      (valueAt UInt32.toNat textSpaceId handle.texts).isSome →
      Change leave handle (handle.setText textSpaceId text)
  | cached {handle} (filters timeIndex) :
      Change leave handle
        { handle with collectionFilterCache := filters, timeIndexCache := timeIndex }
  | headerWritten {handle} {body : FooterBody} : handle.dirty = true → NothingWaits handle →
      handle.RootsAll body → Change leave handle { handle with published := body }
  | published {handle} {prepared : PreparedCommit} : handle.published = prepared.body →
      NothingWaits handle → handle.RootsAll prepared.body → Change leave handle (handle.publish prepared)

def Reached (leave : Leave) : ValiseFile → ValiseFile → Prop := ReflTransGen (Change leave)

/-! ### Rules for the steps that operations share -/

section Steps

variable {before failed : ValiseFile → Prop}

theorem check_pass {condition : Prop} [Decidable condition] {error : Error} {handle : ValiseFile}
    (holds : condition) : check condition error handle = (.ok (), handle) := by
  rw [check, lift_apply, Outcome.ensure, if_pos holds]

theorem check_stop {condition : Prop} [Decidable condition] {error : Error} {handle : ValiseFile}
    (fails : ¬condition) : check condition error handle = (.err error, handle) := by
  rw [check, lift_apply, Outcome.ensure, if_neg fails]

theorem meets_check {condition : Prop} [Decidable condition] {error : Error}
    (weaker : ∀ handle, before handle → failed handle) :
    Meets before (check condition error) (fun _ => before) failed :=
  meets_lift (fun _ _ _ holds => holds) weaker

theorem meets_check_or {condition : Prop} [Decidable condition] {error : Error}
    (fails : ∀ handle, ¬condition → before handle → failed handle) :
    Meets before (check condition error) (fun _ => before) failed :=
  meets_lift_or (fun _ _ _ holds => holds) fun handle stopped holds =>
    fails handle (fun met => stopped () (Outcome.ensure_true error met)) holds

theorem meets_fallible_or {point : IoPoint}
    (fails : ∀ handle, handle.faults point = true → before handle → failed handle) :
    Meets before (fallible point) (fun _ => before) failed := by
  refine meets_get_bind fun read holds => ?_
  refine meets_lift_or (fun _ handle _ same => ?_) fun handle stopped same => ?_
  · exact same ▸ holds
  · refine same ▸ fails read ?_ holds
    by_contra sound
    exact stopped () (Outcome.ensure_true _ (by simpa using sound))

theorem meets_fallible {point : IoPoint} (weaker : ∀ handle, before handle → failed handle) :
    Meets before (fallible point) (fun _ => before) failed :=
  meets_fallible_or fun handle _ holds => weaker handle holds

/-- How one counter of the allocator is read and moved on. -/
structure Counts {ι : Type} (kind : CatalogTableKind) (take : ι → Result (ι × ι))
    (next : IdAllocator → ι) (store : ι → IdAllocator → IdAllocator) (toNat : ι → Nat) : Prop where
  takes : ∀ value id following, take value = .ok (id, following) →
    id = value ∧ 0 < toNat id ∧ toNat following = toNat id + 1
  reads : ∀ ids, ids.counter kind = toNat (next ids)
  stores : ∀ following ids, (store following ids).counter kind = toNat following
  keeps : ∀ following ids other, other ≠ kind → (store following ids).counter other = ids.counter other

/-- The state after an id was taken from one where the property held. -/
def AfterTaking (property : ValiseFile → Prop) (kind : CatalogTableKind) (id : Nat)
    (handle : ValiseFile) : Prop :=
  ∃ earlier ids, property earlier ∧ earlier.idAllocator.Took ids kind id ∧
    handle = { earlier with idAllocator := ids }

def Takes {ι : Type} (allocateId : Engine ι) (kind : CatalogTableKind) (toNat : ι → Nat) : Prop :=
  ∀ property : ValiseFile → Prop,
    Meets property allocateId (fun id => AfterTaking property kind (toNat id)) property

theorem takes_allocate {ι : Type} {kind : CatalogTableKind} {take : ι → Result (ι × ι)}
    {next : IdAllocator → ι} {store : ι → IdAllocator → IdAllocator} {toNat : ι → Nat}
    (counts : Counts kind take next store toNat) : Takes (allocate take next store) kind toNat := by
  intro property
  refine meets_get_bind fun read holds => ?_
  refine meets_bind (m := fun pair handle => handle = read ∧
    take (next read.idAllocator) = .ok pair) ?_ fun pair => ?_
  · refine meets_lift (fun pair handle taken same => ⟨same, taken⟩) fun handle same => ?_
    exact same ▸ holds
  · obtain ⟨id, following⟩ := pair
    refine meets_bind (m := fun _ => AfterTaking property kind (toNat id)) ?_ fun _ => ?_
    · refine meets_modify fun handle reached => ?_
      obtain ⟨same, taken⟩ := reached
      obtain ⟨rfl, positive, successor⟩ := counts.takes _ id following taken
      subst same
      refine ⟨handle, store following handle.idAllocator, holds, ?_, rfl⟩
      exact ⟨positive, counts.reads _, (counts.stores _ _).trans successor,
        fun other different => counts.keeps _ _ other different⟩
    · exact meets_pure id fun _ taken => taken

theorem takeU32_takes (label : String) (value id following : UInt32)
    (taken : takeU32 label value = .ok (id, following)) :
    id = value ∧ 0 < id.toNat ∧ following.toNat = id.toNat + 1 := by
  simp only [takeU32, Outcome.bind_eq_ok, Outcome.ensure_eq_ok, Outcome.pure_eq, Outcome.ok.injEq,
    Prod.mk.injEq] at taken
  obtain ⟨_, nonzero, _, room, rfl, rfl⟩ := taken
  have positive : 0 < value.toNat := Nat.pos_of_ne_zero fun zero =>
    nonzero (UInt32.toNat_inj.mp (by simpa using zero))
  refine ⟨rfl, positive, ?_⟩
  rw [UInt32.toNat_add]
  exact Nat.mod_eq_of_lt room

theorem takeU64_takes (label : String) (value id following : UInt64)
    (taken : takeU64 label value = .ok (id, following)) :
    id = value ∧ 0 < id.toNat ∧ following.toNat = id.toNat + 1 := by
  simp only [takeU64, Outcome.bind_eq_ok, Outcome.ensure_eq_ok, Outcome.pure_eq, Outcome.ok.injEq,
    Prod.mk.injEq] at taken
  obtain ⟨_, nonzero, _, room, rfl, rfl⟩ := taken
  have positive : 0 < value.toNat := Nat.pos_of_ne_zero fun zero =>
    nonzero (UInt64.toNat_inj.mp (by simpa using zero))
  refine ⟨rfl, positive, ?_⟩
  rw [UInt64.toNat_add]
  exact Nat.mod_eq_of_lt room

theorem allocateCollectionId_takes : Takes allocateCollectionId .collection UInt32.toNat :=
  takes_allocate ⟨takeU32_takes _, fun _ => rfl, fun _ _ => rfl,
    fun _ _ other different => by cases other <;> first | rfl | exact absurd rfl different⟩

theorem allocateFrameId_takes : Takes allocateFrameId .frame UInt64.toNat :=
  takes_allocate ⟨takeU64_takes _, fun _ => rfl, fun _ _ => rfl,
    fun _ _ other different => by cases other <;> first | rfl | exact absurd rfl different⟩

theorem allocateSegmentId_takes : Takes allocateSegmentId .segment UInt64.toNat :=
  takes_allocate ⟨takeU64_takes _, fun _ => rfl, fun _ _ => rfl,
    fun _ _ other different => by cases other <;> first | rfl | exact absurd rfl different⟩

theorem allocateTextSpaceId_takes : Takes allocateTextSpaceId .textSpace UInt32.toNat :=
  takes_allocate ⟨takeU32_takes _, fun _ => rfl, fun _ _ => rfl,
    fun _ _ other different => by cases other <;> first | rfl | exact absurd rfl different⟩

theorem allocateAnalyzerId_takes : Takes allocateAnalyzerId .analyzer UInt32.toNat :=
  takes_allocate ⟨takeU32_takes _, fun _ => rfl, fun _ _ => rfl,
    fun _ _ other different => by cases other <;> first | rfl | exact absurd rfl different⟩

theorem allocateFieldSchemaId_takes : Takes allocateFieldSchemaId .fieldSchema UInt32.toNat :=
  takes_allocate ⟨takeU32_takes _, fun _ => rfl, fun _ _ => rfl,
    fun _ _ other different => by cases other <;> first | rfl | exact absurd rfl different⟩

theorem allocateRetrievalProfileId_takes : Takes allocateRetrievalProfileId .retrievalProfile UInt32.toNat :=
  takes_allocate ⟨takeU32_takes _, fun _ => rfl, fun _ _ => rfl,
    fun _ _ other different => by cases other <;> first | rfl | exact absurd rfl different⟩

theorem allocateEmbeddingSpaceId_takes : Takes allocateEmbeddingSpaceId .embeddingSpace UInt32.toNat :=
  takes_allocate ⟨takeU32_takes _, fun _ => rfl, fun _ _ => rfl,
    fun _ _ other different => by cases other <;> first | rfl | exact absurd rfl different⟩

theorem allocateCodecId_takes : Takes allocateCodecId .codec UInt32.toNat :=
  takes_allocate ⟨takeU32_takes _, fun _ => rfl, fun _ _ => rfl,
    fun _ _ other different => by cases other <;> first | rfl | exact absurd rfl different⟩

theorem allocateVectorId_takes : Takes allocateVectorId .vector UInt64.toNat :=
  takes_allocate ⟨takeU64_takes _, fun _ => rfl, fun _ _ => rfl,
    fun _ _ other different => by cases other <;> first | rfl | exact absurd rfl different⟩

theorem allocateFusionProfileId_takes : Takes allocateFusionProfileId .fusionProfile UInt32.toNat :=
  takes_allocate ⟨takeU32_takes _, fun _ => rfl, fun _ _ => rfl,
    fun _ _ other different => by cases other <;> first | rfl | exact absurd rfl different⟩

end Steps

/-- The state after a segment was appended to one where the property held. -/
def AfterAppending (property : ValiseFile → Prop) (segmentId : SegmentId) (content : SegmentContent)
    (root : SegmentPlace) (handle : ValiseFile) : Prop :=
  ∃ earlier : ValiseFile, property earlier ∧ root = ⟨segmentId, earlier.file.length⟩ ∧
    handle = { earlier with file := earlier.file ++ [⟨segmentId, content⟩] }

theorem meets_append_or {before failed : ValiseFile → Prop} {point : IoPoint}
    {segmentId : SegmentId} {content : SegmentContent}
    (fails : ∀ handle, handle.faults point = true → before handle → failed handle) :
    Meets before (appendSegmentAtEnd point segmentId content)
      (fun root => AfterAppending before segmentId content root) failed := by
  refine meets_bind (meets_fallible_or fails) fun _ => meets_get_bind fun read holds => ?_
  refine meets_modify_bind (meets_pure _ ?_)
  rintro _ ⟨earlier, same, rfl⟩
  subst same
  exact ⟨earlier, holds, rfl, rfl⟩

theorem meets_append {before failed : ValiseFile → Prop} {point : IoPoint} {segmentId : SegmentId}
    {content : SegmentContent} (weaker : ∀ handle, before handle → failed handle) :
    Meets before (appendSegmentAtEnd point segmentId content)
      (fun root => AfterAppending before segmentId content root) failed :=
  meets_append_or fun handle _ holds => weaker handle holds

/-! ### Registrations -/

variable {leave : Leave} {start : ValiseFile}

theorem Reached.allocated {handle : ValiseFile} {kind : CatalogTableKind} {id : Nat}
    (taken : AfterTaking (Reached leave start) kind id handle) : Reached leave start handle := by
  obtain ⟨earlier, ids, reached, took, rfl⟩ := taken
  exact reached.tail (.allocated took)

/-- A row of a plain table enters under the id that was just taken. -/
theorem keeps_enter {ι : Type} {kind : CatalogTableKind} {allocateId : Engine ι} {toNat : ι → Nat}
    (takes : Takes allocateId kind toNat) (plain : kind.Plain) {row : ι → kind.Row}
    (named : ∀ id, kind.rowId (row id) = toNat id) :
    Keeps (Reached leave start) (do
      let id ← allocateId
      Command.modify fun handle => handle.upsertRow kind (row id)
      markDirtyFlag
      return id) := by
  refine (meets_bind (takes _) fun id => ?_).keeps
  refine meets_bind (m := fun _ handle => Reached leave start { handle with dirty := true })
    ?_ fun _ => ?_
  · refine meets_modify fun handle taken => ?_
    obtain ⟨earlier, ids, reached, took, rfl⟩ := taken
    exact reached.tail (.rowEntered plain (by rwa [named]))
  · exact meets_bind (meets_modify fun _ reached => reached) fun _ => meets_pure id fun _ holds => holds

theorem createCollectionAt_changes (name : String) (createdAt : Int64) :
    Keeps (Reached leave start) (createCollectionAt name createdAt) :=
  keeps_bind keeps_get fun _ => keeps_bind (keeps_lift _) fun _ =>
    keeps_enter allocateCollectionId_takes trivial fun _ => rfl

theorem ensureTextEnabled_keeps {property : ValiseFile → Prop} (op : String) :
    Keeps property (ensureTextEnabled op) :=
  keeps_bind keeps_get fun _ => keeps_lift _

theorem registerAnalyzer_changes (desc : AnalyzerDesc) :
    Keeps (Reached leave start) (registerAnalyzer desc) :=
  keeps_bind (ensureTextEnabled_keeps _) fun _ =>
    keeps_enter allocateAnalyzerId_takes trivial fun _ => rfl

theorem registerFieldSchema_changes (desc : FieldSchemaDesc) :
    Keeps (Reached leave start) (registerFieldSchema desc) :=
  keeps_bind (ensureTextEnabled_keeps _) fun _ =>
    keeps_enter allocateFieldSchemaId_takes trivial fun _ => rfl

theorem registerRetrievalProfile_changes (desc : RetrievalProfileDesc) :
    Keeps (Reached leave start) (registerRetrievalProfile desc) :=
  keeps_bind (ensureTextEnabled_keeps _) fun _ =>
    keeps_enter allocateRetrievalProfileId_takes trivial fun _ => rfl

theorem registerFusionProfile_changes (desc : FusionProfileDesc) :
    Keeps (Reached leave start) (registerFusionProfile desc) :=
  keeps_bind (keeps_lift _) fun _ =>
    keeps_enter allocateFusionProfileId_takes trivial fun _ => rfl

theorem checkPrimaryCodec_keeps {property : ValiseFile → Prop} (dimension : UInt32)
    (primaryId : CodecId) : Keeps property (checkPrimaryCodec dimension primaryId) := by
  refine keeps_bind keeps_get fun handle => ?_
  split
  · exact keeps_lift _
  · refine keeps_bind (keeps_lift _) fun _ => ?_
    split
    · exact keeps_lift _
    · exact keeps_lift _

theorem registerEmbeddingSpace_changes (spec : EmbeddingSpaceSpec) :
    Keeps (Reached leave start) (registerEmbeddingSpace spec) := by
  refine keeps_bind keeps_get fun handle => keeps_bind (keeps_lift _) fun _ =>
    keeps_bind (keeps_lift _) fun _ => keeps_bind (keeps_lift _) fun _ =>
    keeps_bind (keeps_lift _) fun _ => keeps_bind ?_ fun _ => keeps_bind (keeps_lift _) fun _ =>
    keeps_enter allocateEmbeddingSpaceId_takes trivial fun _ => rfl
  cases spec.primaryCodecId with
  | none => exact keeps_lift _
  | some primaryId => exact checkPrimaryCodec_keeps _ _

theorem registerTextSpace_changes (desc : TextSpaceDesc) :
    Keeps (Reached leave start) (registerTextSpace desc) := by
  refine keeps_bind (ensureTextEnabled_keeps _) fun _ => (meets_get_bind fun read reached => ?_).keeps
  have here : ∀ handle, handle = read → Reached leave start handle := by
    rintro _ rfl
    exact reached
  refine meets_bind (meets_check here) fun _ => meets_bind (meets_check here) fun _ =>
    meets_bind (meets_check here) fun _ => ?_
  refine meets_bind ((allocateTextSpaceId_takes _).weaken (fun _ same => same)
    (fun _ _ taken => taken) here) fun textSpaceId => ?_
  have taken : ∀ handle, AfterTaking (fun handle => handle = read) .textSpace textSpaceId.toNat
      handle → Reached leave start handle := by
    rintro _ ⟨_, ids, rfl, took, rfl⟩
    exact reached.tail (.allocated took)
  split
  · exact meets_lift (fun _ _ ok => nomatch ok) taken
  · rename_i analyzer found
    refine meets_bind (m := fun _ handle => AfterTaking (fun handle => handle = read) .textSpace
      textSpaceId.toNat handle ∧ analyzer.build = .ok ()) ?_ fun _ => ?_
    · exact meets_lift (fun _ _ built holds => ⟨holds, built⟩) taken
    · refine meets_modify_bind (meets_modify_bind (meets_modify_bind (meets_pure _ ?_)))
      rintro _ ⟨_, ⟨_, ⟨_, ⟨⟨_, ids, rfl, took, rfl⟩, built⟩, rfl⟩, rfl⟩, rfl⟩
      refine reached.tail (.textSpaceEntered { desc with textSpaceId := textSpaceId } took ?_)
      simp only [loadAnalyzer, found, built, Outcome.ok_bind, Outcome.pure_eq]

/-- The parameters have to make a live codec, or the row would stay without one. -/
theorem registerCodec_changes {params : CodecParams}
    (instantiates : params.encode = .ok () → params.instantiate = .ok ()) :
    Keeps (Reached leave start) (registerCodec params) := by
  refine (meets_bind (m := fun _ handle => Reached leave start handle ∧ params.encode = .ok ())
    (meets_lift (fun _ _ encoded reached => ⟨reached, encoded⟩) fun _ reached => reached) fun _ =>
    ?_).keeps
  refine meets_bind ((allocateSegmentId_takes _).weaken (fun _ holds => holds)
    (fun _ _ taken => taken) fun _ holds => holds.1) fun segmentId => ?_
  have first : ∀ handle, AfterTaking (fun handle => Reached leave start handle ∧
      params.encode = .ok ()) .segment segmentId.toNat handle → Reached leave start handle := by
    rintro _ ⟨_, ids, ⟨reached, -⟩, took, rfl⟩
    exact reached.tail (.allocated took)
  refine meets_bind ((allocateCodecId_takes _).weaken (fun _ taken => taken)
    (fun _ _ taken => taken) first) fun codecId => ?_
  have second : ∀ handle, AfterTaking (AfterTaking (fun handle => Reached leave start handle ∧
      params.encode = .ok ()) .segment segmentId.toNat) .codec codecId.toNat handle →
      Reached leave start handle := by
    rintro _ ⟨earlier, ids, taken, took, rfl⟩
    exact (first earlier taken).tail (.allocated took)
  refine meets_bind (meets_append second) fun root => ?_
  refine meets_bind (meets_fallible ?_) fun _ => ?_
  · rintro _ ⟨earlier, taken, -, rfl⟩
    exact (second earlier taken).tail (.appended _)
  refine meets_modify_bind (meets_modify_bind (meets_modify_bind ?_))
  refine meets_bind (m := fun _ => Reached leave start) ?_ fun _ => ?_
  · have entered : ∀ handle, (∃ marked, (∃ rowed, (∃ registered, AfterAppending (AfterTaking
        (AfterTaking (fun handle => Reached leave start handle ∧ params.encode = .ok ()) .segment
          segmentId.toNat) .codec codecId.toNat) segmentId (.codecParams params) root registered ∧
        rowed = registered.upsertRow .segment ⟨segmentId, .codecParams, root, 1, .none⟩) ∧
        marked = rowed.upsertRow .codec ⟨codecId, params.family, params.wireVersion, root⟩) ∧
        handle = { marked with dirty := true }) → Reached leave start handle := by
      rintro _ ⟨_, ⟨_, ⟨_, ⟨_, ⟨_, ids, ⟨_, segmentIds, ⟨reached, encoded⟩, segmentTook, rfl⟩,
        codecTook, rfl⟩, rfl, rfl⟩, rfl⟩, rfl⟩, rfl⟩
      exact reached.tail (.codecEntered segmentTook codecTook encoded (instantiates encoded))
    exact meets_lift (fun _ handle _ holds => entered handle holds) entered
  · refine meets_modify_bind (meets_pure _ ?_)
    rintro _ ⟨_, reached, rfl⟩
    exact reached.tail (.codecCached codecId params)

/-! ### Payloads and keys -/

theorem segmentContent_stored (handle : ValiseFile) (ids : IdAllocator) (segmentId : SegmentId)
    (content : SegmentContent) (segmentType : SegmentType) (itemCount : Nat)
    (compression : Compression) :
    (handle.storeSegment ids segmentId content segmentType itemCount compression).file.segmentContent
      ((handle.storeSegment ids segmentId content segmentType itemCount compression).tables .segment)
      segmentId = some content := by
  simp only [ValiseFile.storeSegment, ValiseFile.upsertRow, ValiseFile.setTable,
    Function.update_self, StoredFile.segmentContent]
  have found := find_upsert_self (CatalogTableKind.rowId .segment)
    ⟨segmentId, segmentType, ⟨segmentId, handle.file.length⟩, itemCount, compression⟩
    (handle.tables .segment)
  simp only [CatalogTableKind.rowId] at found ⊢
  rw [found]
  exact readSegment_last _ _ _

theorem segmentContent_other {handle : ValiseFile} {other : SegmentId} {found : SegmentContent}
    (read : handle.file.segmentContent (handle.tables .segment) other = some found)
    (ids : IdAllocator) {segmentId : SegmentId} (apart : segmentId.toNat ≠ other.toNat)
    (content : SegmentContent) (segmentType : SegmentType) (itemCount : Nat)
    (compression : Compression) :
    (handle.storeSegment ids segmentId content segmentType itemCount compression).file.segmentContent
      ((handle.storeSegment ids segmentId content segmentType itemCount compression).tables .segment)
      other = some found := by
  obtain ⟨entry, registered, stored⟩ := Option.bind_eq_some_iff.mp read
  simp only [ValiseFile.storeSegment, ValiseFile.upsertRow, ValiseFile.setTable,
    Function.update_self, StoredFile.segmentContent]
  have unchanged := find_upsert_other (CatalogTableKind.rowId .segment)
    (show CatalogTableKind.rowId .segment ⟨segmentId, segmentType,
      ⟨segmentId, handle.file.length⟩, itemCount, compression⟩ ≠ other.toNat from apart)
    (handle.tables .segment)
  rw [unchanged, registered]
  exact readSegment_append _ stored

/-- Work under way: the handle is marked dirty. -/
def Busy (leave : Leave) (start handle : ValiseFile) : Prop :=
  Reached leave start handle ∧ handle.dirty = true

theorem Busy.allocated {handle : ValiseFile} {kind : CatalogTableKind} {id : Nat}
    (taken : AfterTaking (Busy leave start) kind id handle) : Busy leave start handle := by
  obtain ⟨earlier, ids, busy, took, rfl⟩ := taken
  exact ⟨busy.1.tail (.allocated took), busy.2⟩

theorem Busy.appended {handle : ValiseFile} {kind : CatalogTableKind} {id : Nat}
    {segmentId : SegmentId} {content : SegmentContent} {root : SegmentPlace}
    (written : AfterAppending (AfterTaking (Busy leave start) kind id) segmentId content root handle) :
    Busy leave start handle := by
  obtain ⟨earlier, taken, -, rfl⟩ := written
  have busy := Busy.allocated taken
  exact ⟨busy.1.tail (.appended _), busy.2⟩

/-- The states in which the keys have just been written: from a busy state, a new segment holds
the buffer, or there was nothing to write. -/
def UrisWritten (property : ValiseFile → Prop) (written : SegmentId × List PendingUri)
    (handle : ValiseFile) : Prop :=
  (property handle ∧ handle.pendingUris = [] ∧ written.2 = []) ∨
    ∃ earlier ids, property earlier ∧ written.2 = earlier.pendingUris ∧
      earlier.idAllocator.Took ids .segment written.1.toNat ∧
      handle = { earlier.storeSegment ids written.1 (.metadata earlier.pendingUriBuf) .metadata
        earlier.pendingUris.length .none with pendingUris := [] }

theorem flushPendingUris_changes {property : ValiseFile → Prop}
    (busy : ∀ handle, property handle → Busy leave start handle) :
    Meets property flushPendingUris (UrisWritten property) (Busy leave start) := by
  refine meets_get_bind fun read holds => ?_
  have here : ∀ handle, handle = read → Busy leave start handle := by
    rintro _ rfl
    exact busy _ holds
  split
  · rename_i empty
    refine meets_pure _ ?_
    rintro _ rfl
    exact .inl ⟨holds, empty, rfl⟩
  · refine meets_bind ((allocateSegmentId_takes _).weaken (fun _ same => same)
      (fun _ _ taken => taken) here) fun segmentId => ?_
    have taken : ∀ handle, AfterTaking (fun handle => handle = read) .segment segmentId.toNat handle →
        AfterTaking (Busy leave start) .segment segmentId.toNat handle := by
      rintro _ ⟨_, ids, rfl, took, rfl⟩
      exact ⟨_, ids, busy _ holds, took, rfl⟩
    have stopped : ∀ handle, AfterTaking (fun handle => handle = read) .segment segmentId.toNat
        handle → Busy leave start handle := fun handle held => Busy.allocated (taken handle held)
    refine meets_bind (meets_check stopped) fun _ => meets_bind (meets_append stopped) fun root => ?_
    refine meets_bind (meets_fallible ?_) fun _ => ?_
    · rintro _ ⟨earlier, held, place, rfl⟩
      exact Busy.appended ⟨earlier, taken earlier held, place, rfl⟩
    refine meets_modify_bind (meets_modify_bind (meets_pure _ ?_))
    rintro _ ⟨_, ⟨_, ⟨_, ⟨earlier, ids, rfl, took, rfl⟩, rfl, rfl⟩, rfl⟩, rfl⟩
    exact .inr ⟨earlier, ids, holds, rfl, took, rfl⟩

theorem ValiseFile.placePayloads_noUris {handle : ValiseFile} (none : handle.pendingUris = [])
    (payloadSegment uriSegment : SegmentId) :
    handle.placePayloads payloadSegment uriSegment [] =
      { handle.setTable .frame
          ((handle.tables .frame).map fun frame =>
            uriFixup uriSegment [] (payloadFixup payloadSegment handle.pendingPayloadFrames frame))
          (([] : List PendingUri).map (·.frameId.toNat) ++
            handle.pendingPayloadFrames.map (·.frameId.toNat)) with
        pendingPayloadFrames := [] } := by
  cases handle
  obtain rfl := none
  rfl

/-- A flush that returns leaves no payload waiting. -/
theorem flushPendingPayloads_flushes :
    Meets (Busy leave start) flushPendingPayloads
      (fun _ handle => Busy leave start handle ∧ handle.pendingPayloadFrames = [])
      (Busy leave start) := by
  refine meets_get_bind fun read busy => ?_
  have here : ∀ handle, handle = read → Busy leave start handle := by
    rintro _ rfl
    exact busy
  split
  · rename_i empty
    refine meets_pure _ ?_
    rintro _ rfl
    exact ⟨busy, empty⟩
  refine meets_bind ((allocateSegmentId_takes _).weaken (fun _ same => same)
    (fun _ _ taken => taken) here) fun segmentId => ?_
  have stopped : ∀ handle, AfterTaking (fun handle => handle = read) .segment segmentId.toNat handle →
      Busy leave start handle := by
    rintro _ ⟨_, ids, rfl, took, rfl⟩
    exact Busy.allocated ⟨_, ids, busy, took, rfl⟩
  refine meets_bind (meets_check stopped) fun _ => meets_bind (meets_fallible stopped) fun _ =>
    meets_bind (meets_append stopped) fun root => ?_
  refine meets_bind (meets_fallible ?_) fun _ => ?_
  · rintro _ ⟨_, ⟨_, ids, rfl, took, rfl⟩, -, rfl⟩
    exact Busy.appended ⟨_, ⟨_, ids, busy, took, rfl⟩, rfl, rfl⟩
  -- the payloads are in a registered segment; the keys follow
  refine meets_modify_bind (meets_bind (m := UrisWritten fun handle => ∃ ids,
    read.idAllocator.Took ids .segment segmentId.toNat ∧
    handle = read.storeSegment ids segmentId (.payload read.pendingPayloadBuf) .payload
      read.pendingPayloadFrames.length .zstd) ?_ ?_)
  · refine (flushPendingUris_changes ?_).weaken ?_ (fun _ _ written => written) fun _ held => held
    · rintro _ ⟨ids, took, rfl⟩
      exact ⟨busy.1.tail (.segmentStored _ _ _ _ busy.2 (fun _ _ => rfl) took), busy.2⟩
    · rintro _ ⟨_, ⟨_, ⟨_, ids, rfl, took, rfl⟩, rfl, rfl⟩, rfl⟩
      exact ⟨ids, took, rfl⟩
  rintro ⟨uriSegmentId, uris⟩
  have placed : ∀ handle, (∃ earlier, UrisWritten (fun handle => ∃ ids,
      read.idAllocator.Took ids .segment segmentId.toNat ∧
      handle = read.storeSegment ids segmentId (.payload read.pendingPayloadBuf) .payload
        read.pendingPayloadFrames.length .zstd) (uriSegmentId, uris) earlier ∧
      handle = { earlier.setTable .frame
          ((earlier.tables .frame).map fun frame =>
            uriFixup uriSegmentId uris (payloadFixup segmentId read.pendingPayloadFrames frame))
          (uris.map (·.frameId.toNat) ++ read.pendingPayloadFrames.map (·.frameId.toNat)) with
        pendingPayloadFrames := [] }) →
      Busy leave start handle ∧ handle.pendingPayloadFrames = [] ∧ handle.pendingUris = [] := by
    rintro _ ⟨earlier, written, rfl⟩
    rcases written with ⟨⟨ids, took, rfl⟩, none, noUris⟩ |
      ⟨_, uriIds, ⟨ids, took, rfl⟩, same, uriTook, rfl⟩
    · obtain rfl : uris = [] := noUris
      have stored := busy.1.tail (.segmentStored (.payload read.pendingPayloadBuf) .payload
        read.pendingPayloadFrames.length .zstd busy.2 (fun _ _ => rfl) took)
      have done := stored.tail (@Change.payloadsPlaced leave _ segmentId uriSegmentId busy.2
        (segmentContent_stored ..) fun pending => absurd none pending)
      rw [none, ValiseFile.placePayloads_noUris none] at done
      exact ⟨⟨done, busy.2⟩, rfl, none⟩
    · obtain rfl : uris = read.pendingUris := same
      have stored := busy.1.tail (.segmentStored (.payload read.pendingPayloadBuf) .payload
        read.pendingPayloadFrames.length .zstd busy.2 (fun _ _ => rfl) took)
      have both := stored.tail (.segmentStored (.metadata read.pendingUriBuf) .metadata
        read.pendingUris.length .none busy.2 nofun uriTook)
      have apart : uriSegmentId.toNat ≠ segmentId.toNat := by
        have first := took.next
        have second : ids.counter .segment = uriSegmentId.toNat := uriTook.was
        omega
      have done := both.tail (@Change.payloadsPlaced leave _ segmentId uriSegmentId busy.2
        (segmentContent_other (segmentContent_stored ..) uriIds apart _ _ _ _)
        fun _ => segmentContent_stored ..)
      exact ⟨⟨done, busy.2⟩, rfl, rfl⟩
  refine meets_modify_bind (meets_bind (meets_check fun handle held => (placed handle held).1)
    fun _ => meets_modify fun handle held => ?_)
  obtain ⟨reached, noFrames, noUris⟩ := placed handle held
  exact ⟨⟨reached.1.tail (.buffersCleared noFrames noUris), reached.2⟩, noFrames⟩

theorem flushPendingPayloads_changes : Keeps (Busy leave start) flushPendingPayloads :=
  (flushPendingPayloads_flushes.weaken (fun _ busy => busy) (fun _ _ flushed => flushed.1)
    fun _ busy => busy).keeps

theorem flushFullPayloads_changes : Keeps (Busy leave start) flushFullPayloads := by
  refine keeps_bind keeps_get fun handle => keeps_ite flushPendingPayloads_changes ?_
  exact keeps_pure ()

/-- The frame entered the catalog under the id, and more may have happened since. -/
def FramePut (leave : Leave) (start : ValiseFile) (input : PutFrame) (now : Int64) (frameId : FrameId)
    (handle : ValiseFile) : Prop :=
  ∃ earlier ids, Reached leave start earlier ∧
    earlier.idAllocator.Took ids .frame frameId.toNat ∧
    Busy leave (earlier.enterFrame ids (input.frame frameId now) input.payload input.uri) handle

theorem FramePut.reached {input : PutFrame} {now : Int64} {frameId : FrameId} {handle : ValiseFile}
    (put : FramePut leave start input now frameId handle) : Reached leave start handle := by
  obtain ⟨earlier, ids, reached, took, busy⟩ := put
  exact (reached.tail (.frameEntered _ _ took rfl rfl rfl)).trans busy.1

theorem putFrame_puts (input : PutFrame) (now : Int64) :
    Meets (Reached leave start) (putFrame input now) (FramePut leave start input now)
      (Reached leave start) := by
  refine meets_get_bind fun read reached => ?_
  have here : ∀ handle, handle = read → Reached leave start handle := by
    rintro _ rfl
    exact reached
  refine meets_bind (meets_check here) fun _ => meets_bind (meets_fallible here) fun _ => ?_
  refine meets_bind ((allocateFrameId_takes _).weaken (fun _ same => same)
    (fun _ _ taken => taken) here) fun frameId => ?_
  refine meets_modify_bind (meets_modify_bind (meets_modify_bind ?_))
  refine meets_bind (m := fun _ => FramePut leave start input now frameId) ?_ fun _ =>
    meets_pure _ fun _ put => put
  intro handle held
  obtain ⟨_, ⟨_, ⟨_, ⟨earlier, ids, rfl, took, rfl⟩, rfl⟩, rfl⟩, rfl⟩ := held
  have put : ∀ handle, Busy leave (earlier.enterFrame ids (input.frame frameId now) input.payload
      input.uri) handle → FramePut leave start input now frameId handle :=
    fun _ busy => ⟨earlier, ids, reached, took, busy⟩
  exact flushFullPayloads_changes.meets.weaken (fun _ busy => busy) (fun _ => put)
    (fun handle busy => (put handle busy).reached) _ ⟨.refl, rfl⟩

theorem putFrame_changes (input : PutFrame) (now : Int64) :
    Keeps (Reached leave start) (putFrame input now) :=
  ((putFrame_puts input now).weaken (fun _ holds => holds) (fun _ _ put => put.reached)
    fun _ holds => holds).keeps

theorem deleteFrame_changes (frameId : FrameId) (now : Int64) :
    Keeps (Reached leave start) (deleteFrame frameId now) := by
  refine (meets_get_bind fun read reached => ?_).keeps
  have here : ∀ handle, handle = read → Reached leave start handle := by
    rintro _ rfl
    exact reached
  split
  · exact meets_lift (fun _ _ ok => nomatch ok) here
  · rename_i frame found
    refine meets_bind (meets_check here) fun _ => meets_bind (meets_fallible here) fun _ =>
      meets_modify_bind (meets_modify ?_)
    rintro _ ⟨_, rfl, rfl⟩
    have named : frame.frameId.toNat = frameId.toNat := (find_some _ found).2
    refine reached.tail (.frameTombstoned now ?_)
    rw [UInt64.toNat_inj.mp named]
    exact found

theorem indexFrameText_changes (analyze : AnalyzerDesc → Bytes → Option (List Bytes))
    (frameId : FrameId) (textSpaceId : TextSpaceId) :
    Keeps (Reached leave start) (indexFrameText analyze frameId textSpaceId) := by
  refine (meets_get_bind fun read reached => ?_).keeps
  have here : ∀ handle, handle = read → Reached leave start handle := by
    rintro _ rfl
    exact reached
  split
  · exact meets_lift (fun _ _ ok => nomatch ok) here
  refine meets_bind (meets_check here) fun _ => ?_
  split
  · exact meets_lift (fun _ _ ok => nomatch ok) here
  rename_i analyzer cached
  refine meets_bind (m := fun _ handle => handle = read) (meets_lift (fun _ _ _ same => same)
    here) fun payload => ?_
  split
  · exact meets_lift (fun _ _ ok => nomatch ok) here
  · rename_i tokens _
    refine meets_modify_bind (meets_modify ?_)
    rintro _ ⟨_, rfl, rfl⟩
    exact reached.tail (.textIndexed textSpaceId frameId _ tokens
      (Option.isSome_iff_exists.mpr ⟨analyzer, cached⟩))

/-! ### Vectors -/

theorem encodeVector_eq {params : CodecParams} {values encoded : List F32}
    (done : params.encodeVector values = .ok encoded) : encoded = values := by
  cases params with
  | qamLloydMax pairs =>
      simp only [CodecParams.encodeVector, Outcome.bind_eq_ok, Outcome.pure_eq,
        Outcome.ok.injEq] at done
      obtain ⟨_, -, _, -, same⟩ := done
      exact same.symm
  | upq rings =>
      simp only [CodecParams.encodeVector, Outcome.bind_eq_ok, Outcome.pure_eq,
        Outcome.ok.injEq] at done
      obtain ⟨_, -, same⟩ := done
      exact same.symm

/-- Rows are encoded one by one, and the stored form of a row is the row. -/
theorem encodeRows_eq {params : CodecParams} {rows encoded : List (List F32)}
    (done : encodeRows params rows = .ok encoded) :
    encoded = rows ∧ ∀ row ∈ rows, params.encodeVector row = .ok row := by
  induction rows generalizing encoded with
  | nil =>
      simp only [encodeRows, Outcome.pure_eq, Outcome.ok.injEq] at done
      exact ⟨done.symm, by simp⟩
  | cons row rows ih =>
      simp only [encodeRows, Outcome.bind_eq_ok, Outcome.pure_eq, Outcome.ok.injEq] at done
      obtain ⟨first, firstDone, rest, restDone, rfl⟩ := done
      obtain rfl := encodeVector_eq firstDone
      obtain ⟨rfl, each⟩ := ih restDone
      refine ⟨rfl, fun other member => ?_⟩
      rcases List.mem_cons.mp member with rfl | later
      · exact firstDone
      · exact each other later

theorem encodeRows_ok {params : CodecParams} {rows : List (List F32)}
    (each : ∀ row ∈ rows, params.encodeVector row = .ok row) : encodeRows params rows = .ok rows := by
  induction rows with
  | nil => rfl
  | cons row rows ih =>
      have rest := ih fun other member => each other (List.mem_cons_of_mem _ member)
      simp [encodeRows, each row List.mem_cons_self, rest]

/-- Some full chunk of the batch has a row that does not encode. -/
def PendingVectorBatch.DrainFails (batch : PendingVectorBatch) (params : CodecParams) : Prop :=
  ∃ row ∈ batch.rawValues.take batch.full, params.encodeVector row ≠ .ok row

theorem setBatch_setBatch (handle : ValiseFile) (key : BatchKey)
    (first second : PendingVectorBatch) :
    (handle.setBatch key first).setBatch key second = handle.setBatch key second := by
  simp only [ValiseFile.setBatch, store, upsert_upsert]

/-- Full chunks are drained, or dropped when a row in them does not encode. -/
theorem drainFullVectorChunks_changes (key : BatchKey) (property : ValiseFile → Prop)
    (reached : ∀ handle, property handle → Reached leave start handle)
    (safe : leave.losing = true ∨ ∀ handle batch, property handle → handle.batch key = some batch →
      ∃ params, valueAt UInt32.toNat key.2 handle.codecCache = some params ∧
        ¬batch.DrainFails params) :
    Meets property (drainFullVectorChunks key) (fun _ => Reached leave start)
      (fun handle => leave.losing = true ∧ Reached leave start handle) := by
  refine meets_get_bind fun read holds => ?_
  have here : ∀ handle, handle = read → Reached leave start handle := by
    rintro _ rfl
    exact reached _ holds
  split
  · exact meets_lift_or (fun _ handle _ same => here handle same)
      fun _ stopped _ => absurd (Eq.refl _) (stopped ())
  rename_i batch found
  split
  · exact meets_lift_or (fun _ handle _ same => here handle same)
      fun _ stopped _ => absurd (Eq.refl _) (stopped ())
  have dropped : leave.losing = true → ∀ handle, (∃ earlier, earlier = read ∧ handle = earlier.setBatch key
      { batch with rawValues := batch.rawValues.drop batch.full }) →
      leave.losing = true ∧ Reached leave start handle := by
    rintro loses _ ⟨_, rfl, rfl⟩
    exact ⟨loses, (reached _ holds).tail (.vectorsDropped _ loses found)⟩
  refine meets_modify_bind ?_
  split
  · rename_i missing
    refine meets_lift (fun _ _ ok => nomatch ok) (dropped (safe.resolve_right fun sound => ?_))
    obtain ⟨params, cached, -⟩ := sound read batch holds found
    exact nomatch missing.symm.trans cached
  · rename_i params cached
    refine meets_bind (m := fun encoded handle => encoded = batch.rawValues.take batch.full ∧ ∃ earlier, earlier = read ∧
      handle = earlier.setBatch key { batch with rawValues := batch.rawValues.drop batch.full }) ?_ fun encoded => ?_
    · by_cases encodes : ∃ encoded, encodeRows params (batch.rawValues.take batch.full) = .ok encoded
      · obtain ⟨encoded, done⟩ := encodes
        rw [done]
        rintro _ held
        exact ⟨(encodeRows_eq done).1, held⟩
      · refine meets_lift (fun encoded _ done => absurd ⟨encoded, done⟩ encodes)
          (dropped (safe.resolve_right fun sound => encodes ?_))
        obtain ⟨_, same, sound⟩ := sound read batch holds found
        obtain rfl := Option.some.inj (cached.symm.trans same)
        refine ⟨_, encodeRows_ok fun row member => ?_⟩
        by_contra fails
        exact sound ⟨row, member, fails⟩
    · refine meets_modify ?_
      rintro _ ⟨rfl, _, rfl, rfl⟩
      rw [setBatch_setBatch]
      exact (reached _ holds).tail (.vectorsDrained _ found)

namespace ValiseFile

/-- The rows of a batch that are not encoded yet. -/
def rawRows (handle : ValiseFile) (key : BatchKey) : List (List F32) :=
  ((handle.batch key).map PendingVectorBatch.rawValues).getD []

/-- With the new vector in it, every full chunk of the buffer encodes. -/
def PutEncodes (handle : ValiseFile) (input : PutVector) : Prop :=
  ∀ space codecId params,
    find (CatalogTableKind.rowId .embeddingSpace) input.embeddingSpaceId.toNat
      (handle.tables .embeddingSpace) = some space →
    input.values.length = space.dimension.toNat → space.primaryCodecId = some codecId →
    valueAt UInt32.toNat codecId handle.codecCache = some params →
    let rows := handle.rawRows (input.embeddingSpaceId, codecId) ++ [input.values]
    ∀ row ∈ rows.take (rows.length / vectorChunkSize * vectorChunkSize),
      params.encodeVector row = .ok row

end ValiseFile

/-- A change that enters nothing may be made where vectors may enter. -/
theorem Change.opened {losing : Bool} {handle after : ValiseFile}
    (change : Change ⟨losing, false⟩ handle after) : Change ⟨losing, true⟩ handle after := by
  cases change with
  | vectorEntered values enters => exact nomatch enters
  | vectorTombstoned found => exact .vectorTombstoned found
  | _ => constructor <;> assumption

theorem Reached.opened {losing : Bool} {handle : ValiseFile}
    (reached : Reached ⟨losing, false⟩ start handle) : Reached ⟨losing, true⟩ start handle :=
  reached.lift id fun _ _ => Change.opened

/-- A vector entered the catalog and a batch; nothing else entered, before or since. -/
def VectorPut (losing : Bool) (start : ValiseFile) (input : PutVector) (vectorId : VectorId)
    (handle : ValiseFile) : Prop :=
  ∃ earlier ids key batch desc, Reached ⟨losing, false⟩ start earlier ∧
    earlier.batch key = some batch ∧
    earlier.idAllocator.Took ids .vector vectorId.toNat ∧ desc.vectorId = vectorId ∧
    desc.dataSegmentId = batch.segmentId ∧ desc.ordinalInSegment = batch.vectors.length ∧
    desc.status = .active ∧
    Reached ⟨losing, false⟩ (earlier.enterVector ids key batch desc input.values) handle

/-- A put that fails has entered nothing, unless it lost what it entered. -/
def PutStopped (losing : Bool) (start handle : ValiseFile) : Prop :=
  Reached ⟨losing, false⟩ start handle ∨ losing = true ∧ Reached ⟨losing, true⟩ start handle

theorem VectorPut.reached {losing : Bool} {input : PutVector} {vectorId : VectorId}
    {handle : ValiseFile} (put : VectorPut losing start input vectorId handle) :
    Reached ⟨losing, true⟩ start handle := by
  obtain ⟨earlier, ids, key, batch, desc, reached, found, took, rfl, segment, ordinal, -, later⟩ := put
  have entered : Change ⟨losing, true⟩ earlier (earlier.enterVector ids key batch desc input.values) :=
    .vectorEntered _ rfl found took segment ordinal
  exact (reached.opened.tail entered).trans later.opened

theorem PutStopped.reached {losing : Bool} {handle : ValiseFile}
    (stopped : PutStopped losing start handle) : Reached ⟨losing, true⟩ start handle :=
  stopped.elim Reached.opened And.right

/-- There is a batch for the key, with the raw rows there were. -/
def BatchOpen (leave : Leave) (start : ValiseFile) (key : BatchKey) (handle : ValiseFile) : Prop :=
  Reached leave start handle ∧ handle.codecCache = start.codecCache ∧
    ∃ batch, handle.batch key = some batch ∧ batch.rawValues = start.rawRows key

theorem batchRank_injective : Function.Injective batchRank := by
  rintro ⟨firstSpace, firstCodec⟩ ⟨secondSpace, secondCodec⟩ same
  have both := toLex.injective same
  simp only [Prod.mk.injEq, UInt32.toNat_inj] at both
  exact Prod.ext both.1 both.2

theorem batch_setBatch (handle : ValiseFile) (key other : BatchKey) (batch : PendingVectorBatch) :
    (handle.setBatch key batch).batch other = if key = other then some batch else handle.batch other :=
  valueAt_store batchRank batchRank_injective other key batch handle.pendingVectorBatches

theorem openBatch_opens (key : BatchKey) :
    Meets (fun handle => handle = start) (openBatch key) (fun _ => BatchOpen leave start key)
      (Reached leave start) := by
  refine meets_get_bind fun read same => ?_
  subst same
  split
  · rename_i batch found
    refine meets_pure _ ?_
    rintro _ rfl
    exact ⟨.refl, rfl, batch, found, by simp [ValiseFile.rawRows, found]⟩
  · rename_i missing
    refine meets_bind ((allocateSegmentId_takes _).weaken (fun _ same => same)
      (fun _ _ taken => taken) ?_) fun segmentId => meets_modify ?_
    · rintro _ rfl
      exact .refl
    · rintro _ ⟨_, ids, rfl, took, rfl⟩
      refine ⟨.single (.batchOpened missing took), rfl, ⟨key.1, key.2, segmentId, [], [], []⟩, ?_, ?_⟩
      · simp [batch_setBatch]
      · simp [ValiseFile.rawRows, missing]

theorem putVector_puts {losing : Bool} {input : PutVector}
    (safe : losing = true ∨ start.PutEncodes input) :
    Meets (fun handle => handle = start) (putVector input) (VectorPut losing start input)
      (PutStopped losing start) := by
  have here : ∀ handle, handle = start → PutStopped losing start handle := by
    rintro _ rfl
    exact .inl .refl
  refine meets_get_bind fun read same => ?_
  subst same
  split
  · exact meets_lift (fun _ _ ok => nomatch ok) here
  rename_i frame ownerFound
  refine meets_bind (meets_check here) fun _ => ?_
  split
  · exact meets_lift (fun _ _ ok => nomatch ok) here
  rename_i space spaceFound
  refine meets_bind (m := fun _ handle => handle = read ∧
    input.values.length = space.dimension.toNat) ?_ fun _ => ?_
  · exact meets_lift (fun _ _ done same => ⟨same, Outcome.ensure_eq_ok.mp done⟩) here
  have known : ∀ handle, (handle = read ∧ input.values.length = space.dimension.toNat) →
      PutStopped losing read handle := fun handle held => here handle held.1
  refine meets_bind (meets_check known) fun _ => ?_
  split
  · exact meets_lift (fun _ _ ok => nomatch ok) known
  rename_i codecId primary
  refine meets_bind (m := fun _ handle => handle = read ∧
    input.values.length = space.dimension.toNat ∧
    (valueAt UInt32.toNat codecId read.codecCache).isSome) ?_ fun _ => ?_
  · exact meets_lift (fun _ _ done held => ⟨held.1, held.2, Outcome.ensure_eq_ok.mp done⟩) known
  refine meets_bind (m := fun _ handle =>
    BatchOpen ⟨losing, false⟩ read (input.embeddingSpaceId, codecId) handle ∧
    input.values.length = space.dimension.toNat ∧
    (valueAt UInt32.toNat codecId read.codecCache).isSome) ?_ fun _ => ?_
  · rintro handle ⟨rfl, sized, cached⟩
    exact (openBatch_opens _).weaken (fun _ same => same)
      (fun _ _ opened => ⟨opened, sized, cached⟩) (fun _ => .inl) _ rfl
  refine meets_bind ((allocateVectorId_takes _).weaken (fun _ held => held)
    (fun _ _ taken => taken) fun _ held => .inl held.1.1) fun vectorId => ?_
  refine meets_get_bind fun taken held => ?_
  obtain ⟨opened, ids, ⟨⟨reached, sameCache, batch, found, raw⟩, sized, cached⟩, took, rfl⟩ := held
  have allocated : ∀ handle, handle = { opened with idAllocator := ids } →
      PutStopped losing read handle := by
    rintro _ rfl
    exact .inl (reached.tail (.allocated took))
  split
  · exact meets_lift (fun _ _ ok => nomatch ok) allocated
  rename_i held again
  obtain rfl : batch = held := Option.some.inj (found.symm.trans again)
  refine meets_modify_bind (meets_modify_bind (meets_modify_bind ?_))
  refine meets_bind (m := fun _ => VectorPut losing read input vectorId) ?_ fun _ =>
    meets_pure _ fun _ put => put
  let key : BatchKey := (input.embeddingSpaceId, codecId)
  let desc : VectorDesc := ⟨vectorId, input.ownerFrameId, frame.collectionId,
    input.embeddingSpaceId, batch.segmentId, batch.vectors.length, .active⟩
  let entered := opened.enterVector ids key batch desc input.values
  have put : ∀ handle, Reached ⟨losing, false⟩ entered handle →
      VectorPut losing read input vectorId handle :=
    fun _ later => ⟨opened, ids, key, batch, desc, reached, found, took, rfl, rfl, rfl, rfl, later⟩
  refine (@drainFullVectorChunks_changes ⟨losing, false⟩ entered key (fun handle => handle = entered)
    (fun _ same => same ▸ .refl) ?_).weaken ?_ (fun _ => put) fun handle later =>
      .inr ⟨later.1, (put handle later.2).reached⟩
  · refine safe.imp_right fun encodes => ?_
    rintro _ full rfl fullFound
    obtain ⟨params, isCached⟩ := Option.isSome_iff_exists.mp cached
    refine ⟨params, sameCache ▸ isCached, ?_⟩
    rintro ⟨row, member, fails⟩
    have there : entered.batch key = some { batch with
        vectors := batch.vectors ++ [desc]
        rawValues := batch.rawValues ++ [input.values] } :=
      (batch_setBatch { opened with idAllocator := ids } key key _).trans (if_pos rfl)
    obtain rfl := Option.some.inj (there.symm.trans fullFound)
    refine fails (encodes space codecId params spaceFound sized primary isCached row ?_)
    rw [← raw]
    exact member
  · rintro _ ⟨_, ⟨_, ⟨_, rfl, rfl⟩, rfl⟩, rfl⟩
    rfl

theorem putVector_changes (input : PutVector) : Keeps (Reached .any start) (putVector input) := by
  refine Meets.keeps fun handle reached => ?_
  exact (@putVector_puts handle true input (.inl rfl)).weaken (fun _ same => same)
    (fun _ _ put => reached.trans put.reached) (fun _ stopped => reached.trans stopped.reached)
    handle rfl

theorem deleteVector_changes (vectorId : VectorId) :
    Keeps (Reached leave start) (deleteVector vectorId) := by
  refine (meets_get_bind fun read reached => ?_).keeps
  have here : ∀ handle, handle = read → Reached leave start handle := by
    rintro _ rfl
    exact reached
  refine meets_bind (meets_check here) fun _ => ?_
  split
  · exact meets_lift (fun _ _ ok => nomatch ok) here
  · rename_i desc found
    refine meets_bind (meets_check here) fun _ => meets_modify_bind (meets_modify ?_)
    rintro _ ⟨_, rfl, rfl⟩
    have named : desc.vectorId.toNat = vectorId.toNat := (find_some _ found).2
    refine reached.tail (.vectorTombstoned ?_)
    rw [UInt64.toNat_inj.mp named]
    exact found

end Valise
