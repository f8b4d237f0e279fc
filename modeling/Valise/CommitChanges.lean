import Valise.SoundHandle

/-!
The steps of a commit as changes of the handle, and the footer they prepare: table by table its
roots come to hold all of the catalog.
-/

namespace Valise

open ByteLists Chains Commands Command DeltaTables Outcomes Relation SortedTables

/-- The dirty ids of the tables that are still to be written. -/
def unwritten (kinds : List CatalogTableKind) (dirtyIds : CatalogTableKind → List Nat) :
    CatalogTableKind → List Nat :=
  fun kind => if kind ∈ kinds then dirtyIds kind else []

theorem unwritten_update {kinds : List CatalogTableKind} {kind : CatalogTableKind}
    (member : kind ∈ kinds) (dirtyIds : CatalogTableKind → List Nat) (marked : List Nat) :
    unwritten kinds (Function.update dirtyIds kind marked) =
      Function.update (unwritten kinds dirtyIds) kind marked := by
  funext other
  by_cases same : other = kind
  · subst same
    simp [unwritten, member]
  · simp [unwritten, Function.update_of_ne same]

/-- A commit under way: the footer holds the catalog but for the tables still to be written. -/
structure Writing (leave : Leave) (start : ValiseFile) (kinds : List CatalogTableKind)
    (body : FooterBody) (handle : ValiseFile) : Prop where
  reached : Reached leave start handle
  sound : handle.Sound
  dirty : handle.dirty = true
  settled : NothingWaits handle
  rooted : Rooted handle.file handle.tables handle.textOf body (unwritten kinds handle.dirtyIds)
  texts : ∀ textSpaceId, valueAt UInt32.toNat textSpaceId handle.texts = none →
    body.textRootsOf textSpaceId = {}

variable {leave : Leave} {start : ValiseFile} {kinds : List CatalogTableKind} {body : FooterBody}
  {handle : ValiseFile}

/-! ### Registered segments -/

/-- The state after a segment was stored under a new id in one where the property held. -/
def AfterStoring (property : ValiseFile → Prop) (content : SegmentContent)
    (segmentType : SegmentType) (itemCount : Nat) (root : SegmentPlace) (handle : ValiseFile) : Prop :=
  ∃ earlier ids segmentId, property earlier ∧
    earlier.idAllocator.Took ids .segment segmentId.toNat ∧
    root = ⟨segmentId, earlier.file.length⟩ ∧
    handle = earlier.storeSegment ids segmentId content segmentType itemCount .none

theorem meets_appendRegistered {property : ValiseFile → Prop} {point : IoPoint}
    {segmentType : SegmentType} {itemCount : Nat} {content : SegmentContent}
    (reached : ∀ handle, property handle → Reached leave start handle) :
    Meets property (appendRegisteredSegment point segmentType itemCount content)
      (fun root => AfterStoring property content segmentType itemCount root)
      (Reached leave start) := by
  refine meets_bind ((allocateSegmentId_takes property).weaken (fun _ holds => holds)
    (fun _ _ taken => taken) reached) fun segmentId => ?_
  refine meets_bind (meets_append ?_) fun root => meets_modify_bind (meets_pure _ ?_)
  · rintro _ ⟨earlier, ids, holds, took, rfl⟩
    exact (reached earlier holds).tail (.allocated took)
  · rintro _ ⟨_, ⟨_, ⟨earlier, ids, holds, took, rfl⟩, rfl, rfl⟩, rfl⟩
    exact ⟨earlier, ids, segmentId, holds, took, rfl, rfl⟩

theorem Writing.storeSegment (writing : Writing leave start kinds body handle)
    (member : .segment ∈ kinds) {ids : IdAllocator} {segmentId : SegmentId}
    (took : handle.idAllocator.Took ids .segment segmentId.toNat) (content : SegmentContent)
    (segmentType : SegmentType) (itemCount : Nat) (compression : Compression)
    (packed : content.Packed compression) :
    Writing leave start kinds body
      (handle.storeSegment ids segmentId content segmentType itemCount compression) := by
  have change : Change leave handle (handle.storeSegment ids segmentId content segmentType
      itemCount compression) := .segmentStored _ _ _ _ writing.dirty packed took
  refine ⟨writing.reached.tail change, writing.sound.change change, writing.dirty,
    ⟨writing.settled.payloads, writing.settled.vectors⟩, ?_, writing.texts⟩
  have grown := writing.rooted.append [⟨segmentId, content⟩]
  have chained := grown.chained .segment
  simp only [unwritten, member, if_true] at chained
  have marked := grown.setTable (chained.upsert
    ⟨segmentId, segmentType, ⟨segmentId, handle.file.length⟩, itemCount, compression⟩)
  rw [← unwritten_update member] at marked
  exact marked

/-! ### Texts -/

theorem appendTextSegment_writes {point : IoPoint} {segmentType : SegmentType} {itemCount : Nat}
    {textSpaceId : TextSpaceId} (texts : List (TextSpaceId × TextHandle) → Prop)
    (member : .segment ∈ kinds) :
    Meets (fun handle => Writing leave start kinds body handle ∧ texts handle.texts)
      (appendTextSegment point segmentType itemCount textSpaceId)
      (fun _ handle => Writing leave start kinds body handle ∧ texts handle.texts)
      (Reached leave start) := by
  refine meets_bind (meets_appendRegistered fun _ held => held.1.reached) fun root => meets_pure _ ?_
  rintro _ ⟨earlier, ids, segmentId, ⟨writing, same⟩, took, -, rfl⟩
  exact ⟨writing.storeSegment member took _ _ _ _ nofun, same⟩

theorem textRootsOf_store (body : FooterBody) (textSpaceId other : TextSpaceId) (roots : TextRoots) :
    ({ body with textRoots := store UInt32.toNat textSpaceId roots body.textRoots } :
      FooterBody).textRootsOf other =
      if textSpaceId = other then roots else body.textRootsOf other := by
  simp only [FooterBody.textRootsOf, valueAt_store UInt32.toNat fun _ _ => UInt32.toNat_inj.mp]
  split <;> rfl

/-- A text space may change under a footer that holds its new file. -/
theorem Writing.setText (writing : Writing leave start kinds body handle) {textSpaceId : TextSpaceId}
    {text after : TextHandle} (known : valueAt UInt32.toNat textSpaceId handle.texts = some text)
    (sameRoots : after.roots = text.roots) (grown : ∃ later, after.file = text.file ++ later)
    {body' : FooterBody}
    (rooted : Rooted handle.file handle.tables (handle.setText textSpaceId after).textOf body'
      (unwritten kinds handle.dirtyIds))
    (others : ∀ other ≠ textSpaceId, body'.textRootsOf other = body.textRootsOf other) :
    Writing leave start kinds body' (handle.setText textSpaceId after) := by
  have current : handle.textOf textSpaceId = text := by simp [ValiseFile.textOf, known]
  have change : Change leave handle (handle.setText textSpaceId after) := .textFlushed textSpaceId
    (current ▸ sameRoots) (current ▸ grown) (Option.isSome_iff_exists.mpr ⟨text, known⟩)
  refine ⟨writing.reached.tail change, writing.sound.change change, writing.dirty,
    ⟨writing.settled.payloads, writing.settled.vectors⟩, rooted, ?_⟩
  intro other missing
  simp only [ValiseFile.setText, valueAt_store UInt32.toNat fun _ _ => UInt32.toNat_inj.mp]
    at missing
  split at missing
  · cases missing
  · rename_i apart
    rw [others other (Ne.symm apart)]
    exact writing.texts other missing

theorem Writing.setState (writing : Writing leave start kinds body handle) {textSpaceId : TextSpaceId}
    {text after : TextHandle} (known : valueAt UInt32.toNat textSpaceId handle.texts = some text)
    (sameRoots : after.roots = text.roots) (sameFile : after.file = text.file) :
    Writing leave start kinds body (handle.setText textSpaceId after) := by
  refine writing.setText known sameRoots ⟨[], by simp [sameFile]⟩ ?_ fun _ _ => rfl
  refine writing.rooted.setText fun other => ⟨[], ?_⟩
  rw [textOf_setText, List.append_nil]
  split
  · rename_i same
    subst same
    simp [ValiseFile.textOf, known, sameFile]
  · rfl

/-- The footer moves to the segments of a flush. -/
theorem Writing.appendFlush (writing : Writing leave start kinds body handle)
    {textSpaceId : TextSpaceId} {text : TextHandle}
    (known : valueAt UInt32.toNat textSpaceId handle.texts = some text) (out : FlushOutput) :
    Writing leave start kinds
      { body with
        textRoots := store UInt32.toNat textSpaceId
          (TextHandle.appendFlush text.file (body.textRootsOf textSpaceId) out).2 body.textRoots }
      (handle.setText textSpaceId
        { text with
          file := (TextHandle.appendFlush text.file (body.textRootsOf textSpaceId) out).1 }) := by
  have current : handle.textOf textSpaceId = text := by simp [ValiseFile.textOf, known]
  refine writing.setText known (by rfl) ⟨_, by rfl⟩ ?_ fun other apart => ?_
  · refine ⟨writing.rooted.chained, writing.rooted.filters, writing.rooted.timeIndex, fun other => ?_⟩
    rw [textRootsOf_store, textOf_setText]
    split
    · exact (current ▸ writing.rooted.texts textSpaceId).flush out
    · exact writing.rooted.texts other
  · rw [textRootsOf_store, if_neg (Ne.symm apart)]

/-- The prepared footer of a commit under way. -/
def Prepares (leave : Leave) (start : ValiseFile) (kinds : List CatalogTableKind)
    (prepared : PreparedCommit) (handle : ValiseFile) : Prop :=
  Writing leave start kinds prepared.body handle

theorem flushPendingText_writes (member : .segment ∈ kinds) (prepared : PreparedCommit)
    (textSpaceId : TextSpaceId) :
    Meets (Prepares leave start kinds prepared) (flushPendingText prepared textSpaceId)
      (fun prepared => Prepares leave start kinds prepared) (Reached leave start) := by
  refine meets_get_bind fun read writing => ?_
  have here : ∀ handle, handle = read → Reached leave start handle := by
    rintro _ rfl
    exact writing.reached
  split
  · exact meets_lift (fun _ _ ok => nomatch ok) here
  rename_i text known
  split
  · refine meets_pure _ ?_
    rintro _ rfl
    exact writing
  -- the batch is taken from the map before anything of it is written
  refine meets_modify_bind (meets_bind (m := fun out handle =>
    Writing leave start kinds prepared.body handle ∧ valueAt UInt32.toNat textSpaceId handle.texts =
      some { text with state := (buildFlushOutput text.pending text.state).1, pending := [] }) ?_ ?_)
  · have taken : ∀ handle, (∃ earlier, earlier = read ∧ handle = earlier.setText textSpaceId
        { text with state := (buildFlushOutput text.pending text.state).1, pending := [] }) →
        Writing leave start kinds prepared.body handle ∧
        valueAt UInt32.toNat textSpaceId handle.texts =
          some { text with state := (buildFlushOutput text.pending text.state).1, pending := [] } := by
      rintro _ ⟨_, rfl, rfl⟩
      refine ⟨Writing.setState writing known rfl rfl, ?_⟩
      simp [ValiseFile.setText, valueAt_store UInt32.toNat fun _ _ => UInt32.toNat_inj.mp]
    exact meets_lift (fun _ handle _ held => taken handle held) fun handle held =>
      (taken handle held).1.reached
  intro out
  let taken : TextHandle :=
    { text with state := (buildFlushOutput text.pending text.state).1, pending := [] }
  let there (texts : List (TextSpaceId × TextHandle)) : Prop :=
    valueAt UInt32.toNat textSpaceId texts = some taken
  refine meets_bind (appendTextSegment_writes there member) fun _ => ?_
  refine meets_bind (appendTextSegment_writes there member) fun _ => ?_
  refine meets_bind (appendTextSegment_writes there member) fun _ => ?_
  refine meets_modify_bind (meets_pure _ ?_)
  rintro _ ⟨handle, ⟨writing, held⟩, rfl⟩
  exact writing.appendFlush held out

theorem flushPendingTextIndexes_writes (member : .segment ∈ kinds) (prepared : PreparedCommit) :
    Meets (Prepares leave start kinds prepared) (flushPendingTextIndexes prepared)
      (fun prepared => Prepares leave start kinds prepared) (Reached leave start) :=
  meets_get_bind fun _ writing => (meets_foldEach
    (fun _ prepared => Prepares leave start kinds prepared)
    (fun textSpaceId _ prepared => flushPendingText_writes member prepared textSpaceId) _ _).weaken
      (fun _ same => same ▸ writing) (fun _ _ holds => holds) fun _ reached => reached

/-! ### Catalog tables -/

theorem Rooted.withRoot {file : StoredFile} {tables : Tables} {texts : TextSpaceId → TextHandle}
    {dirty after : CatalogTableKind → List Nat} (rooted : Rooted file tables texts body dirty)
    {kind : CatalogTableKind} {root : SegmentPlace}
    (chained : Chained file (some root) kind (tables kind) [])
    (others : ∀ other ≠ kind, after other = dirty other) (written : after kind = []) :
    Rooted file tables texts (body.withRoot kind root) after where
  chained other := by
    by_cases same : other = kind
    · subst same
      rw [written]
      simpa [FooterBody.withRoot] using chained
    · rw [others other same]
      simpa [FooterBody.withRoot, Function.update_of_ne same] using rooted.chained other
  filters := rooted.filters
  timeIndex := rooted.timeIndex
  texts := rooted.texts

/-- A table with nothing dirty needs no new root. -/
theorem Writing.skip {kind : CatalogTableKind} {rest : List CatalogTableKind}
    (writing : Writing leave start (kind :: rest) body handle) (clean : handle.dirtyIds kind = []) :
    Writing leave start rest body handle := by
  refine ⟨writing.reached, writing.sound, writing.dirty, writing.settled, ?_, writing.texts⟩
  have same : unwritten rest handle.dirtyIds = unwritten (kind :: rest) handle.dirtyIds := by
    funext other
    by_cases here : other = kind
    · subst here
      simp [unwritten, clean]
    · simp [unwritten, here]
  rw [same]
  exact writing.rooted

/-- The segments of the catalog are not payloads. -/
theorem encodeCatalogDelta_packed {kind : CatalogTableKind} {previous : Option SegmentPlace}
    {rows : List kind.Row} {content : SegmentContent} {compression : Compression}
    (encoded : encodeCatalogDelta kind previous rows = .ok content) :
    content.Packed compression := by
  rintro bytes rfl
  cases kind with
  | frame =>
      obtain ⟨_, -, same⟩ := Outcome.bind_eq_ok.mp encoded
      exact nomatch same
  | _ => exact nomatch encoded

theorem flushCatalogTable_writes {kind : CatalogTableKind} {rest : List CatalogTableKind}
    (notSegment : kind ≠ .segment) (absent : kind ∉ rest) (member : .segment ∈ rest)
    (body : FooterBody) :
    Meets (Writing leave start (kind :: rest) body) (flushCatalogTable body kind)
      (fun body => Writing leave start rest body) (Reached leave start) := by
  refine meets_get_bind fun read writing => ?_
  have here : ∀ handle, handle = read → Reached leave start handle := by
    rintro _ rfl
    exact writing.reached
  split
  · rename_i clean
    refine meets_pure _ ?_
    rintro _ rfl
    exact writing.skip clean
  refine meets_bind (meets_fallible here) fun _ => ?_
  refine meets_bind (m := fun content handle => handle = read ∧ encodeCatalogDelta kind
    (body.roots kind) (read.dirtyRows kind) = .ok content) ?_ fun content => ?_
  · exact meets_lift (fun _ _ encoded same => ⟨same, encoded⟩) here
  refine meets_bind (meets_appendRegistered fun handle held => here handle held.1) fun root =>
    meets_pure _ ?_
  rintro _ ⟨earlier, ids, segmentId, ⟨rfl, encoded⟩, took, rfl, rfl⟩
  have stored := writing.storeSegment (List.mem_cons_of_mem _ member) took content kind.segmentType
    (earlier.dirtyRows kind).length .none (encodeCatalogDelta_packed encoded)
  refine ⟨stored.reached, stored.sound, stored.dirty, stored.settled, ?_, stored.texts⟩
  refine stored.rooted.withRoot ?_ (fun other apart => ?_) ?_
  · have chained := writing.rooted.chained kind
    simp only [unwritten, List.mem_cons_self, if_true] at chained
    have flushed := chained.flush encoded segmentId
    simpa [ValiseFile.storeSegment, ValiseFile.upsertRow, ValiseFile.setTable,
      Function.update_of_ne notSegment] using flushed
  · simp [unwritten, apart]
  · simp [unwritten, absent]

theorem flushCatalogTables_writes {order : List CatalogTableKind} (distinct : order.Nodup)
    (notSegment : .segment ∉ order) (body : FooterBody) :
    Meets (Writing leave start (order ++ [.segment]) body) (foldEach order body flushCatalogTable)
      (fun body => Writing leave start [.segment] body) (Reached leave start) := by
  induction order generalizing body with
  | nil => exact meets_pure body fun _ writing => writing
  | cons kind order ih =>
      obtain ⟨absent, rest⟩ := List.nodup_cons.mp distinct
      obtain ⟨apart, others⟩ := not_or.mp (fun held => notSegment (List.mem_cons.mpr held))
      refine meets_bind (flushCatalogTable_writes (Ne.symm apart) ?_ ?_ body) fun body =>
        ih rest others body
      · simp [absent, Ne.symm apart]
      · simp

/-! ### Filters, the time index, and the registry -/

theorem Writing.footer (writing : Writing leave start kinds body handle) {body' : FooterBody}
    (roots : body'.roots = body.roots) (textRoots : body'.textRoots = body.textRoots)
    (filters : ∀ entry ∈ body'.collectionFilterRoots, ∃ collectionId frameIds vectorIds,
      handle.file.readSegment entry.2 = some (.collectionFilter collectionId frameIds vectorIds))
    (timeIndex : ∀ root, body'.timeIndexRoot = some root →
      ∃ entries, handle.file.readSegment root = some (.timeIndex entries)) :
    Writing leave start kinds body' handle := by
  have same : ∀ textSpaceId, body'.textRootsOf textSpaceId = body.textRootsOf textSpaceId :=
    fun textSpaceId => by simp only [FooterBody.textRootsOf, textRoots]
  refine ⟨writing.reached, writing.sound, writing.dirty, writing.settled, ⟨?_, filters, timeIndex, ?_⟩, ?_⟩
  · intro kind
    rw [roots]
    exact writing.rooted.chained kind
  · intro textSpaceId
    rw [same]
    exact writing.rooted.texts textSpaceId
  · intro textSpaceId missing
    rw [same]
    exact writing.texts textSpaceId missing

theorem Writing.cached (writing : Writing leave start kinds body handle)
    (filters : List (CollectionId × List FrameId × List VectorId))
    (timeIndex : List TimeIndexEntry) :
    Writing leave start kinds body
      { handle with collectionFilterCache := filters, timeIndexCache := timeIndex } := by
  have change : Change leave handle _ := .cached filters timeIndex
  exact ⟨writing.reached.tail change, writing.sound.change change, writing.dirty,
    ⟨writing.settled.payloads, writing.settled.vectors⟩, writing.rooted, writing.texts⟩

theorem writeCollectionFilterSegment_writes (member : .segment ∈ kinds) (body : FooterBody)
    (collectionId : CollectionId) :
    Meets (Writing leave start kinds body) (writeCollectionFilterSegment body collectionId)
      (fun body => Writing leave start kinds body) (Reached leave start) := by
  refine meets_get_bind fun read writing => ?_
  have here : ∀ handle, handle = read → Reached leave start handle := by
    rintro _ rfl
    exact writing.reached
  refine meets_bind (m := fun _ handle => handle = read) (meets_lift (fun _ _ _ same => same) here)
    fun _ => ?_
  refine meets_bind (m := fun _ handle => handle = read) (meets_lift (fun _ _ _ same => same) here)
    fun _ => ?_
  refine meets_bind (meets_appendRegistered here) fun root => meets_modify_bind (meets_pure _ ?_)
  rintro _ ⟨_, ⟨earlier, ids, segmentId, rfl, took, rfl, rfl⟩, rfl⟩
  let frameIds := earlier.collectionFrames collectionId
  let vectorIds := earlier.collectionVectors collectionId
  have stored := (writing.storeSegment member took
    (.collectionFilter collectionId frameIds vectorIds) .collectionFilter
    (frameIds.length + vectorIds.length) .none nofun).cached
    (store UInt32.toNat collectionId (frameIds, vectorIds) earlier.collectionFilterCache)
    earlier.timeIndexCache
  refine stored.footer rfl rfl (fun entry inside => ?_) stored.rooted.timeIndex
  rcases mem_upsert _ inside with rfl | old
  · exact ⟨collectionId, frameIds, vectorIds, readSegment_last ..⟩
  · exact stored.rooted.filters entry old

theorem writeTimeIndexSegment_writes (member : .segment ∈ kinds) (body : FooterBody) :
    Meets (Writing leave start kinds body) (writeTimeIndexSegment body)
      (fun body => Writing leave start kinds body) (Reached leave start) := by
  refine meets_get_bind fun read writing => ?_
  have here : ∀ handle, handle = read → Reached leave start handle := by
    rintro _ rfl
    exact writing.reached
  split
  · refine meets_pure _ ?_
    rintro _ rfl
    exact writing
  refine meets_bind (m := fun _ handle => handle = read) (meets_lift (fun _ _ _ same => same) here)
    fun entries => ?_
  refine meets_bind (meets_appendRegistered here) fun root => meets_modify_bind (meets_pure _ ?_)
  rintro _ ⟨_, ⟨earlier, ids, segmentId, rfl, took, rfl, rfl⟩, rfl⟩
  have stored := (writing.storeSegment member took (.timeIndex entries) .timeIndex entries.length
    .none nofun).cached earlier.collectionFilterCache entries
  refine stored.footer rfl rfl stored.rooted.filters fun root same => ?_
  obtain rfl := Option.some.inj same
  exact ⟨entries, readSegment_last ..⟩

/-- The registry is written last, and its own segment is not in it. -/
theorem flushSegmentRegistry_writes (body : FooterBody) :
    Meets (Writing leave start [.segment] body) (flushSegmentRegistry body)
      (fun body => Writing leave start [] body) (Reached leave start) := by
  refine meets_get_bind fun read writing => ?_
  have here : ∀ handle, handle = read → Reached leave start handle := by
    rintro _ rfl
    exact writing.reached
  split
  · rename_i clean
    refine meets_pure _ ?_
    rintro _ rfl
    exact writing.skip clean
  refine meets_bind (meets_fallible here) fun _ => ?_
  refine meets_bind ((allocateSegmentId_takes _).weaken (fun _ same => same)
    (fun _ _ taken => taken) here) fun segmentId => ?_
  refine meets_bind (meets_append ?_) fun root => meets_pure _ ?_
  · rintro _ ⟨earlier, ids, rfl, took, rfl⟩
    exact writing.reached.tail (.allocated took)
  rintro _ ⟨_, ⟨earlier, ids, rfl, took, rfl⟩, rfl, rfl⟩
  have allocated : Change leave earlier _ := .allocated took
  have appended : Change leave { earlier with idAllocator := ids } _ := .appended
    ⟨segmentId, .delta .segment ⟨body.roots .segment, earlier.dirtyRows .segment⟩⟩
  refine ⟨(writing.reached.tail allocated).tail appended,
    (writing.sound.change allocated).change appended, writing.dirty,
    ⟨writing.settled.payloads, writing.settled.vectors⟩, ?_, writing.texts⟩
  refine (writing.rooted.append [⟨segmentId, .delta .segment ⟨body.roots .segment,
    earlier.dirtyRows .segment⟩⟩]).withRoot ?_ (fun other apart => ?_) ?_
  · have chained := writing.rooted.chained .segment
    simp only [unwritten, List.mem_singleton, if_true] at chained
    exact chained.flush rfl segmentId
  · simp [unwritten, apart]
  · simp [unwritten]

/-! ### Vectors -/

/-- The rows of a batch that are still raw can be encoded. -/
def PendingVectorBatch.Encodes (batch : PendingVectorBatch)
    (codecs : List (CodecId × CodecParams)) : Prop :=
  batch.rawValues = [] ∨ ∃ params, valueAt UInt32.toNat batch.codecId codecs = some params ∧
    ∀ row ∈ batch.rawValues, params.encodeVector row = .ok row

/-- Nothing stops the flush of the batch. -/
structure PendingVectorBatch.Flushes (batch : PendingVectorBatch) (handle : ValiseFile) : Prop where
  counted : batch.vectors.length < 2 ^ 32
  encodes : batch.Encodes handle.codecCache
  finishes : (batch.append batch.rawValues).Finishes
  appends : handle.faults (.appendVectors batch.embeddingSpaceId batch.codecId) = false
  syncs : handle.faults (.syncVectors batch.embeddingSpaceId batch.codecId) = false

def ValiseFile.BatchesFlush (handle : ValiseFile) : Prop :=
  ∀ key batch, handle.batch key = some batch → batch.vectors = [] ∨ batch.Flushes handle

theorem encodeTail_encodes {batch : PendingVectorBatch} {read : ValiseFile}
    (stops : ¬batch.Encodes read.codecCache → Reached leave start read) :
    Meets (fun handle => handle = read) (encodeTail batch)
      (fun encoded handle => encoded.written = (batch.append batch.rawValues).written ∧ handle = read)
      (Reached leave start) := by
  unfold encodeTail
  split
  · rename_i none
    refine meets_pure _ fun handle same => ⟨?_, same⟩
    simp [PendingVectorBatch.append, none]
  rename_i some
  refine meets_get_bind fun handle same => ?_
  subst same
  split
  · rename_i missing
    refine meets_lift (fun _ _ ok => nomatch ok) fun other same => same ▸ stops ?_
    rintro (none | ⟨params, cached, -⟩)
    · exact some none
    · exact nomatch missing.symm.trans cached
  · rename_i params cached
    refine meets_bind (m := fun encoded other => encoded = batch.rawValues ∧ other = handle)
      (meets_lift_or (fun encoded other done same => ⟨(encodeRows_eq done).1, same⟩)
        fun other stopped same => same ▸ stops ?_) fun encoded => meets_pure _ ?_
    · rintro (none | ⟨others, found, encodes⟩)
      · exact some none
      · obtain rfl := Option.some.inj (cached.symm.trans found)
        exact stopped _ (encodeRows_ok encodes)
    · rintro other ⟨rfl, rfl⟩
      exact ⟨rfl, rfl⟩

/-- A batch that left the map is lost when its flush stops. -/
theorem flushPendingBatch_writes (key : BatchKey) {batch : PendingVectorBatch} {read : ValiseFile}
    (busy : Busy leave start read)
    (safe : leave.losing = true ∨ batch.Flushes read) :
    Meets (fun handle => handle = read.dropBatch key) (flushPendingBatch batch)
      (fun _ handle => handle = read.flushBatch key batch ∧
        (batch.append batch.rawValues).Finishes) (Reached leave start) := by
  have lost : leave.losing = true →
      ∀ handle, handle = read.dropBatch key → Reached leave start handle := by
    rintro loses _ rfl
    exact busy.1.tail (.batchDropped key (.inl loses))
  refine meets_bind (meets_check_or fun handle many same => ?_) fun _ => ?_
  · exact lost (safe.resolve_right fun flushes => many flushes.counted) handle same
  refine meets_bind (encodeTail_encodes fun raw => ?_) fun encoded => ?_
  · exact lost (safe.resolve_right fun flushes => raw flushes.encodes) _ rfl
  have same : encoded.written = (batch.append batch.rawValues).written →
      (encoded.Finishes ↔ (batch.append batch.rawValues).Finishes) := by
    intro rows
    rw [PendingVectorBatch.Finishes, rows, PendingVectorBatch.Finishes]
  refine meets_bind (m := fun _ handle => encoded.Finishes ∧
    encoded.written = (batch.append batch.rawValues).written ∧ handle = read.dropBatch key)
    (meets_lift_or (fun _ _ done held => ⟨Outcome.ensure_eq_ok.mp done, held⟩)
      fun handle stopped held => ?_) fun _ => ?_
  · refine lost (safe.resolve_right fun flushes => ?_) handle held.2
    exact stopped () (Outcome.ensure_true _ ((same held.1).mpr flushes.finishes))
  refine meets_bind (meets_append_or fun handle fault held => ?_) fun root => ?_
  · refine lost (safe.resolve_right fun flushes => ?_) handle held.2.2
    rw [held.2.2] at fault
    exact nomatch fault.symm.trans flushes.appends
  refine meets_bind (meets_fallible_or ?_) fun _ => meets_modify ?_
  · rintro _ fault ⟨_, ⟨finishes, rows, rfl⟩, -, rfl⟩
    refine (lost (safe.resolve_right fun flushes => ?_) _ rfl).tail (.appended _)
    exact nomatch fault.symm.trans flushes.syncs
  · rintro _ ⟨_, ⟨finishes, rows, rfl⟩, rfl, rfl⟩
    refine ⟨?_, (same rows).mp finishes⟩
    rw [rows]
    rfl

/-- The state between the flushes of two batches: those in the map are still to be flushed. -/
structure Flushing (leave : Leave) (start : ValiseFile) (keys : List BatchKey) (handle : ValiseFile) :
    Prop where
  busy : Busy leave start handle
  placed : handle.pendingPayloadFrames = []
  safe : leave.losing = true ∨ handle.BatchesFlush
  left : ∀ key batch, handle.batch key = some batch → key ∈ keys

/-- What is left in the map still flushes. -/
theorem Flushing.drop {key : BatchKey} {keys : List BatchKey}
    (flushing : Flushing leave start (key :: keys) handle) {after : ValiseFile}
    (busy : Busy leave start after)
    (batches : after.pendingVectorBatches = (handle.dropBatch key).pendingVectorBatches)
    (codecs : after.codecCache = handle.codecCache) (faults : after.faults = handle.faults)
    (payloads : after.pendingPayloadFrames = handle.pendingPayloadFrames) :
    Flushing leave start keys after := by
  have remains : ∀ other batch, after.batch other = some batch →
      other ≠ key ∧ handle.batch other = some batch := by
    intro other batch there
    have dropped := batch_dropBatch handle key other
    rw [ValiseFile.batch, batches] at there
    rw [ValiseFile.batch, there] at dropped
    split at dropped
    · exact nomatch dropped
    · rename_i apart
      exact ⟨apart, dropped.symm⟩
  refine ⟨busy, payloads ▸ flushing.placed, flushing.safe.imp_right fun flushes other batch there => ?_, fun other batch there => ?_⟩
  · refine (flushes other batch (remains other batch there).2).imp_right fun flushes => ?_
    exact ⟨flushes.counted, codecs ▸ flushes.encodes, flushes.finishes,
      faults ▸ flushes.appends, faults ▸ flushes.syncs⟩
  · obtain ⟨apart, before⟩ := remains other batch there
    exact (List.mem_cons.mp (flushing.left other batch before)).resolve_left apart

theorem flushBatchAt_writes (key : BatchKey) (keys : List BatchKey) :
    Meets (Flushing leave start (key :: keys)) (flushBatchAt key)
      (fun _ => Flushing leave start keys) (Reached leave start) := by
  refine meets_get_bind fun read flushing => ?_
  split
  · refine meets_lift (fun _ _ ok => nomatch ok) ?_
    rintro _ rfl
    exact flushing.busy.1
  rename_i batch found
  refine meets_modify_bind ?_
  split
  · rename_i empty
    refine meets_pure _ ?_
    rintro _ ⟨_, rfl, rfl⟩
    refine flushing.drop ⟨flushing.busy.1.tail (.batchDropped key (.inr fun other there => ?_)),
      flushing.busy.2⟩ rfl rfl rfl rfl
    obtain rfl := Option.some.inj (found.symm.trans there)
    exact empty
  · rename_i full
    have safe : leave.losing = true ∨ batch.Flushes read :=
      flushing.safe.imp_right fun flushes => (flushes key batch found).resolve_left full
    refine (flushPendingBatch_writes key flushing.busy safe).weaken ?_ ?_ fun _ reached => reached
    · rintro _ ⟨_, rfl, rfl⟩
      rfl
    · rintro _ _ ⟨rfl, counted⟩
      exact flushing.drop ⟨flushing.busy.1.tail (.batchFlushed flushing.busy.2 found counted),
        flushing.busy.2⟩ rfl rfl rfl rfl

theorem batch_key_mem {key : BatchKey} {batch : PendingVectorBatch}
    (found : handle.batch key = some batch) : key ∈ handle.pendingVectorBatches.map Prod.fst := by
  obtain ⟨entry, there, -⟩ := Option.map_eq_some_iff.mp found
  obtain ⟨member, ranks⟩ := find_some _ there
  exact List.mem_map.mpr ⟨entry, member, batchRank_injective ranks⟩

/-- Nothing waits in the map after its flush. -/
theorem flushPendingVectorBatches_writes :
    Meets (fun handle => Busy leave start handle ∧ handle.pendingPayloadFrames = [] ∧
        (leave.losing = true ∨ handle.BatchesFlush))
      flushPendingVectorBatches (fun _ handle => Busy leave start handle ∧ NothingWaits handle)
      (Reached leave start) := by
  refine meets_get_bind fun read held => ?_
  refine (meets_forEach (Flushing leave start) flushBatchAt_writes _).weaken ?_ ?_
    fun _ reached => reached
  · rintro _ rfl
    exact ⟨held.1, held.2.1, held.2.2, fun key batch found => batch_key_mem found⟩
  · rintro _ handle ⟨busy, placed, -, left⟩
    exact ⟨busy, placed, fun key batch there => nomatch left key batch there⟩

/-! ### The whole commit -/

theorem Writing.begin (reached : Reached leave start handle) (sound : handle.Sound)
    (dirty : handle.dirty = true) (settled : NothingWaits handle) :
    Writing leave start (CatalogTableKind.flushOrder ++ [.segment]) handle.footer handle := by
  have all : unwritten (CatalogTableKind.flushOrder ++ [.segment]) handle.dirtyIds =
      handle.dirtyIds := by
    funext kind
    have member : kind ∈ CatalogTableKind.flushOrder ++ [.segment] := by cases kind <;> decide
    simp only [unwritten, member, if_true]
  refine ⟨reached, sound, dirty, settled, ?_, fun textSpaceId missing => ?_⟩
  · rw [all]
    exact sound.stored.rooted
  rw [sound.stored.textRoots, ValiseFile.textOf, missing]
  rfl

theorem writeCatalogSegments_writes (sound : start.Sound) :
    Meets (fun handle => Busy leave start handle ∧ NothingWaits handle)
      ValiseFile.writeCatalogSegments
      (fun prepared handle => Writing leave start [] prepared.body handle ∧
        prepared.body.idAllocator = handle.idAllocator)
      (Reached leave start) := by
  refine meets_get_bind fun read held => ?_
  obtain ⟨busy, settled⟩ := held
  have begun := Writing.begin busy.1 (busy.1.sound sound) busy.2 settled
  have member : CatalogTableKind.segment ∈ CatalogTableKind.flushOrder ++ [.segment] := by decide
  refine meets_bind ((flushPendingTextIndexes_writes member { body := read.footer }).weaken
    ?_ (fun _ _ writing => writing) fun _ reached => reached) fun prepared => ?_
  · rintro _ rfl
    exact begun
  refine meets_bind (flushCatalogTables_writes (by decide) (by decide) prepared.body) fun body => ?_
  refine meets_get_bind fun handle writing => ?_
  refine meets_bind ((meets_foldEach (fun _ body => Writing leave start [.segment] body)
    (fun collectionId _ body => writeCollectionFilterSegment_writes (List.mem_singleton_self _) body
      collectionId) handle.dirtyFilterCollections body).weaken (fun _ same => same ▸ writing)
      (fun _ _ holds => holds) fun _ reached => reached) fun body => ?_
  refine meets_bind (writeTimeIndexSegment_writes (List.mem_singleton_self _) body) fun body => ?_
  refine meets_bind (flushSegmentRegistry_writes body) fun body => ?_
  refine meets_get_bind fun last writing => meets_pure _ ?_
  rintro _ rfl
  exact ⟨writing.footer rfl rfl writing.rooted.filters writing.rooted.timeIndex, rfl⟩

theorem Writing.rootsAll (writing : Writing leave start [] body handle)
    (ids : body.idAllocator = handle.idAllocator) : handle.RootsAll body where
  rooted := writing.rooted
  ids := ids
  texts := writing.texts

/-- The header names a footer that holds all of the catalog. -/
structure HeaderWritten (leave : Leave) (start : ValiseFile) (prepared : PreparedCommit)
    (handle : ValiseFile) : Prop where
  reached : Reached leave start handle
  settled : NothingWaits handle
  roots : handle.RootsAll prepared.body
  header : handle.published = prepared.body

/-- The flush of the payloads leaves the vectors, the codecs and the faults alone. -/
def SameVectors (start handle : ValiseFile) : Prop :=
  handle.pendingVectorBatches = start.pendingVectorBatches ∧
    handle.codecCache = start.codecCache ∧ handle.faults = start.faults

theorem fallible_keeps {property : ValiseFile → Prop} (point : IoPoint) :
    Keeps property (fallible point) :=
  keeps_bind keeps_get fun _ => keeps_lift _

theorem allocateSegmentId_vectors : Keeps (SameVectors start) allocateSegmentId :=
  keeps_bind keeps_get fun _ => keeps_bind (keeps_lift _) fun _ =>
    keeps_bind (keeps_modify fun _ same => same) fun _ => keeps_pure _

theorem appendSegmentAtEnd_vectors (point : IoPoint) (segmentId : SegmentId)
    (content : SegmentContent) :
    Keeps (SameVectors start) (appendSegmentAtEnd point segmentId content) :=
  keeps_bind (fallible_keeps _) fun _ => keeps_bind keeps_get fun _ =>
    keeps_bind (keeps_modify fun _ same => same) fun _ => keeps_pure _

theorem flushPendingUris_vectors : Keeps (SameVectors start) flushPendingUris := by
  refine keeps_bind keeps_get fun read => keeps_ite (keeps_pure _) ?_
  exact keeps_bind allocateSegmentId_vectors fun _ => keeps_bind (keeps_lift _) fun _ =>
    keeps_bind (appendSegmentAtEnd_vectors _ _ _) fun _ => keeps_bind (fallible_keeps _) fun _ =>
    keeps_bind (keeps_modify fun _ same => same) fun _ =>
    keeps_bind (keeps_modify fun _ same => same) fun _ => keeps_pure _

theorem flushPendingPayloads_vectors : Keeps (SameVectors start) flushPendingPayloads := by
  refine keeps_bind keeps_get fun read => keeps_ite (keeps_pure _) ?_
  exact keeps_bind allocateSegmentId_vectors fun _ => keeps_bind (keeps_lift _) fun _ =>
    keeps_bind (fallible_keeps _) fun _ => keeps_bind (appendSegmentAtEnd_vectors _ _ _) fun _ =>
    keeps_bind (fallible_keeps _) fun _ => keeps_bind (keeps_modify fun _ same => same) fun _ =>
    keeps_bind flushPendingUris_vectors fun _ => keeps_bind (keeps_modify fun _ same => same) fun _ =>
    keeps_bind (keeps_lift _) fun _ => keeps_modify fun _ same => same

theorem SameVectors.batchesFlush (same : SameVectors start handle) (flushes : start.BatchesFlush) :
    handle.BatchesFlush := by
  obtain ⟨batches, codecs, faults⟩ := same
  intro key batch found
  refine (flushes key batch ?_).imp_right fun flushes => ?_
  · rwa [ValiseFile.batch, batches] at found
  · exact ⟨flushes.counted, codecs ▸ flushes.encodes, flushes.finishes,
      faults ▸ flushes.appends, faults ▸ flushes.syncs⟩

/-- The commit loses no vectors: it may, or it stops before the batches are flushed, or
each of them flushes. -/
def ValiseFile.CommitKeepsVectors (handle : ValiseFile) : Prop :=
  handle.faults .writerLock = true ∨ (flushPendingPayloads handle).1 ≠ .ok () ∨ handle.BatchesFlush

theorem commitPhaseWrites_writes (sound : start.Sound) (dirty : start.dirty = true)
    (safe : leave.losing = true ∨ start.CommitKeepsVectors) :
    Meets (fun handle => handle = start) ValiseFile.commitPhaseWrites
      (fun prepared => HeaderWritten leave start prepared) (Reached leave start) := by
  have here : ∀ handle, handle = start → Reached leave start handle := by
    rintro _ rfl
    exact .refl
  refine meets_bind (m := fun _ handle => handle = start ∧ start.faults .writerLock = false) ?_
    fun _ => ?_
  · refine meets_get_bind fun read same => meets_lift (fun _ handle done same' => ?_) ?_
    · subst same
      exact ⟨same', Outcome.ensure_eq_ok.mp done⟩
    · rintro _ rfl
      exact here _ same
  refine meets_bind (m := fun _ handle => Busy leave start handle ∧
    handle.pendingPayloadFrames = [] ∧ (leave.losing = true ∨ handle.BatchesFlush)) ?_ fun _ => ?_
  · rintro handle ⟨rfl, unlocked⟩
    have busy : Busy leave handle _ := flushPendingPayloads_changes handle ⟨.refl, dirty⟩
    have flushes := @flushPendingPayloads_flushes leave handle handle ⟨.refl, dirty⟩
    have same : SameVectors handle _ := flushPendingPayloads_vectors handle ⟨rfl, rfl, rfl⟩
    rcases done : flushPendingPayloads handle with ⟨_ | _ | _, final⟩
    · rw [done] at busy same
      rw [done] at flushes
      refine ⟨busy, flushes.2, safe.imp_right fun keeps => ?_⟩
      rcases keeps with locked | stopped | flushes
      · exact nomatch locked.symm.trans unlocked
      · exact absurd (congrArg Prod.fst done) stopped
      · exact same.batchesFlush flushes
    · rw [done] at busy
      exact busy.1
    · rw [done] at busy
      exact busy.1
  refine meets_bind flushPendingVectorBatches_writes fun _ => ?_
  refine meets_bind (writeCatalogSegments_writes sound) fun prepared => ?_
  have stopped : ∀ handle, (Writing leave start [] prepared.body handle ∧
      prepared.body.idAllocator = handle.idAllocator) → Reached leave start handle :=
    fun _ held => held.1.reached
  refine meets_bind (meets_fallible stopped) fun _ => meets_bind (meets_fallible stopped) fun _ =>
    meets_bind (meets_fallible stopped) fun _ => meets_bind (meets_fallible stopped) fun _ =>
    meets_bind (meets_fallible stopped) fun _ => meets_modify_bind (meets_pure _ ?_)
  rintro _ ⟨earlier, ⟨writing, ids⟩, rfl⟩
  have roots := writing.rootsAll ids
  exact ⟨writing.reached.tail (.headerWritten writing.dirty writing.settled roots),
    ⟨writing.settled.payloads, writing.settled.vectors⟩, ⟨roots.rooted, roots.ids, roots.texts⟩, rfl⟩

theorem commitPhasePublish_publishes {prepared : PreparedCommit} :
    Meets (HeaderWritten leave start prepared) (ValiseFile.commitPhasePublish prepared)
      (fun _ handle => Reached leave start handle ∧ handle.dirty = false) (Reached leave start) := by
  refine meets_modify_bind ?_
  have published : ∀ handle, (∃ earlier, HeaderWritten leave start prepared earlier ∧
      handle = earlier.publish prepared) → Reached leave start handle ∧ handle.dirty = false := by
    rintro _ ⟨earlier, written, rfl⟩
    exact ⟨written.reached.tail (.published written.header written.settled written.roots), rfl⟩
  refine meets_bind (meets_fallible fun handle held => (published handle held).1) fun _ => ?_
  refine meets_get_bind fun read held => ?_
  split
  · refine meets_lift (fun _ _ _ same => ?_) fun _ same => ?_
    · exact same ▸ published read held
    · exact same ▸ (published read held).1
  · refine meets_pure _ ?_
    rintro _ rfl
    exact published _ held

/-- A commit that returns leaves nothing dirty. -/
theorem commit_commits (sound : start.Sound)
    (safe : leave.losing = true ∨ start.dirty = false ∨ start.CommitKeepsVectors) :
    Meets (fun handle => handle = start) ValiseFile.commit
      (fun _ handle => Reached leave start handle ∧ handle.dirty = false) (Reached leave start) := by
  refine meets_get_bind fun read same => ?_
  subst same
  cases flag : read.dirty with
  | true =>
      have keeps : leave.losing = true ∨ read.CommitKeepsVectors :=
        safe.imp_right fun held => held.resolve_left (by simp [flag])
      refine meets_bind (commitPhaseWrites_writes sound flag keeps) fun prepared => ?_
      refine meets_bind (meets_fallible fun _ written => written.reached) fun _ => ?_
      exact meets_bind commitPhasePublish_publishes fun _ => meets_pure _ fun _ published => published
  | false =>
      refine meets_pure _ ?_
      rintro _ rfl
      exact ⟨.refl, flag⟩

end Valise
