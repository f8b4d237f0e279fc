import Valise.Changes

/-!
What every change of a handle keeps: its file holds the catalog, its ids are ahead of all rows, and
what waits for a commit belongs to rows that are there.
-/

namespace Valise

open ByteLists Chains Commands Command DeltaTables Outcomes Relation SortedTables

namespace ValiseFile

/-- The segment of a batch is still to be written, and no other batch will write it. -/
structure BatchesApart (handle : ValiseFile) : Prop where
  unregistered : ∀ key batch, handle.batch key = some batch →
    find (CatalogTableKind.rowId .segment) batch.segmentId.toNat (handle.tables .segment) = none
  apart : ∀ key other batch otherBatch, handle.batch key = some batch →
    handle.batch other = some otherBatch → batch.segmentId = otherBatch.segmentId → key = other

structure Sound (handle : ValiseFile) : Prop where
  stored : Stored handle
  clean : CleanUnlessDirty handle
  framesKnown : ∀ entry ∈ handle.pendingPayloadFrames, (handle.findFrame entry.frameId).isSome
  urisKnown : ∀ entry ∈ handle.pendingUris, (handle.findFrame entry.frameId).isSome
  registered : ∀ entry ∈ handle.tables .segment,
    entry.segmentId.toNat < handle.idAllocator.counter .segment
  batches : ∀ key batch, handle.batch key = some batch →
    batch.segmentId.toNat < handle.idAllocator.counter .segment
  batchesApart : BatchesApart handle
  texts : ∀ textSpaceId, (valueAt UInt32.toNat textSpaceId handle.texts).isSome →
    (find (CatalogTableKind.rowId .textSpace) textSpaceId.toNat (handle.tables .textSpace)).isSome
  analyzers : ∀ textSpaceId, (valueAt UInt32.toNat textSpaceId handle.analyzerCache).isSome →
    (find (CatalogTableKind.rowId .textSpace) textSpaceId.toNat (handle.tables .textSpace)).isSome

/-- No row has an id that the allocator hands out next. -/
theorem Sound.fresh {handle : ValiseFile} (sound : handle.Sound) {ids : IdAllocator}
    {kind : CatalogTableKind} {id : Nat} (took : handle.idAllocator.Took ids kind id) :
    find kind.rowId id (handle.tables kind) = none := by
  refine (find_none _).mpr fun row member same => ?_
  by_cases segment : kind = .segment
  · subst segment
    have below : CatalogTableKind.rowId .segment row < _ := sound.registered row member
    have := took.was
    omega
  · have below := (sound.stored.ids kind segment row member).2
    have := took.was
    omega

theorem Sound.valid {handle : ValiseFile} (sound : handle.Sound) (kind : CatalogTableKind)
    (notSegment : kind ≠ .segment) {id : Nat} {row : kind.Row}
    (found : find kind.rowId id (handle.tables kind) = some row) :
    0 < id ∧ id < handle.idAllocator.counter kind := by
  obtain ⟨member, named⟩ := find_some _ found
  exact named ▸ sound.stored.ids kind notSegment row member

end ValiseFile

variable {leave : Leave} {handle after : ValiseFile}

theorem Stored.storeSegment (stored : Stored handle) {ids : IdAllocator}
    (grown : ∀ kind, handle.idAllocator.counter kind ≤ ids.counter kind) (segmentId : SegmentId)
    (content : SegmentContent) (segmentType : SegmentType) (itemCount : Nat)
    (compression : Compression) :
    Stored (handle.storeSegment ids segmentId content segmentType itemCount compression) :=
  ((stored.allocated grown).append [⟨segmentId, content⟩]).registerSegment _

theorem Stored.bufferUri (stored : Stored handle) (frameId : FrameId) (uri : Option Bytes) :
    Stored (handle.bufferUri frameId uri) := by
  cases uri with
  | none => exact stored
  | some uri => exact ⟨stored.rooted, stored.textRoots, stored.stubs, stored.ids, stored.loads⟩

@[simp] theorem payloadFixup_frameId (segmentId : SegmentId) (pending : List PendingPayloadFrame)
    (frame : FrameDesc) : (payloadFixup segmentId pending frame).frameId = frame.frameId := by
  unfold payloadFixup
  split <;> rfl

@[simp] theorem payloadFixup_status (segmentId : SegmentId) (pending : List PendingPayloadFrame)
    (frame : FrameDesc) : (payloadFixup segmentId pending frame).status = frame.status := by
  unfold payloadFixup
  split <;> rfl

@[simp] theorem uriFixup_frameId (segmentId : SegmentId) (pending : List PendingUri)
    (frame : FrameDesc) : (uriFixup segmentId pending frame).frameId = frame.frameId := by
  unfold uriFixup
  split <;> rfl

@[simp] theorem uriFixup_status (segmentId : SegmentId) (pending : List PendingUri)
    (frame : FrameDesc) : (uriFixup segmentId pending frame).status = frame.status := by
  unfold uriFixup
  split <;> rfl

/-- Only the frames that wait for their places are rewritten. -/
theorem fixups_marked {payloadSegment uriSegment : SegmentId} {pending : List PendingPayloadFrame}
    {uris : List PendingUri} {frame : FrameDesc}
    (changed : uriFixup uriSegment uris (payloadFixup payloadSegment pending frame) ≠ frame) :
    frame.frameId.toNat ∈ uris.map (·.frameId.toNat) ++ pending.map (·.frameId.toNat) := by
  rw [List.mem_append, List.mem_map, List.mem_map]
  by_cases waits : ∃ entry ∈ pending, entry.frameId = frame.frameId
  · obtain ⟨entry, member, named⟩ := waits
    exact .inr ⟨entry, member, congrArg UInt64.toNat named⟩
  · have same : payloadFixup payloadSegment pending frame = frame := by
      have none : (pending.reverse.find? fun entry => entry.frameId = frame.frameId) = none :=
        List.find?_eq_none.mpr fun entry member named => waits
          ⟨entry, List.mem_reverse.mp member, of_decide_eq_true named⟩
      simp only [payloadFixup, none]
    rw [same] at changed
    by_contra absent
    refine changed ?_
    have none : (uris.reverse.find? fun entry => entry.frameId = frame.frameId) = none :=
      List.find?_eq_none.mpr fun entry member named => absent
        (.inl ⟨entry, List.mem_reverse.mp member, congrArg UInt64.toNat (of_decide_eq_true named)⟩)
    simp only [uriFixup, none]

theorem Stored.placePayloads (sound : handle.Sound) (payloadSegment uriSegment : SegmentId) :
    Stored (handle.placePayloads payloadSegment uriSegment handle.pendingUris) := by
  have rewritten := sound.stored.rewriteFrames
    (fun frame => uriFixup uriSegment handle.pendingUris
      (payloadFixup payloadSegment handle.pendingPayloadFrames frame))
    (handle.pendingUris.map (·.frameId.toNat) ++
      handle.pendingPayloadFrames.map (·.frameId.toNat))
    (by simp) (by simp) (fun frame _ changed => fixups_marked changed) ?_
  · exact ⟨rewritten.rooted, rewritten.textRoots, rewritten.stubs, rewritten.ids, rewritten.loads⟩
  · intro id member
    rcases List.mem_append.mp member with uri | payload
    · obtain ⟨entry, waits, rfl⟩ := List.mem_map.mp uri
      exact Option.isSome_iff_exists.mp (sound.urisKnown entry waits)
    · obtain ⟨entry, waits, rfl⟩ := List.mem_map.mp payload
      exact Option.isSome_iff_exists.mp (sound.framesKnown entry waits)

theorem valueAt_publishTexts (prepared : PreparedCommit) (texts : List (TextSpaceId × TextHandle))
    (textSpaceId : TextSpaceId) :
    valueAt UInt32.toNat textSpaceId (ValiseFile.publishTexts prepared texts) =
      (valueAt UInt32.toNat textSpaceId texts).map fun text => { text with
        roots := prepared.body.textRootsOf textSpaceId
        flushed := text.flushed ++ ((prepared.textBatches.filter fun batch =>
          batch.1 = textSpaceId).map Prod.snd) } :=
  valueAt_map UInt32.toNat (fun _ _ => UInt32.toNat_inj.mp) (fun textSpaceId (text : TextHandle) =>
    ({ text with
      roots := prepared.body.textRootsOf textSpaceId
      flushed := text.flushed ++ ((prepared.textBatches.filter fun batch =>
        batch.1 = textSpaceId).map Prod.snd) } : TextHandle)) textSpaceId texts

/-- Publishing gives every text space the roots of the new footer. -/
theorem textOf_publish {prepared : PreparedCommit} (roots : handle.RootsAll prepared.body)
    (textSpaceId : TextSpaceId) :
    ((handle.publish prepared).textOf textSpaceId).file = (handle.textOf textSpaceId).file ∧
      ((handle.publish prepared).textOf textSpaceId).roots =
        prepared.body.textRootsOf textSpaceId := by
  simp only [ValiseFile.textOf, ValiseFile.publish, valueAt_publishTexts]
  cases known : valueAt UInt32.toNat textSpaceId handle.texts with
  | none => exact ⟨rfl, (roots.texts textSpaceId known).symm⟩
  | some text => exact ⟨rfl, rfl⟩

theorem Stored.publish (stored : Stored handle) {prepared : PreparedCommit}
    (roots : handle.RootsAll prepared.body) : Stored (handle.publish prepared) where
  rooted := roots.rooted.setText fun textSpaceId =>
    ⟨[], by rw [List.append_nil, (textOf_publish roots textSpaceId).1]⟩
  textRoots textSpaceId := (textOf_publish roots textSpaceId).2.symm
  stubs := stored.stubs
  ids := stored.ids
  loads := stored.loads

theorem Stored.change (sound : handle.Sound) (change : Change leave handle after) :
    Stored after := by
  have stored := sound.stored
  cases change with
  | allocated took => exact stored.allocated took.grown
  | appended segment => exact stored.append [segment]
  | segmentStored _ _ _ _ _ _ took => exact stored.storeSegment took.grown ..
  | rowEntered plain took =>
      rename_i ids kind row
      have entered := (stored.allocated took.grown).upsertRow kind ?_ row ?_ ?_ ?_
      · exact ⟨entered.rooted, entered.textRoots, entered.stubs, entered.ids, entered.loads⟩
      · rintro rfl
        exact plain
      · refine fun _ => ⟨took.positive, ?_⟩
        have := took.next
        simp only
        omega
      · cases kind with
        | codec => exact absurd plain (by simp [CatalogTableKind.Plain])
        | textSpace => exact absurd plain (by simp [CatalogTableKind.Plain])
        | _ => trivial
      · exact fun _ => sound.fresh took
  | textSpaceEntered row took loaded =>
      rename_i ids analyzer
      have entered := (stored.allocated took.grown).upsertRow .textSpace (by decide) row
        (fun _ => ⟨took.positive, by
          have := took.next
          simp only [CatalogTableKind.rowId]
          omega⟩) ⟨analyzer, loaded⟩ (fun clash => by cases clash)
      have unknown : valueAt UInt32.toNat row.textSpaceId handle.texts = none := by
        by_contra known
        have there := sound.texts row.textSpaceId (Option.ne_none_iff_isSome.mp known)
        rw [sound.fresh took] at there
        cases there
      have texted := entered.setText row.textSpaceId {}
        (by simp [ValiseFile.textOf, ValiseFile.upsertRow, ValiseFile.setTable, unknown])
        ⟨[], by simp [ValiseFile.textOf, ValiseFile.upsertRow, ValiseFile.setTable, unknown]⟩
      exact ⟨texted.rooted, texted.textRoots, texted.stubs, texted.ids, texted.loads⟩
  | codecEntered segmentTook took encoded instantiated =>
      rename_i segmentIds ids segmentId codecId params
      have entered := (stored.storeSegment (fun kind => (segmentTook.grown kind).trans
        (took.grown kind)) segmentId (.codecParams params) .codecParams 1 .none).upsertRow .codec
        (by decide) ⟨codecId, params.family, params.wireVersion, ⟨segmentId, handle.file.length⟩⟩
        (fun _ => ⟨took.positive, by
          have := took.next
          simp only [CatalogTableKind.rowId, ValiseFile.storeSegment, ValiseFile.upsertRow,
            ValiseFile.setTable]
          omega⟩) ?_ (fun clash => by cases clash)
      · exact ⟨entered.rooted, entered.textRoots, entered.stubs, entered.ids, entered.loads⟩
      · refine ⟨params, ?_⟩
        have read := readSegment_last handle.file segmentId (.codecParams params)
        simp only [loadCodec, ValiseFile.storeSegment, ValiseFile.upsertRow, ValiseFile.setTable,
          read, encoded, instantiated, and_self, if_true, Outcome.ok_bind, Outcome.pure_eq]
  | frameEntered payload uri took noPayload noUri raw =>
      rename_i ids frame
      have allocated := stored.allocated took.grown
      have buffered : Stored (({ handle with idAllocator := ids } : ValiseFile).bufferPayload
          frame.frameId payload) :=
        ⟨allocated.rooted, allocated.textRoots, allocated.stubs, allocated.ids, allocated.loads⟩
      have entered := (buffered.bufferUri frame.frameId uri).upsertFrame frame
        ⟨took.positive, by
          have := took.next
          cases uri <;> simp only [ValiseFile.bufferUri, ValiseFile.bufferPayload] <;> omega⟩
      exact ⟨entered.rooted, entered.textRoots, entered.stubs, entered.ids, entered.loads⟩
  | frameTombstoned now found =>
      rename_i frame
      have entered := stored.upsertFrame
        { frame with status := .tombstoned, role := .tombstone, updatedAt := now }
        (sound.valid .frame (by decide) found)
      exact ⟨entered.rooted, entered.textRoots, entered.stubs, entered.ids, entered.loads⟩
  | payloadsPlaced dirty payload uris => exact Stored.placePayloads sound _ _
  | textIndexed textSpaceId frameId collectionId tokens known =>
      have texted := stored.setText textSpaceId
        ((handle.textOf textSpaceId).index frameId collectionId tokens) rfl
        ⟨[], (List.append_nil _).symm⟩
      exact ⟨texted.rooted, texted.textRoots, texted.stubs, texted.ids, texted.loads⟩
  | batchOpened missing took =>
      have allocated := stored.allocated took.grown
      exact ⟨allocated.rooted, allocated.textRoots, allocated.stubs, allocated.ids, allocated.loads⟩
  | vectorEntered values enters found took segment ordinal =>
      rename_i ids key batch desc
      have entered := (stored.allocated took.grown).upsertRow .vector (by decide) desc
        (fun _ => ⟨took.positive, by
          have := took.next
          simp only [CatalogTableKind.rowId]
          omega⟩) trivial (fun clash => by cases clash)
      exact ⟨entered.rooted, entered.textRoots, entered.stubs, entered.ids, entered.loads⟩
  | vectorTombstoned found =>
      rename_i desc
      have entered := stored.upsertRow .vector (by decide) { desc with status := .tombstoned }
        (fun _ => sound.valid .vector (by decide) found) trivial (fun clash => by cases clash)
      exact ⟨entered.rooted, entered.textRoots, entered.stubs, entered.ids, entered.loads⟩
  | batchFlushed dirty found counted =>
      rename_i key batch
      have written := (stored.append [⟨batch.segmentId,
        .vectorData (batch.append batch.rawValues).written⟩]).registerSegment
        ⟨batch.segmentId, .vectorData, ⟨batch.segmentId, handle.file.length⟩, batch.vectors.length,
          .none⟩
      exact ⟨written.rooted, written.textRoots, written.stubs, written.ids, written.loads⟩
  | textFlushed textSpaceId roots grown known => exact stored.setText _ _ roots grown
  | published header waits roots => exact stored.publish roots
  | codecCached | buffersCleared | vectorsDrained | vectorsDropped | batchDropped | cached
  | headerWritten =>
      exact ⟨stored.rooted, stored.textRoots, stored.stubs, stored.ids, stored.loads⟩

/-! ### The rest of what is kept -/

theorem batch_dropBatch (handle : ValiseFile) (key other : BatchKey) :
    (handle.dropBatch key).batch other = if other = key then none else handle.batch other :=
  valueAt_filter batchRank batchRank_injective key other handle.pendingVectorBatches

/-- The vectors of a batch stay away as long as nothing enters it. -/
theorem NothingWaits.setBatch (waits : NothingWaits handle) {key : BatchKey}
    {batch : PendingVectorBatch} (empty : batch.vectors = []) :
    NothingWaits (handle.setBatch key batch) where
  payloads := waits.payloads
  vectors other found there := by
    rw [batch_setBatch] at there
    split at there
    · rw [← Option.some.inj there]
      exact empty
    · exact waits.vectors other found there

theorem CleanUnlessDirty.change (clean : CleanUnlessDirty handle)
    (change : Change leave handle after) : CleanUnlessDirty after := by
  intro flag
  cases change with
  | segmentStored _ _ _ _ dirty | payloadsPlaced dirty | batchFlushed dirty
  | headerWritten dirty => exact nomatch dirty.symm.trans flag
  | rowEntered | textSpaceEntered | codecEntered | frameEntered | frameTombstoned | textIndexed
  | vectorEntered | vectorTombstoned => exact nomatch flag
  | published header waits roots => exact ⟨header, fun _ => rfl, ⟨waits.payloads, waits.vectors⟩⟩
  | batchOpened =>
      rename_i ids key segmentId missing took
      have before := clean flag
      have waits : NothingWaits { handle with idAllocator := ids } :=
        ⟨before.settled.payloads, before.settled.vectors⟩
      have empty : (⟨key.1, key.2, segmentId, [], [], []⟩ : PendingVectorBatch).vectors = [] := rfl
      exact ⟨before.published, before.dirtyIds, waits.setBatch empty⟩
  | vectorsDrained count found | vectorsDropped count allowed found =>
      have before := clean flag
      have empty := before.settled.vectors _ _ found
      exact ⟨before.published, before.dirtyIds, before.settled.setBatch (by exact empty)⟩
  | batchDropped key allowed =>
      have before := clean flag
      refine ⟨before.published, before.dirtyIds, before.settled.payloads, fun other batch found => ?_⟩
      rw [batch_dropBatch] at found
      split at found
      · exact nomatch found
      · exact before.settled.vectors other batch found
  | allocated | appended | codecCached | buffersCleared | textFlushed | cached =>
      have before := clean flag
      exact ⟨before.published, before.dirtyIds, before.settled.payloads, before.settled.vectors⟩

theorem isSome_upsert {ρ : Type} {key : ρ → Nat} {row : ρ} {wanted : Nat} {table : List ρ}
    (known : (find key wanted table).isSome) : (find key wanted (upsert key row table)).isSome := by
  rw [find_upsert]
  split
  · rfl
  · exact known

/-- Rows never leave their tables. -/
theorem Change.knows (change : Change leave handle after) (kind : CatalogTableKind) {id : Nat}
    (known : (find kind.rowId id (handle.tables kind)).isSome) :
    (find kind.rowId id (after.tables kind)).isSome := by
  have upserted : ∀ {other : CatalogTableKind} (row : other.Row) (tables : Tables),
      (find kind.rowId id (tables kind)).isSome →
      (find kind.rowId id (Function.update tables other
        (upsert other.rowId row (tables other)) kind)).isSome := by
    intro other row tables known
    by_cases same : kind = other
    · subst same
      rw [Function.update_self]
      exact isSome_upsert known
    · rwa [Function.update_of_ne same]
  cases change with
  | segmentStored | rowEntered | textSpaceEntered | frameTombstoned | vectorEntered
  | vectorTombstoned | batchFlushed => exact upserted _ _ known
  | codecEntered => exact upserted _ _ (upserted _ _ known)
  | frameEntered payload uri took =>
      cases uri <;> exact upserted _ _ known
  | payloadsPlaced =>
      simp only [ValiseFile.placePayloads, ValiseFile.setTable]
      by_cases same : kind = .frame
      · subst same
        rw [Function.update_self, find_map (CatalogTableKind.rowId .frame) fun _ => by simp [CatalogTableKind.rowId]]
        simpa using known
      · rwa [Function.update_of_ne same]
  | allocated | appended | codecCached | buffersCleared | textIndexed | batchOpened | vectorsDrained
  | vectorsDropped | batchDropped | textFlushed | cached | headerWritten | published => exact known

theorem Change.counts (change : Change leave handle after) (kind : CatalogTableKind) :
    handle.idAllocator.counter kind ≤ after.idAllocator.counter kind := by
  cases change with
  | allocated took | segmentStored _ _ _ _ _ _ took | rowEntered _ took | textSpaceEntered _ took
  | batchOpened _ took | vectorEntered _ _ _ took => exact took.grown kind
  | codecEntered first second => exact (first.grown kind).trans (second.grown kind)
  | frameEntered payload uri took => cases uri <;> exact took.grown kind
  | appended | frameTombstoned | payloadsPlaced | vectorTombstoned | batchFlushed | codecCached
  | buffersCleared | textIndexed | vectorsDrained | vectorsDropped | batchDropped | textFlushed
  | cached | headerWritten | published => exact le_refl _

/-- Batches that were there before stay apart when no registered segment has the id of one. -/
theorem ValiseFile.BatchesApart.kept (apart : handle.BatchesApart)
    (batches : ∀ key batch, after.batch key = some batch →
      ∃ before, handle.batch key = some before ∧ before.segmentId = batch.segmentId)
    (registry : ∀ key batch, after.batch key = some batch →
      find (CatalogTableKind.rowId .segment) batch.segmentId.toNat (after.tables .segment) =
        find (CatalogTableKind.rowId .segment) batch.segmentId.toNat (handle.tables .segment)) :
    after.BatchesApart where
  unregistered key batch found := by
    obtain ⟨before, there, same⟩ := batches key batch found
    rw [registry key batch found, ← same]
    exact apart.unregistered key before there
  apart key other batch otherBatch found otherFound same := by
    obtain ⟨before, there, named⟩ := batches key batch found
    obtain ⟨otherBefore, otherThere, otherNamed⟩ := batches other otherBatch otherFound
    exact apart.apart key other before otherBefore there otherThere
      (named.trans (same.trans otherNamed.symm))

theorem ValiseFile.BatchesApart.change (sound : handle.Sound) (change : Change leave handle after) :
    after.BatchesApart := by
  have apart := sound.batchesApart
  have below := sound.batches
  have newId : ∀ {ids id key batch} {row : CatalogTableKind.Row .segment},
      handle.idAllocator.Took ids .segment id → CatalogTableKind.rowId .segment row = id →
      handle.batch key = some batch →
      find (CatalogTableKind.rowId .segment) batch.segmentId.toNat
        (upsert (CatalogTableKind.rowId .segment) row (handle.tables .segment)) =
      find (CatalogTableKind.rowId .segment) batch.segmentId.toNat (handle.tables .segment) := by
    intro ids id key batch row took named found
    refine find_upsert_other _ ?_ _
    have := below key batch found
    have := took.was
    omega
  have same : ∀ key batch, handle.batch key = some batch →
      ∃ before, handle.batch key = some before ∧ before.segmentId = batch.segmentId :=
    fun _ batch found => ⟨batch, found, rfl⟩
  cases change with
  | segmentStored content segmentType itemCount compression dirty packed took =>
      exact apart.kept same fun key batch found => newId took rfl found
  | codecEntered segmentTook took =>
      exact apart.kept same fun key batch found => newId segmentTook rfl found
  | batchFlushed dirty there counted =>
      rename_i key batch
      have remains : ∀ other otherBatch, (handle.flushBatch key batch).batch other =
          some otherBatch → other ≠ key ∧ handle.batch other = some otherBatch := by
        intro other otherBatch found
        have held := (batch_dropBatch _ _ _).symm.trans found
        split at held
        · exact nomatch held
        · rename_i different
          exact ⟨different, held⟩
      refine apart.kept (fun other otherBatch found => ⟨otherBatch, (remains _ _ found).2, rfl⟩) ?_
      intro other otherBatch found
      obtain ⟨different, held⟩ := remains other otherBatch found
      refine find_upsert_other _ (fun clash => different ?_) _
      exact (apart.apart key other batch otherBatch there held (UInt64.toNat_inj.mp clash)).symm
  | batchOpened missing took =>
      rename_i ids key segmentId
      have old : ∀ other batch, other ≠ key → (({ handle with idAllocator := ids } : ValiseFile).setBatch
          key ⟨key.1, key.2, segmentId, [], [], []⟩).batch other = some batch →
          handle.batch other = some batch := by
        intro other batch different found
        rwa [batch_setBatch, if_neg (Ne.symm different)] at found
      have new : ∀ batch, (({ handle with idAllocator := ids } : ValiseFile).setBatch
          key ⟨key.1, key.2, segmentId, [], [], []⟩).batch key = some batch →
          batch.segmentId = segmentId := by
        intro batch found
        rw [batch_setBatch, if_pos rfl] at found
        rw [← Option.some.inj found]
      have was := took.was
      constructor
      · intro other batch found
        by_cases opened : other = key
        · subst opened
          rw [new batch found]
          exact sound.fresh took
        · exact apart.unregistered other batch (old other batch opened found)
      · intro first second batch otherBatch found otherFound clash
        by_cases firstOpened : first = key
        · by_cases secondOpened : second = key
          · rw [firstOpened, secondOpened]
          · subst firstOpened
            have := below second otherBatch (old _ _ secondOpened otherFound)
            rw [← clash, new batch found] at this
            omega
        · by_cases secondOpened : second = key
          · subst secondOpened
            have := below first batch (old _ _ firstOpened found)
            rw [clash, new otherBatch otherFound] at this
            omega
          · exact apart.apart first second batch otherBatch (old _ _ firstOpened found)
              (old _ _ secondOpened otherFound) clash
  | vectorEntered values enters there took =>
      refine apart.kept (fun other otherBatch found => ?_) fun _ _ _ => rfl
      have held := (batch_setBatch _ _ _ _).symm.trans found
      split at held
      · rename_i here
        have named := congrArg PendingVectorBatch.segmentId (Option.some.inj held)
        subst here
        exact ⟨_, there, named⟩
      · exact ⟨otherBatch, held, rfl⟩
  | vectorsDrained count there | vectorsDropped count allowed there =>
      refine apart.kept (fun other otherBatch found => ?_) fun _ _ _ => rfl
      rw [batch_setBatch] at found
      split at found
      · rename_i here
        have named := congrArg PendingVectorBatch.segmentId (Option.some.inj found)
        subst here
        exact ⟨_, there, named⟩
      · exact ⟨otherBatch, found, rfl⟩
  | batchDropped key allowed =>
      refine apart.kept (fun other otherBatch found => ?_) fun _ _ _ => rfl
      rw [batch_dropBatch] at found
      split at found
      · exact nomatch found
      · exact ⟨otherBatch, found, rfl⟩
  | rowEntered plain took =>
      rename_i kind row
      have notSegment : CatalogTableKind.segment ≠ kind := by
        rintro rfl
        exact plain
      refine apart.kept same fun _ _ _ => ?_
      simp only [ValiseFile.upsertRow, ValiseFile.setTable, Function.update_of_ne notSegment]
  | frameEntered payload uri => cases uri <;> exact apart.kept same fun _ _ _ => rfl
  | _ => exact apart.kept same fun _ _ _ => rfl

theorem isSome_store {β : Type} {wanted index : UInt32} {value : β} {map : List (UInt32 × β)}
    (known : (valueAt UInt32.toNat wanted (store UInt32.toNat index value map)).isSome) :
    wanted = index ∨ (valueAt UInt32.toNat wanted map).isSome := by
  rw [valueAt_store UInt32.toNat fun _ _ => UInt32.toNat_inj.mp] at known
  split at known
  · rename_i same
    exact .inl same.symm
  · exact .inr known

theorem ValiseFile.Sound.change (sound : handle.Sound) (change : Change leave handle after) :
    after.Sound where
  stored := Stored.change sound change
  clean := sound.clean.change change
  framesKnown entry waits := by
    have kept := fun waits => change.knows .frame (sound.framesKnown entry waits)
    cases change with
    | frameEntered payload uri took noPayload noUri raw =>
        rename_i ids frame
        have pending : entry ∈ handle.pendingPayloadFrames ++
            [⟨frame.frameId, handle.pendingPayloadBuf.length, payload.length⟩] := by
          cases uri <;> exact waits
        rcases List.mem_append.mp pending with old | new
        · exact kept old
        · obtain rfl := List.mem_singleton.mp new
          cases uri <;> exact Option.isSome_iff_exists.mpr ⟨frame, find_upsert_self _ _ _⟩
    | payloadsPlaced => cases waits
    | _ => exact kept waits
  urisKnown entry waits := by
    have kept := fun waits => change.knows .frame (sound.urisKnown entry waits)
    cases change with
    | frameEntered payload uri took noPayload noUri raw =>
        rename_i ids frame
        cases uri with
        | none => exact kept waits
        | some uri =>
            rcases List.mem_append.mp waits with old | new
            · exact kept old
            · obtain rfl := List.mem_singleton.mp new
              exact Option.isSome_iff_exists.mpr ⟨frame, find_upsert_self _ _ _⟩
    | payloadsPlaced => cases waits
    | _ => exact kept waits
  registered entry member := by
    have kept := fun old => (sound.registered entry old).trans_le (change.counts .segment)
    cases change with
    | segmentStored content segmentType itemCount compression dirty packed took =>
        rcases mem_upsert _ member with new | old
        · rw [new]
          exact took.named_lt
        · exact kept old
    | codecEntered segmentTook took =>
        rcases mem_upsert _ member with new | old
        · rw [new]
          exact segmentTook.named_lt.trans_le (took.grown .segment)
        · exact kept old
    | batchFlushed dirty found counted =>
        rcases mem_upsert _ member with new | old
        · rw [new]
          exact sound.batches _ _ found
        · exact kept old
    | rowEntered plain took =>
        rename_i kind row
        have apart : CatalogTableKind.segment ≠ kind := by
          rintro rfl
          exact plain
        simp only [ValiseFile.upsertRow, ValiseFile.setTable, Function.update_of_ne apart] at member
        exact kept member
    | frameEntered payload uri => cases uri <;> exact kept member
    | _ => exact kept member
  batches key batch found := by
    have kept : ∀ {place other}, handle.batch place = some other →
        other.segmentId = batch.segmentId →
        batch.segmentId.toNat < after.idAllocator.counter .segment := by
      intro place other old same
      exact same ▸ (sound.batches place other old).trans_le (change.counts .segment)
    cases change with
    | batchOpened missing took =>
        rw [batch_setBatch] at found
        split at found
        · rw [← Option.some.inj found]
          exact took.named_lt
        · exact kept found rfl
    | vectorEntered values enters there took =>
        have held := (batch_setBatch _ _ _ _).symm.trans found
        split at held
        · have same := congrArg PendingVectorBatch.segmentId (Option.some.inj held)
          exact kept there same
        · exact kept held rfl
    | vectorsDrained count there | vectorsDropped count allowed there =>
        rw [batch_setBatch] at found
        split at found
        · have same := congrArg PendingVectorBatch.segmentId (Option.some.inj found)
          exact kept there same
        · exact kept found rfl
    | batchFlushed dirty there counted =>
        have held := (batch_dropBatch _ _ _).symm.trans found
        split at held
        · cases held
        · exact kept held rfl
    | batchDropped other allowed =>
        rw [batch_dropBatch] at found
        split at found
        · cases found
        · exact kept found rfl
    | frameEntered payload uri => cases uri <;> exact kept found rfl
    | _ => exact kept found rfl
  batchesApart := ValiseFile.BatchesApart.change sound change
  texts textSpaceId known := by
    have kept := fun known => change.knows .textSpace (sound.texts textSpaceId known)
    cases change with
    | textSpaceEntered row =>
        rcases isSome_store known with rfl | old
        · exact Option.isSome_iff_exists.mpr ⟨row, find_upsert_self _ _ _⟩
        · exact kept old
    | textIndexed other frameId collectionId tokens cached =>
        rcases isSome_store known with rfl | old
        · exact sound.analyzers _ cached
        · exact kept old
    | textFlushed other roots grown there =>
        rcases isSome_store known with rfl | old
        · exact kept there
        · exact kept old
    | published header waits roots =>
        simp only [ValiseFile.publish, valueAt_publishTexts, Option.isSome_map] at known
        exact kept known
    | frameEntered payload uri => cases uri <;> exact kept known
    | _ => exact kept known
  analyzers textSpaceId known := by
    have kept := fun known => change.knows .textSpace (sound.analyzers textSpaceId known)
    cases change with
    | textSpaceEntered row =>
        rcases isSome_store known with rfl | old
        · exact Option.isSome_iff_exists.mpr ⟨row, find_upsert_self _ _ _⟩
        · exact kept old
    | frameEntered payload uri => cases uri <;> exact kept known
    | _ => exact kept known

theorem Reached.sound {start handle : ValiseFile} (reached : Reached leave start handle)
    (sound : start.Sound) : handle.Sound := by
  induction reached with
  | refl => exact sound
  | tail _ change ih => exact ih.change change

/-! ### The registry -/

/-- A change that registers a segment appends it under an id that was not registered. -/
structure Registers (handle after : ValiseFile) (row : SegmentCatalogEntry)
    (content : SegmentContent) : Prop where
  fresh : find (CatalogTableKind.rowId .segment) row.segmentId.toNat (handle.tables .segment) = none
  root : row.root = ⟨row.segmentId, handle.file.length⟩
  packed : content.Packed row.compression
  registry : after.tables .segment =
    upsert (CatalogTableKind.rowId .segment) row (handle.tables .segment)
  file : after.file = handle.file ++ [⟨row.segmentId, content⟩]

/-- The registry only grows, and it grows with the file. -/
theorem Change.registers (sound : handle.Sound) (change : Change leave handle after) :
    (∃ row content, Registers handle after row content) ∨
      (after.tables .segment = handle.tables .segment ∧ ∃ later, after.file = handle.file ++ later) := by
  have unchanged : handle.tables .segment = handle.tables .segment ∧
      ∃ later, handle.file = handle.file ++ later := ⟨rfl, [], (List.append_nil _).symm⟩
  cases change with
  | segmentStored content segmentType itemCount compression dirty packed took =>
      exact .inl ⟨_, content, sound.fresh took, rfl, packed, rfl, rfl⟩
  | codecEntered segmentTook took encoded instantiated =>
      rename_i segmentIds ids segmentId codecId params
      exact .inl ⟨_, .codecParams params, sound.fresh segmentTook, rfl, nofun, rfl, rfl⟩
  | batchFlushed dirty found counted =>
      rename_i key batch
      exact .inl ⟨_, .vectorData (batch.append batch.rawValues).written,
        sound.batchesApart.unregistered _ _ found, rfl, nofun, rfl, rfl⟩
  | appended segment => exact .inr ⟨rfl, [segment], rfl⟩
  | rowEntered plain took =>
      rename_i kind row
      have apart : CatalogTableKind.segment ≠ kind := by
        rintro rfl
        exact plain
      refine .inr ⟨?_, [], (List.append_nil _).symm⟩
      simp only [ValiseFile.upsertRow, ValiseFile.setTable, Function.update_of_ne apart]
  | frameEntered payload uri => cases uri <;> exact .inr unchanged
  | _ => exact .inr unchanged

/-- What is read through the registry stays where it is. -/
theorem Change.readsSegment (sound : handle.Sound) (change : Change leave handle after)
    {segmentId : SegmentId} {content : SegmentContent}
    (read : handle.file.segmentContent (handle.tables .segment) segmentId = some content) :
    after.file.segmentContent (after.tables .segment) segmentId = some content := by
  obtain ⟨entry, found, stored⟩ := Option.bind_eq_some_iff.mp read
  rcases change.registers sound with ⟨row, _, registers⟩ | ⟨same, later, grown⟩
  · rw [registers.file, registers.registry]
    have apart : CatalogTableKind.rowId .segment row ≠ segmentId.toNat := by
      intro clash
      have missing := registers.fresh
      change row.segmentId.toNat = segmentId.toNat at clash
      rw [clash, found] at missing
      cases missing
    exact Option.bind_eq_some_iff.mpr ⟨entry, (find_upsert_other _ apart _).trans found,
      readSegment_append _ stored⟩
  · rw [same, grown]
    exact Option.bind_eq_some_iff.mpr ⟨entry, found, readSegment_append _ stored⟩

end Valise
