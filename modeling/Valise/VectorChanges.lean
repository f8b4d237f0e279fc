import Valise.Reopening

/-!
Where the values of a vector are while the handle changes: in a batch, encoded or still raw, at the
ordinal of its row, and at that ordinal of the batch's segment once the batch is flushed.
-/

namespace Valise

open ByteLists Commands Command DeltaTables Outcomes SortedTables

/-! ### Batches -/

/-- Pairs can be made in two goes. -/
theorem zip_take_drop {α β : Type} (firsts : List α) (seconds : List β) (count : Nat) :
    firsts.zip (seconds.take count) ++
      (firsts.drop (firsts.zip (seconds.take count)).length).zip (seconds.drop count) =
        firsts.zip seconds := by
  induction firsts generalizing seconds count with
  | nil => simp
  | cons first firsts ih =>
      cases seconds with
      | nil => simp
      | cons second seconds =>
          cases count with
          | zero => simp
          | succ count => simpa using ih seconds count

namespace PendingVectorBatch

variable {batch : PendingVectorBatch}

/-- The rows of a batch as its segment will have them. -/
def rows (batch : PendingVectorBatch) : List (VectorId × List F32) :=
  (batch.append batch.rawValues).written

/-- Every vector of the batch has its values, encoded or raw. -/
def Aligned (batch : PendingVectorBatch) : Prop :=
  batch.written.length + batch.rawValues.length = batch.vectors.length

theorem rows_eq (batch : PendingVectorBatch) : batch.rows = batch.written ++
    ((batch.vectors.drop batch.written.length).map VectorDesc.vectorId).zip batch.rawValues := rfl

theorem Aligned.length (aligned : batch.Aligned) : batch.rows.length = batch.vectors.length := by
  unfold Aligned at aligned
  simp only [rows_eq, List.length_append, List.length_zip, List.length_map, List.length_drop]
  omega

/-- The batch with one more vector. -/
def entered (batch : PendingVectorBatch) (desc : VectorDesc) (values : List F32) :
    PendingVectorBatch :=
  { batch with
    vectors := batch.vectors ++ [desc]
    rawValues := batch.rawValues ++ [values] }

/-- The batch with its first raw rows encoded. -/
def drained (batch : PendingVectorBatch) (count : Nat) : PendingVectorBatch :=
  ({ batch with rawValues := batch.rawValues.drop count } : PendingVectorBatch).append
    (batch.rawValues.take count)

theorem Aligned.entered (aligned : batch.Aligned) (desc : VectorDesc) (values : List F32) :
    (batch.entered desc values).Aligned := by
  unfold Aligned at aligned ⊢
  simp only [PendingVectorBatch.entered, List.length_append, List.length_singleton]
  omega

/-- A new vector gets the row behind all others. -/
theorem Aligned.rows_entered (aligned : batch.Aligned) (desc : VectorDesc) (values : List F32) :
    (batch.entered desc values).rows = batch.rows ++ [(desc.vectorId, values)] := by
  have waiting : ((batch.vectors.drop batch.written.length).map VectorDesc.vectorId).length =
      batch.rawValues.length := by
    unfold Aligned at aligned
    simp only [List.length_map, List.length_drop]
    omega
  have within : batch.written.length ≤ batch.vectors.length := by
    unfold Aligned at aligned
    omega
  simp only [rows_eq, PendingVectorBatch.entered, List.drop_append_of_le_length within,
    List.map_append, List.zip_append waiting, List.append_assoc]
  rfl

theorem Aligned.drained (aligned : batch.Aligned) (count : Nat) : (batch.drained count).Aligned := by
  unfold Aligned at aligned ⊢
  simp only [PendingVectorBatch.drained, append, List.length_append, List.length_zip,
    List.length_map, List.length_drop, List.length_take]
  omega

/-- Draining moves rows, but changes none. -/
theorem rows_drained (batch : PendingVectorBatch) (count : Nat) :
    (batch.drained count).rows = batch.rows := by
  have both := zip_take_drop ((batch.vectors.drop batch.written.length).map VectorDesc.vectorId)
    batch.rawValues count
  simp only [rows_eq, PendingVectorBatch.drained, append, List.append_assoc, List.length_append]
  rw [← both, ← List.drop_drop]
  simp only [List.map_drop]

theorem Aligned.empty (aligned : batch.Aligned) (none : batch.vectors = []) : batch.rows = [] := by
  have sized := aligned.length
  rw [none] at sized
  exact List.eq_nil_of_length_eq_zero sized

end PendingVectorBatch

/-! ### Where the values of a vector are -/

/-- The row's ordinal names the vector and its values in a registered segment. -/
def VectorStored (file : StoredFile) (registry : List SegmentCatalogEntry) (vector : VectorDesc)
    (values : List F32) : Prop :=
  ∃ items, file.segmentContent registry vector.dataSegmentId = some (.vectorData items) ∧
    vectorDataHeaderBytes + items.length * vectorIdBytes < 2 ^ 32 ∧
    items[vector.ordinalInSegment]? = some (vector.vectorId, values)

/-- The row's ordinal names them in a batch, whose segment is the one the row names. -/
def VectorWaits (handle : ValiseFile) (vector : VectorDesc) (values : List F32) : Prop :=
  ∃ key batch, handle.batch key = some batch ∧ vector.dataSegmentId = batch.segmentId ∧
    batch.rows[vector.ordinalInSegment]? = some (vector.vectorId, values)

def VectorPlaced (handle : ValiseFile) (vector : VectorDesc) (values : List F32) : Prop :=
  VectorStored handle.file (handle.tables .segment) vector values ∨ VectorWaits handle vector values

def ValiseFile.findVector (handle : ValiseFile) (vectorId : VectorId) : Option VectorDesc :=
  find (CatalogTableKind.rowId .vector) vectorId.toNat (handle.tables .vector)

def VectorHeld (handle : ValiseFile) (vectorId : VectorId) (values : List F32) : Prop :=
  ∃ vector, handle.findVector vectorId = some vector ∧ VectorPlaced handle vector values

/-- Every batch has the values of its vectors. -/
def BatchesAligned (handle : ValiseFile) : Prop :=
  ∀ key batch, handle.batch key = some batch → batch.Aligned

section Kept

variable {leave : Leave} {handle after : ValiseFile} {vector : VectorDesc} {values : List F32}

theorem VectorStored.change (stored : VectorStored handle.file (handle.tables .segment) vector values)
    (sound : handle.Sound) (change : Change leave handle after) :
    VectorStored after.file (after.tables .segment) vector values := by
  obtain ⟨items, read, short, there⟩ := stored
  exact ⟨items, change.readsSegment sound read, short, there⟩

/-- A batch may change when its rows stay, and more may follow them. -/
theorem VectorWaits.setBatch (waits : VectorWaits handle vector values) {key : BatchKey}
    {batch changed : PendingVectorBatch} (found : handle.batch key = some batch)
    (segment : changed.segmentId = batch.segmentId) (grown : ∃ later, changed.rows = batch.rows ++ later)
    (batches : ∀ other, after.batch other = if key = other then some changed else handle.batch other) :
    VectorWaits after vector values := by
  obtain ⟨place, held, there, named, row⟩ := waits
  by_cases same : key = place
  · subst same
    obtain rfl := Option.some.inj (found.symm.trans there)
    obtain ⟨later, grown⟩ := grown
    refine ⟨key, changed, (batches key).trans (if_pos rfl), named.trans segment.symm, ?_⟩
    rw [grown, List.getElem?_append_left (List.getElem?_eq_some_iff.mp row).1]
    exact row
  · exact ⟨place, held, (batches place).trans ((if_neg same).trans there), named, row⟩

/-- A batch that leaves becomes the segment that its rows name, or it was empty. -/
theorem VectorWaits.dropBatch (waits : VectorWaits handle vector values) {key : BatchKey}
    (batches : ∀ other, after.batch other = if other = key then none else handle.batch other)
    (stored : ∀ batch, handle.batch key = some batch → vector.dataSegmentId = batch.segmentId →
      batch.rows[vector.ordinalInSegment]? = some (vector.vectorId, values) →
      VectorPlaced after vector values) : VectorPlaced after vector values := by
  obtain ⟨place, batch, there, named, row⟩ := waits
  by_cases same : place = key
  · exact stored batch (same ▸ there) named row
  · exact .inr ⟨place, batch, (batches place).trans ((if_neg same).trans there), named, row⟩

theorem BatchesAligned.setBatch (aligned : BatchesAligned handle) {key : BatchKey}
    {changed : PendingVectorBatch} (new : changed.Aligned)
    (batches : ∀ other, after.batch other = if key = other then some changed else handle.batch other) :
    BatchesAligned after := by
  intro other batch found
  rw [batches] at found
  split at found
  · rw [← Option.some.inj found]
    exact new
  · exact aligned other batch found

theorem BatchesAligned.dropBatch (aligned : BatchesAligned handle) {key : BatchKey}
    (batches : ∀ other, after.batch other = if other = key then none else handle.batch other) :
    BatchesAligned after := by
  intro other batch found
  rw [batches] at found
  split at found
  · cases found
  · exact aligned other batch found

theorem flushBatch_stores (handle : ValiseFile) (key : BatchKey) (batch : PendingVectorBatch) :
    (handle.flushBatch key batch).file.segmentContent ((handle.flushBatch key batch).tables .segment)
      batch.segmentId = some (.vectorData batch.rows) := by
  have found := find_upsert_self (CatalogTableKind.rowId .segment)
    ⟨batch.segmentId, .vectorData, ⟨batch.segmentId, handle.file.length⟩, batch.vectors.length,
      .none⟩ (handle.tables .segment)
  exact Option.bind_eq_some_iff.mpr ⟨_, found, readSegment_last _ _ _⟩

theorem BatchesAligned.change (aligned : BatchesAligned handle) (keeps : leave.losing = false)
    (change : Change leave handle after) : BatchesAligned after := by
  cases change with
  | batchOpened missing took =>
      exact aligned.setBatch (by exact rfl) fun other => batch_setBatch _ _ _ _
  | vectorEntered values enters found =>
      exact aligned.setBatch ((aligned _ _ found).entered _ values) fun other => batch_setBatch _ _ _ _
  | vectorsDrained count found =>
      exact aligned.setBatch ((aligned _ _ found).drained count) fun other => batch_setBatch _ _ _ _
  | vectorsDropped count loses => exact nomatch loses.symm.trans keeps
  | batchFlushed dirty found finishes => exact aligned.dropBatch fun other => batch_dropBatch _ _ _
  | batchDropped key => exact aligned.dropBatch fun other => batch_dropBatch _ _ _
  | frameEntered payload uri => cases uri <;> exact aligned
  | _ => exact aligned

theorem VectorPlaced.change (placed : VectorPlaced handle vector values) (sound : handle.Sound)
    (aligned : BatchesAligned handle) (keeps : leave.losing = false)
    (change : Change leave handle after) : VectorPlaced after vector values := by
  rcases placed with stored | waits
  · exact .inl (stored.change sound change)
  cases change with
  | batchOpened missing took =>
      obtain ⟨place, batch, there, named, row⟩ := waits
      refine .inr ⟨place, batch, ?_, named, row⟩
      refine (batch_setBatch _ _ _ _).trans ((if_neg ?_).trans there)
      rintro rfl
      exact nomatch there.symm.trans missing
  | vectorEntered values enters found =>
      exact .inr (waits.setBatch found (by exact rfl) ⟨_, (aligned _ _ found).rows_entered _ values⟩
        fun other => batch_setBatch _ _ _ _)
  | vectorsDrained count found =>
      rename_i key batch
      exact .inr (waits.setBatch found (by exact rfl)
        ⟨[], (batch.rows_drained count).trans (List.append_nil _).symm⟩
        fun other => batch_setBatch _ _ _ _)
  | vectorsDropped count loses => exact nomatch loses.symm.trans keeps
  | batchFlushed dirty found finishes =>
      rename_i key batch
      refine waits.dropBatch (fun other => batch_dropBatch _ _ _) fun held there named row => .inl ?_
      obtain rfl := Option.some.inj (found.symm.trans there)
      refine ⟨batch.rows, ?_, finishes, row⟩
      rw [named]
      exact flushBatch_stores handle key batch
  | batchDropped key empty =>
      refine waits.dropBatch (fun other => batch_dropBatch _ _ _) fun held there named row => ?_
      have none := (empty.resolve_left (by simp [keeps])) held there
      rw [(aligned key held there).empty none] at row
      cases row
  | frameEntered payload uri => cases uri <;> exact .inr waits
  | _ => exact .inr waits

end Kept

end Valise
