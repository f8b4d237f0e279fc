import Valise.FileImage

/-!
Where the payload of a frame is while the handle changes: in the buffer until a flush places it, and
in a registered segment from then on.
-/

namespace Valise

open ByteLists Commands Command DeltaTables Outcomes SortedTables

/-! ### Registered segments -/

section Registry

variable {leave : Leave} {handle after : ValiseFile}

/-- The rows of the registry place their segments in the file, compressed as the bytes are. -/
structure Agrees (layout : Layout) (file : StoredFile) (registry : List SegmentCatalogEntry) :
    Prop where
  beyond : ∀ place, file.length ≤ place → layout.plain place = false
  placed : ∀ entry ∈ registry, entry.root.place < file.length
  named : ∀ entry ∈ registry, entry.root.segmentId = entry.segmentId
  compression : ∀ entry ∈ registry, ∀ bytes, file.readSegment entry.root = some (.payload bytes) →
    entry.compression = layout.compressionAt entry.root.place (.payload bytes)

theorem readSegment_earlier {file : StoredFile} (later : StoredFile) {root : SegmentPlace}
    (inside : root.place < file.length) :
    StoredFile.readSegment (file ++ later) root = file.readSegment root := by
  rw [StoredFile.readSegment, StoredFile.readSegment, List.getElem?_append_left inside]

variable {layout : Layout}

theorem Agrees.append {file : StoredFile} {registry : List SegmentCatalogEntry}
    (agrees : Agrees layout file registry) (later : StoredFile) :
    Agrees layout (file ++ later) registry where
  beyond place past := by
    rw [List.length_append] at past
    exact agrees.beyond place (by omega)
  placed entry member := by
    have := agrees.placed entry member
    rw [List.length_append]
    omega
  named := agrees.named
  compression entry member bytes read := by
    rw [readSegment_earlier later (agrees.placed entry member)] at read
    exact agrees.compression entry member bytes read

theorem Agrees.registers (agrees : Agrees layout handle.file (handle.tables .segment))
    {row : SegmentCatalogEntry} {content : SegmentContent}
    (registers : Registers handle after row content) :
    Agrees layout after.file (after.tables .segment) := by
  have grown := agrees.append [⟨row.segmentId, content⟩]
  rw [registers.file, registers.registry]
  refine ⟨grown.beyond, fun entry member => ?_, fun entry member => ?_, fun entry member => ?_⟩
  · rcases mem_upsert _ member with rfl | old
    · simp [registers.root]
    · exact grown.placed entry old
  · rcases mem_upsert _ member with rfl | old
    · rw [registers.root]
    · exact grown.named entry old
  · rcases mem_upsert _ member with rfl | old
    · intro bytes read
      rw [registers.root, readSegment_last] at read
      rw [registers.packed bytes (Option.some.inj read), registers.root, Layout.compressionAt,
        agrees.beyond _ (Nat.le_refl _)]
      rfl
    · exact grown.compression entry old

theorem Agrees.change (agrees : Agrees layout handle.file (handle.tables .segment))
    (sound : handle.Sound) (change : Change leave handle after) :
    Agrees layout after.file (after.tables .segment) := by
  rcases change.registers sound with ⟨row, content, registers⟩ | ⟨same, later, grown⟩
  · exact agrees.registers registers
  · rw [same, grown]
    exact agrees.append later

/-- A payload that the registry has is where it was after every change. -/
theorem PayloadStored.change {segmentId : SegmentId} {content : Bytes}
    (stored : PayloadStored layout handle.file (handle.tables .segment) segmentId content)
    (sound : handle.Sound) (change : Change leave handle after) :
    PayloadStored layout after.file (after.tables .segment) segmentId content := by
  obtain ⟨entry, found, named, compression, read⟩ := stored
  rcases change.registers sound with ⟨row, _, registers⟩ | ⟨same, later, grown⟩
  · rw [registers.file, registers.registry]
    have apart : CatalogTableKind.rowId .segment row ≠ segmentId.toNat := by
      intro clash
      have missing := registers.fresh
      change row.segmentId.toNat = segmentId.toNat at clash
      rw [clash, found] at missing
      cases missing
    exact ⟨entry, (find_upsert_other _ apart _).trans found, named, compression,
      readSegment_append _ read⟩
  · rw [same, grown]
    exact ⟨entry, found, named, compression, readSegment_append _ read⟩

/-- The segment that was just found through the registry. -/
theorem Agrees.stored {file : StoredFile} {registry : List SegmentCatalogEntry}
    (agrees : Agrees layout file registry) {segmentId : SegmentId} {content : Bytes}
    (read : file.segmentContent registry segmentId = some (.payload content)) :
    PayloadStored layout file registry segmentId content := by
  obtain ⟨entry, found, stored⟩ := Option.bind_eq_some_iff.mp read
  have member := (find_some _ found).1
  exact ⟨entry, found, agrees.named entry member, agrees.compression entry member _ stored, stored⟩

end Registry

/-! ### Where a payload is -/

section Held

variable {leave : Leave} {layout : Layout} {handle after : ValiseFile} {frameId : FrameId}
  {payload : Bytes}

/-- The bytes that a reference names. -/
def PayloadPlaced (layout : Layout) (file : StoredFile) (registry : List SegmentCatalogEntry)
    (ref : Option PayloadRef) (payload : Bytes) : Prop :=
  ∃ named content, ref = some named ∧
    PayloadStored layout file registry named.segmentId content ∧
    named.bytesOffset + named.bytesLength ≤ content.length ∧
    slice content named.bytesOffset named.bytesLength = payload

/-- The bytes that a frame waits with. -/
def PayloadWaits (buffer : Bytes) (entry : PendingPayloadFrame) (payload : Bytes) : Prop :=
  entry.bytesOffset + entry.bytesLength ≤ buffer.length ∧
    slice buffer entry.bytesOffset entry.bytesLength = payload

/-- The frame waits with its payload, or its row names the bytes. -/
structure PayloadHeld (layout : Layout) (handle : ValiseFile) (frameId : FrameId)
    (payload : Bytes) : Prop where
  frame : ∃ frame, handle.findFrame frameId = some frame ∧ frame.payloadEncoding = .raw ∧
    (handle.pendingPayload frameId = none →
      PayloadPlaced layout handle.file (handle.tables .segment) frame.payloadRef payload)
  waits : ∀ entry, handle.pendingPayload frameId = some entry →
    PayloadWaits handle.pendingPayloadBuf entry payload

theorem PayloadPlaced.change {ref : Option PayloadRef}
    (placed : PayloadPlaced layout handle.file (handle.tables .segment) ref payload)
    (sound : handle.Sound) (change : Change leave handle after) :
    PayloadPlaced layout after.file (after.tables .segment) ref payload := by
  obtain ⟨named, content, refers, stored, inside, sliced⟩ := placed
  exact ⟨named, content, refers, stored.change sound change, inside, sliced⟩

/-- A change that leaves the buffer and the frame's row alone. -/
theorem PayloadHeld.kept (held : PayloadHeld layout handle frameId payload) (sound : handle.Sound)
    (change : Change leave handle after)
    (pending : after.pendingPayload frameId = handle.pendingPayload frameId)
    (buffer : after.pendingPayloadBuf = handle.pendingPayloadBuf)
    (rows : ∀ frame, handle.findFrame frameId = some frame → ∃ frame',
      after.findFrame frameId = some frame' ∧ frame'.payloadRef = frame.payloadRef ∧
        frame'.payloadEncoding = frame.payloadEncoding) :
    PayloadHeld layout after frameId payload := by
  obtain ⟨⟨frame, found, raw, placed⟩, waits⟩ := held
  obtain ⟨frame', found', sameRef, sameEncoding⟩ := rows frame found
  constructor
  · refine ⟨frame', found', sameEncoding.trans raw, fun none => ?_⟩
    rw [sameRef]
    exact (placed (pending.symm.trans none)).change sound change
  · intro entry there
    rw [buffer]
    exact waits entry (pending.symm.trans there)

@[simp] theorem uriFixup_payloadRef (segmentId : SegmentId) (pending : List PendingUri)
    (frame : FrameDesc) : (uriFixup segmentId pending frame).payloadRef = frame.payloadRef := by
  unfold uriFixup
  split <;> rfl

@[simp] theorem uriFixup_payloadEncoding (segmentId : SegmentId) (pending : List PendingUri)
    (frame : FrameDesc) :
    (uriFixup segmentId pending frame).payloadEncoding = frame.payloadEncoding := by
  unfold uriFixup
  split <;> rfl

@[simp] theorem payloadFixup_payloadEncoding (segmentId : SegmentId)
    (pending : List PendingPayloadFrame) (frame : FrameDesc) :
    (payloadFixup segmentId pending frame).payloadEncoding = frame.payloadEncoding := by
  unfold payloadFixup
  split <;> rfl

/-- A flush gives a waiting frame the place of its bytes. -/
theorem PayloadHeld.placePayloads (held : PayloadHeld layout handle frameId payload)
    (agrees : Agrees layout handle.file (handle.tables .segment))
    {payloadSegment uriSegment : SegmentId} {uris : List PendingUri}
    (read : handle.file.segmentContent (handle.tables .segment) payloadSegment =
      some (.payload handle.pendingPayloadBuf)) :
    PayloadHeld layout (handle.placePayloads payloadSegment uriSegment uris) frameId payload := by
  obtain ⟨⟨frame, found, raw, placed⟩, waits⟩ := held
  have named : frame.frameId = frameId := UInt64.toNat_inj.mp (find_some _ found).2
  let fixup (frame : FrameDesc) : FrameDesc :=
    uriFixup uriSegment uris (payloadFixup payloadSegment handle.pendingPayloadFrames frame)
  have rewritten : (handle.placePayloads payloadSegment uriSegment uris).findFrame frameId =
      some (fixup frame) := by
    have keeps : ∀ frame, CatalogTableKind.rowId .frame (fixup frame) =
        CatalogTableKind.rowId .frame frame := fun frame => by simp [fixup, CatalogTableKind.rowId]
    have mapped := find_map _ keeps frameId.toNat (handle.tables .frame)
    rw [ValiseFile.findFrame, ValiseFile.placePayloads, ValiseFile.setTable]
    simp only [Function.update_self]
    exact mapped.trans (congrArg (Option.map fixup) found)
  refine ⟨⟨fixup frame, rewritten, by simpa [fixup] using raw, fun _ => ?_⟩,
    fun _ waiting => by cases waiting⟩
  have registry : (handle.placePayloads payloadSegment uriSegment uris).tables .segment =
      handle.tables .segment := rfl
  rw [registry]
  cases pending : handle.pendingPayload frameId with
  | none =>
      have same : (fixup frame).payloadRef = frame.payloadRef := by
        simp only [fixup, uriFixup_payloadRef, payloadFixup, named]
        rw [ValiseFile.pendingPayload] at pending
        rw [pending]
      rw [same]
      exact placed pending
  | some entry =>
      obtain ⟨inside, sliced⟩ := waits entry pending
      refine ⟨⟨payloadSegment, entry.bytesOffset, entry.bytesLength⟩, handle.pendingPayloadBuf, ?_,
        agrees.stored read, inside, sliced⟩
      simp only [fixup, uriFixup_payloadRef, payloadFixup, named]
      rw [ValiseFile.pendingPayload] at pending
      rw [pending]

/-- The frames that are in the catalog keep their payloads when another one enters. -/
theorem PayloadHeld.enterFrame (held : PayloadHeld layout handle frameId payload)
    {ids : IdAllocator} {frame : FrameDesc} {entered : Bytes} {uri : Option Bytes}
    (apart : frame.frameId ≠ frameId) :
    PayloadHeld layout (handle.enterFrame ids frame entered uri) frameId payload := by
  have registry : (handle.enterFrame ids frame entered uri).tables .segment =
      handle.tables .segment := by cases uri <;> rfl
  have file : (handle.enterFrame ids frame entered uri).file = handle.file := by cases uri <;> rfl
  have buffer : (handle.enterFrame ids frame entered uri).pendingPayloadBuf =
      handle.pendingPayloadBuf ++ entered := by cases uri <;> rfl
  have pending : (handle.enterFrame ids frame entered uri).pendingPayload frameId =
      handle.pendingPayload frameId := by
    have grown : (handle.enterFrame ids frame entered uri).pendingPayloadFrames =
        handle.pendingPayloadFrames ++
          [⟨frame.frameId, handle.pendingPayloadBuf.length, entered.length⟩] := by
      cases uri <;> rfl
    rw [ValiseFile.pendingPayload, grown, List.reverse_concat, List.find?_cons,
      decide_eq_false apart]
    rfl
  have row : (handle.enterFrame ids frame entered uri).findFrame frameId =
      handle.findFrame frameId := by
    have other : CatalogTableKind.rowId .frame frame ≠ frameId.toNat := fun same =>
      apart (UInt64.toNat_inj.mp same)
    cases uri <;> exact find_upsert_other _ other _
  obtain ⟨⟨old, found, raw, placed⟩, waits⟩ := held
  constructor
  · refine ⟨old, row.trans found, raw, fun none => ?_⟩
    rw [file, registry]
    exact placed (pending.symm.trans none)
  · intro entry there
    obtain ⟨inside, sliced⟩ := waits entry (pending.symm.trans there)
    rw [buffer]
    refine ⟨?_, (slice_append_left _ _ _ _ inside).trans sliced⟩
    rw [List.length_append]
    omega

/-- The payload of a frame that has just entered waits in the buffer. -/
theorem PayloadHeld.entered {ids : IdAllocator} {frame : FrameDesc} {uri : Option Bytes}
    (raw : frame.payloadEncoding = .raw) :
    PayloadHeld layout (handle.enterFrame ids frame payload uri) frame.frameId payload := by
  have pending : (handle.enterFrame ids frame payload uri).pendingPayload frame.frameId =
      some ⟨frame.frameId, handle.pendingPayloadBuf.length, payload.length⟩ := by
    have grown : (handle.enterFrame ids frame payload uri).pendingPayloadFrames =
        handle.pendingPayloadFrames ++
          [⟨frame.frameId, handle.pendingPayloadBuf.length, payload.length⟩] := by
      cases uri <;> rfl
    rw [ValiseFile.pendingPayload, grown, List.reverse_concat, List.find?_cons,
      decide_eq_true (Eq.refl _)]
  have buffer : (handle.enterFrame ids frame payload uri).pendingPayloadBuf =
      handle.pendingPayloadBuf ++ payload := by cases uri <;> rfl
  constructor
  · refine ⟨frame, ?_, raw, fun none => nomatch pending.symm.trans none⟩
    cases uri <;> exact find_upsert_self _ _ _
  · intro entry there
    obtain rfl := Option.some.inj (pending.symm.trans there)
    rw [buffer]
    refine ⟨(List.length_append ..).ge, ?_⟩
    simp [slice]

theorem PayloadHeld.change (held : PayloadHeld layout handle frameId payload)
    (agrees : Agrees layout handle.file (handle.tables .segment)) (sound : handle.Sound)
    (change : Change leave handle after) : PayloadHeld layout after frameId payload := by
  have unchanged := held.kept sound change
  cases change with
  | frameEntered entered uri took =>
      refine held.enterFrame fun same => ?_
      obtain ⟨frame, found, -⟩ := held.frame
      have missing := sound.fresh took
      rw [ValiseFile.findFrame, ← same] at found
      cases found.symm.trans missing
  | frameTombstoned now found =>
      rename_i frame
      refine unchanged rfl rfl fun old there => ?_
      by_cases same : frame.frameId = frameId
      · rw [same] at found
        obtain rfl := Option.some.inj (found.symm.trans there)
        subst same
        let buried : FrameDesc :=
          { frame with status := .tombstoned, role := .tombstone, updatedAt := now }
        have stored := find_upsert_self (CatalogTableKind.rowId .frame) buried (handle.tables .frame)
        exact ⟨buried, stored, rfl, rfl⟩
      · have apart : CatalogTableKind.rowId .frame
            { frame with status := .tombstoned, role := .tombstone, updatedAt := now } ≠
              frameId.toNat := fun clash => same (UInt64.toNat_inj.mp clash)
        exact ⟨old, (find_upsert_other _ apart _).trans there, rfl, rfl⟩
  | rowEntered plain took =>
      rename_i ids kind row
      have apart : CatalogTableKind.frame ≠ kind := by
        rintro rfl
        exact plain
      refine unchanged rfl rfl fun frame found => ⟨frame, ?_, rfl, rfl⟩
      simp only [ValiseFile.findFrame, ValiseFile.upsertRow, ValiseFile.setTable,
        Function.update_of_ne apart]
      exact found
  | payloadsPlaced dirty payload uris => exact held.placePayloads agrees payload
  | buffersCleared noFrames =>
      refine ⟨held.frame, fun entry there => ?_⟩
      have empty : handle.pendingPayload frameId = none := by
        rw [ValiseFile.pendingPayload, noFrames]
        rfl
      cases there.symm.trans empty
  | _ => exact unchanged rfl rfl fun frame found => ⟨frame, found, rfl, rfl⟩

end Held

end Valise
