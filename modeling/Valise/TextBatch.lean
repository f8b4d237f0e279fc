import Valise.PayloadChanges
import Valise.TextAnalyzer

/-!
Putting many texts at once: workers analyze the payloads, each with its own memo table, and then the
frames are put in order with the tokens that are already there.
-/

namespace Valise

open ByteLists Commands Command Outcomes SortedTables

/-- An input, and what the clock says when it is put. -/
abbrev TimedFrame := PutFrame × Int64

def TextHandle.insertPending (text : TextHandle) (frameId : FrameId) (entry : PendingFrameIndex) :
    TextHandle :=
  { text with pending := store frameRank frameId entry text.pending }

namespace TextLibrary

variable (library : TextLibrary)

/-- A worker analyzes its inputs in order and keeps its table. -/
def analyzeChunk (analyzer : AnalyzerDesc) :
    List TimedFrame → StemCache → Result (List PendingFrameIndex)
  | [], _ => return []
  | (input, _) :: rest, stemCache =>
      match fromUtf8 input.payload with
      | none => .err (.format "put_text_frames_batch: payload is not UTF-8")
      | some text => do
          let analyzed := library.analyzeWithCache analyzer text stemCache
          let later ← analyzeChunk analyzer rest analyzed.2
          return .fromTokens input.collectionId analyzed.1 :: later

/-- Every worker starts with an empty table. -/
def analyzeChunks (analyzer : AnalyzerDesc) :
    List (List TimedFrame) → Result (List PendingFrameIndex)
  | [] => return []
  | chunk :: rest => do
      let first ← library.analyzeChunk analyzer chunk .new
      let later ← analyzeChunks analyzer rest
      return first ++ later

end TextLibrary

def putAnalyzed (textSpaceId : TextSpaceId) :
    List (TimedFrame × PendingFrameIndex) → Engine (List FrameId)
  | [] => return []
  | ((input, now), entry) :: rest => do
      let fid ← putFrame input now
      Command.modify fun handle => handle.setText textSpaceId
        ((handle.textOf textSpaceId).insertPending fid entry)
      let frameIds ← putAnalyzed textSpaceId rest
      return fid :: frameIds

/-- The inputs come in the chunks that the workers take. -/
def putTextFramesBatch (library : TextLibrary) (textSpaceId : TextSpaceId)
    (chunks : List (List TimedFrame)) : Engine (List FrameId) := do
  ensureTextEnabled "put_text_frames_batch"
  if chunks.flatten.isEmpty = true then return []
  else do
    let handle ← Command.get
    match valueAt UInt32.toNat textSpaceId handle.analyzerCache with
    | none => lift (.err (.format
        s!"put_text_frames_batch: unknown text_space_id {textSpaceId}"))
    | some analyzer => do
        let pending ← lift (library.analyzeChunks analyzer chunks)
        let frameIds ← putAnalyzed textSpaceId (chunks.flatten.zip pending)
        markDirtyFlag
        return frameIds

/-- One by one: each frame is put, read back and indexed. -/
def putTextFrames (library : TextLibrary) (textSpaceId : TextSpaceId) :
    List TimedFrame → Engine (List FrameId)
  | [] => return []
  | (input, now) :: rest => do
      let fid ← putFrame input now
      indexFrameText library.analyzePayload fid textSpaceId
      let frameIds ← putTextFrames library textSpaceId rest
      return fid :: frameIds

/-! ### What a flush leaves alone -/

section Inversions

variable {handle after : ValiseFile}

theorem allocateSegmentId_ok {segmentId : SegmentId}
    (done : allocateSegmentId handle = (.ok segmentId, after)) :
    ∃ ids, handle.idAllocator.Took ids .segment segmentId.toNat ∧
      after = { handle with idAllocator := ids } := by
  obtain ⟨earlier, ids, rfl, took, rfl⟩ := (allocateSegmentId_takes (· = handle)).ok rfl done
  exact ⟨ids, took, rfl⟩

theorem fallible_leaves {point : IoPoint} {value : Unit}
    (done : fallible point handle = (.ok value, after)) : after = handle := by
  simp only [fallible, bind_eq_ok, get_eq_ok, lift_eq_ok] at done
  obtain ⟨_, _, ⟨rfl, rfl⟩, -, rfl⟩ := done
  rfl

theorem check_leaves {condition : Prop} [Decidable condition] {error : Error} {value : Unit}
    (done : check condition error handle = (.ok value, after)) : after = handle :=
  (lift_eq_ok.mp done).2.symm

theorem appendSegmentAtEnd_ok {point : IoPoint} {segmentId : SegmentId} {content : SegmentContent}
    {root : SegmentPlace}
    (done : appendSegmentAtEnd point segmentId content handle = (.ok root, after)) :
    root = ⟨segmentId, handle.file.length⟩ ∧
      after = { handle with file := handle.file ++ [⟨segmentId, content⟩] } := by
  simp only [appendSegmentAtEnd, bind_eq_ok, get_eq_ok, modify_eq_ok, pure_eq_ok] at done
  obtain ⟨_, _, passed, _, _, ⟨rfl, rfl⟩, _, _, rfl, rfl, rfl⟩ := done
  obtain rfl := fallible_leaves passed
  exact ⟨rfl, rfl⟩

/-- The segment is in the file, under an id that will not be given again. -/
structure SegmentHeld (segmentId : SegmentId) (content : SegmentContent) (handle : ValiseFile) : Prop where
  read : handle.file.segmentContent (handle.tables .segment) segmentId = some content
  taken : segmentId.toNat < handle.idAllocator.counter .segment

/-- What reading a frame's text takes from a handle besides the payload. -/
structure FramesAlone (handle after : ValiseFile) : Prop where
  analyzers : after.analyzerCache = handle.analyzerCache
  dirty : after.dirty = handle.dirty
  frames : after.tables .frame = handle.tables .frame
  holds : ∀ segmentId content, SegmentHeld segmentId content handle → SegmentHeld segmentId content after

theorem FramesAlone.refl (handle : ValiseFile) : FramesAlone handle handle :=
  ⟨rfl, rfl, rfl, fun _ _ holds => holds⟩

/-- A segment is stored under a new id. -/
theorem storeSegment_framesAlone {ids : IdAllocator} {segmentId : SegmentId}
    (took : handle.idAllocator.Took ids .segment segmentId.toNat) (content : SegmentContent)
    (segmentType : SegmentType) (itemCount : Nat) (compression : Compression) :
    FramesAlone handle (handle.storeSegment ids segmentId content segmentType itemCount compression) ∧
      SegmentHeld segmentId content
        (handle.storeSegment ids segmentId content segmentType itemCount compression) := by
  have registry : (handle.storeSegment ids segmentId content segmentType itemCount
      compression).tables .segment = upsert (CatalogTableKind.rowId .segment)
        ⟨segmentId, segmentType, ⟨segmentId, handle.file.length⟩, itemCount, compression⟩
        (handle.tables .segment) := by
    simp [ValiseFile.storeSegment, ValiseFile.upsertRow, ValiseFile.setTable]
  have file : (handle.storeSegment ids segmentId content segmentType itemCount compression).file =
      handle.file ++ [⟨segmentId, content⟩] := rfl
  have counter : (handle.storeSegment ids segmentId content segmentType itemCount
      compression).idAllocator = ids := rfl
  refine ⟨⟨rfl, rfl, ?_, fun other old holds => ⟨?_, ?_⟩⟩, ?_, ?_⟩
  · simp [ValiseFile.storeSegment, ValiseFile.upsertRow, ValiseFile.setTable]
  · have apart : segmentId.toNat ≠ other.toNat := by
      have below := holds.taken
      have next := took.was
      omega
    have read := holds.read
    simp only [StoredFile.segmentContent, Option.bind_eq_bind, Option.bind_eq_some_iff] at read ⊢
    obtain ⟨entry, found, content⟩ := read
    refine ⟨entry, ?_, file ▸ readSegment_append _ content⟩
    rw [registry]
    exact (find_upsert_other (CatalogTableKind.rowId .segment) (by exact apart) _).trans found
  · have below := holds.taken
    have next := took.next
    have was := took.was
    rw [counter]
    omega
  · simp only [StoredFile.segmentContent, Option.bind_eq_bind, Option.bind_eq_some_iff]
    refine ⟨⟨segmentId, segmentType, ⟨segmentId, handle.file.length⟩, itemCount, compression⟩, ?_, ?_⟩
    · rw [registry]
      exact (find_upsert (CatalogTableKind.rowId .segment) _ _ _).trans (if_pos rfl)
    · rw [file]
      exact readSegment_last _ _ _
  · rw [counter, took.next]
    omega

theorem flushPendingUris_ok {stored : SegmentId × List PendingUri}
    (done : flushPendingUris handle = (.ok stored, after)) : FramesAlone handle after := by
  unfold flushPendingUris at done
  obtain ⟨_, _, read, done⟩ := bind_eq_ok.mp done
  obtain ⟨rfl, rfl⟩ := get_eq_ok.mp read
  split at done
  · obtain ⟨-, rfl⟩ := pure_eq_ok.mp done
    exact .refl _
  · obtain ⟨segmentId, _, allocated, done⟩ := bind_eq_ok.mp done
    obtain ⟨ids, took, rfl⟩ := allocateSegmentId_ok allocated
    obtain ⟨_, _, checked, done⟩ := bind_eq_ok.mp done
    obtain rfl := check_leaves checked
    obtain ⟨_, _, appended, done⟩ := bind_eq_ok.mp done
    obtain ⟨rfl, rfl⟩ := appendSegmentAtEnd_ok appended
    obtain ⟨_, _, synced, done⟩ := bind_eq_ok.mp done
    obtain rfl := fallible_leaves synced
    obtain ⟨_, _, registered, done⟩ := bind_eq_ok.mp done
    obtain rfl := modify_eq_ok.mp registered
    obtain ⟨_, _, emptied, done⟩ := bind_eq_ok.mp done
    obtain rfl := modify_eq_ok.mp emptied
    obtain ⟨-, rfl⟩ := pure_eq_ok.mp done
    have same := (storeSegment_framesAlone took (.metadata handle.pendingUriBuf) .metadata
      handle.pendingUris.length .none).1
    exact ⟨same.analyzers, same.dirty, same.frames, fun _ _ holds =>
      ⟨(same.holds _ _ holds).read, (same.holds _ _ holds).taken⟩⟩

/-- After a flush the frames name their places in one segment with all of the buffer. -/
structure PayloadsFlushed (handle after : ValiseFile) : Prop where
  analyzers : after.analyzerCache = handle.analyzerCache
  dirty : after.dirty = handle.dirty
  settled : after.pendingPayloadFrames = []
  placed : ∃ segmentId uriSegmentId uris,
    after.tables .frame = (handle.tables .frame).map (fun frame =>
      uriFixup uriSegmentId uris (payloadFixup segmentId handle.pendingPayloadFrames frame)) ∧
    after.file.segmentContent (after.tables .segment) segmentId =
      some (.payload handle.pendingPayloadBuf)

theorem flushPendingPayloads_ok {value : Unit} (waiting : handle.pendingPayloadFrames ≠ [])
    (done : flushPendingPayloads handle = (.ok value, after)) : PayloadsFlushed handle after := by
  unfold flushPendingPayloads at done
  obtain ⟨_, _, read, done⟩ := bind_eq_ok.mp done
  obtain ⟨rfl, rfl⟩ := get_eq_ok.mp read
  rw [if_neg waiting] at done
  obtain ⟨segmentId, _, allocated, done⟩ := bind_eq_ok.mp done
  obtain ⟨ids, took, rfl⟩ := allocateSegmentId_ok allocated
  obtain ⟨_, _, checked, done⟩ := bind_eq_ok.mp done
  obtain rfl := check_leaves checked
  obtain ⟨_, _, compressed, done⟩ := bind_eq_ok.mp done
  obtain rfl := fallible_leaves compressed
  obtain ⟨_, _, appended, done⟩ := bind_eq_ok.mp done
  obtain ⟨rfl, rfl⟩ := appendSegmentAtEnd_ok appended
  obtain ⟨_, _, synced, done⟩ := bind_eq_ok.mp done
  obtain rfl := fallible_leaves synced
  obtain ⟨_, _, registered, done⟩ := bind_eq_ok.mp done
  obtain rfl := modify_eq_ok.mp registered
  obtain ⟨⟨uriSegmentId, uris⟩, middle, keyed, done⟩ := bind_eq_ok.mp done
  have keys := flushPendingUris_ok keyed
  obtain ⟨_, _, placed, done⟩ := bind_eq_ok.mp done
  obtain rfl := modify_eq_ok.mp placed
  obtain ⟨_, _, matched, done⟩ := bind_eq_ok.mp done
  obtain rfl := check_leaves matched
  obtain rfl := modify_eq_ok.mp done
  obtain ⟨same, held⟩ := storeSegment_framesAlone took (.payload handle.pendingPayloadBuf) .payload
    handle.pendingPayloadFrames.length .zstd
  have kept := keys.holds _ _ held
  refine ⟨keys.analyzers.trans same.analyzers, keys.dirty.trans same.dirty, rfl, segmentId,
    uriSegmentId, uris, ?_, ?_⟩
  · simp only [ValiseFile.setTable, Function.update_self]
    rw [keys.frames]
    exact congrArg _ same.frames
  · have apart : CatalogTableKind.segment ≠ .frame := by decide
    simp only [ValiseFile.setTable, Function.update_of_ne apart]
    exact kept.read

/-! ### A frame that was just put -/

structure JustPut (before after : ValiseFile) (input : PutFrame) (frameId : FrameId) : Prop where
  analyzers : after.analyzerCache = before.analyzerCache
  dirty : after.dirty = true
  frame : ∃ frame, after.findFrame frameId = some frame ∧ frame.status = .active ∧
    frame.collectionId = input.collectionId
  payload : after.readPayload frameId = .ok input.payload

/-- The last bytes of the buffer. -/
theorem slice_end (buffer payload : Bytes) :
    slice (buffer ++ payload) buffer.length payload.length = payload := by
  simp [slice]

/-- The frame of a put, before any flush. -/
structure Entered (input : PutFrame) (now : Int64) (frameId : FrameId) (before after : ValiseFile) :
    Prop where
  analyzers : after.analyzerCache = before.analyzerCache
  dirty : after.dirty = true
  waits : after.pendingPayload frameId =
    some ⟨frameId, before.pendingPayloadBuf.length, input.payload.length⟩
  buffer : after.pendingPayloadBuf = before.pendingPayloadBuf ++ input.payload
  frame : after.findFrame frameId = some (input.frame frameId now)

theorem enterFrame_entered (ids : IdAllocator) (input : PutFrame) (now : Int64) (frameId : FrameId) :
    Entered input now frameId handle
      (handle.enterFrame ids (input.frame frameId now) input.payload input.uri) := by
  have last : (handle.pendingPayloadFrames ++ [(⟨frameId, handle.pendingPayloadBuf.length,
      input.payload.length⟩ : PendingPayloadFrame)]).reverse.find?
        (fun entry => entry.frameId = frameId) =
      some ⟨frameId, handle.pendingPayloadBuf.length, input.payload.length⟩ := by simp
  have found := find_upsert (CatalogTableKind.rowId .frame) (input.frame frameId now) frameId.toNat
    (handle.tables .frame)
  rw [if_pos (show CatalogTableKind.rowId .frame (input.frame frameId now) = frameId.toNat from rfl)]
    at found
  cases keyed : input.uri with
  | none => exact ⟨rfl, rfl, last, rfl, by
      simpa [ValiseFile.findFrame, ValiseFile.enterFrame, ValiseFile.bufferUri,
        ValiseFile.bufferPayload, ValiseFile.upsertFrame, ValiseFile.upsertRow,
        ValiseFile.setTable] using found⟩
  | some uri => exact ⟨rfl, rfl, last, rfl, by
      simpa [ValiseFile.findFrame, ValiseFile.enterFrame, ValiseFile.bufferUri,
        ValiseFile.bufferPayload, ValiseFile.upsertFrame, ValiseFile.upsertRow,
        ValiseFile.setTable] using found⟩

theorem Entered.unflushed {before : ValiseFile} {input : PutFrame} {now : Int64} {frameId : FrameId}
    (entered : Entered input now frameId before handle) : JustPut before handle input frameId where
  analyzers := entered.analyzers
  dirty := entered.dirty
  frame := ⟨_, entered.frame, rfl, rfl⟩
  payload := by
    rw [ValiseFile.readPayload, entered.waits, entered.buffer]
    exact congrArg Outcome.ok (slice_end _ _)

theorem Entered.flushed {before : ValiseFile} {input : PutFrame} {now : Int64} {frameId : FrameId}
    (entered : Entered input now frameId before handle) (flushed : PayloadsFlushed handle after) :
    JustPut before after input frameId := by
  obtain ⟨segmentId, uriSegmentId, uris, frames, read⟩ := flushed.placed
  let fixup (frame : FrameDesc) : FrameDesc :=
    uriFixup uriSegmentId uris (payloadFixup segmentId handle.pendingPayloadFrames frame)
  have found : after.findFrame frameId = some (fixup (input.frame frameId now)) := by
    have keeps : ∀ frame, CatalogTableKind.rowId .frame (fixup frame) =
        CatalogTableKind.rowId .frame frame := fun frame => by simp [fixup, CatalogTableKind.rowId]
    have mapped := find_map _ keeps frameId.toNat (handle.tables .frame)
    rw [ValiseFile.findFrame, frames]
    exact mapped.trans (congrArg (Option.map fixup) entered.frame)
  have waits := entered.waits
  rw [ValiseFile.pendingPayload] at waits
  refine ⟨flushed.analyzers.trans entered.analyzers, flushed.dirty.trans entered.dirty,
    ⟨_, found, by simp [fixup, PutFrame.frame], ?_⟩, ?_⟩
  · simp only [fixup, uriFixup, payloadFixup]
    split <;> split <;> rfl
  · have placed : (fixup (input.frame frameId now)).payloadRef =
        some ⟨segmentId, before.pendingPayloadBuf.length, input.payload.length⟩ := by
      simp only [fixup, uriFixup_payloadRef, payloadFixup]
      rw [show (input.frame frameId now).frameId = frameId from rfl, waits]
    have raw : (fixup (input.frame frameId now)).payloadEncoding = .raw := by
      simp [fixup, PutFrame.frame]
    have inside : before.pendingPayloadBuf.length + input.payload.length ≤
        handle.pendingPayloadBuf.length := by
      rw [entered.buffer, List.length_append]
    have sliced : slice handle.pendingPayloadBuf before.pendingPayloadBuf.length
        input.payload.length = input.payload := by
      rw [entered.buffer]
      exact slice_end _ _
    have gone : after.pendingPayload frameId = none := by
      rw [ValiseFile.pendingPayload, flushed.settled]
      rfl
    rw [ValiseFile.readPayload, gone, found]
    simp only [placed, raw, StoredFile.readPayloadRef, read, Outcome.ensure, if_pos inside, sliced]
    rfl

theorem putFrame_justPut {input : PutFrame} {now : Int64} {frameId : FrameId}
    (done : putFrame input now handle = (.ok frameId, after)) :
    JustPut handle after input frameId := by
  simp only [putFrame, markDirtyFlag, bind_eq_ok, get_eq_ok, modify_eq_ok, pure_eq_ok] at done
  obtain ⟨_, _, ⟨rfl, rfl⟩, _, _, known, _, _, clock, id, _, allocated, _, _, rfl, _, _, rfl, _, _,
    rfl, _, _, flushed, rfl, rfl⟩ := done
  obtain rfl := check_leaves known
  obtain rfl := fallible_leaves clock
  obtain ⟨earlier, ids, rfl, took, rfl⟩ := (allocateFrameId_takes (· = _)).ok rfl allocated
  have entered := @enterFrame_entered earlier ids input now id
  simp only [flushFullPayloads, bind_eq_ok, get_eq_ok] at flushed
  obtain ⟨_, _, ⟨rfl, rfl⟩, flushed⟩ := flushed
  split at flushed
  · have waiting : (earlier.enterFrame ids (input.frame id now) input.payload
        input.uri).pendingPayloadFrames ≠ [] := by
      intro nothing
      have waits := entered.waits
      rw [ValiseFile.pendingPayload, nothing] at waits
      cases waits
    exact entered.flushed (flushPendingPayloads_ok waiting flushed)
  · obtain ⟨-, rfl⟩ := pure_eq_ok.mp flushed
    exact entered.unflushed

end Inversions

/-! ### What the workers hand over -/

namespace TextLibrary

variable {library : TextLibrary} {analyzer : AnalyzerDesc}

/-- The entry that indexing the payload by itself would store. -/
def Analyzed (library : TextLibrary) (analyzer : AnalyzerDesc) (item : TimedFrame)
    (entry : PendingFrameIndex) : Prop :=
  ∃ tokens, library.analyzePayload analyzer item.1.payload = some tokens ∧
    entry = .fromTokens item.1.collectionId tokens

theorem analyzeChunk_ok (lends : library.porter2.LendsInput) (chunk : List TimedFrame)
    {stemCache : StemCache} (memoizes : StemCache.Memoizes library.porter2 stemCache.slots)
    {pending : List PendingFrameIndex}
    (done : library.analyzeChunk analyzer chunk stemCache = .ok pending) :
    List.Forall₂ (library.Analyzed analyzer) chunk pending := by
  induction chunk generalizing stemCache pending with
  | nil =>
      obtain rfl := Outcome.ok.inj done
      exact .nil
  | cons item rest ih =>
      unfold analyzeChunk at done
      split at done
      · cases done
      · rename_i text read
        obtain ⟨later, others, made⟩ := Outcome.bind_eq_ok.mp done
        obtain rfl := Outcome.ok.inj made
        obtain ⟨tokens, kept⟩ := analyzeWithCache_memoizes lends text memoizes
        refine .cons ⟨library.analyze analyzer text, ?_, by rw [tokens]⟩ (ih kept others)
        rw [analyzePayload, read]
        rfl

theorem analyzeChunks_ok (lends : library.porter2.LendsInput) (chunks : List (List TimedFrame))
    {pending : List PendingFrameIndex} (done : library.analyzeChunks analyzer chunks = .ok pending) :
    List.Forall₂ (library.Analyzed analyzer) chunks.flatten pending := by
  induction chunks generalizing pending with
  | nil =>
      obtain rfl := Outcome.ok.inj done
      exact .nil
  | cons chunk rest ih =>
      unfold analyzeChunks at done
      obtain ⟨first, here, done⟩ := Outcome.bind_eq_ok.mp done
      obtain ⟨later, others, made⟩ := Outcome.bind_eq_ok.mp done
      obtain rfl := Outcome.ok.inj made
      exact List.rel_append (analyzeChunk_ok lends chunk StemCache.new_memoizes here) (ih others)

end TextLibrary

/-! ### Batch and sequence -/

section Sequence

variable {library : TextLibrary} {analyzer : AnalyzerDesc} {textSpaceId : TextSpaceId}

/-- The payload that was put is read back, so indexing stores the worker's entry. -/
theorem indexFrameText_justPut {before handle : ValiseFile} {item : TimedFrame}
    {entry : PendingFrameIndex} {fid : FrameId} (put : JustPut before handle item.1 fid)
    (registered : valueAt UInt32.toNat textSpaceId handle.analyzerCache = some analyzer)
    (analyzed : library.Analyzed analyzer item entry) :
    indexFrameText library.analyzePayload fid textSpaceId handle =
      (.ok (), handle.setText textSpaceId ((handle.textOf textSpaceId).insertPending fid entry)) := by
  obtain ⟨frame, found, active, collection⟩ := put.frame
  obtain ⟨tokens, read, rfl⟩ := analyzed
  have dirty : ∀ text, { handle.setText textSpaceId text with dirty := true } =
      handle.setText textSpaceId text := by
    intro text
    rw [← put.dirty]
    rfl
  unfold indexFrameText
  rw [bind_of_ok (get_apply handle), found]
  dsimp only
  rw [bind_of_ok (check_pass active)]
  rw [registered]
  dsimp only
  rw [bind_of_ok (lift_eq_ok.mpr ⟨put.payload, rfl⟩), read]
  dsimp only
  rw [bind_of_ok (modify_apply _ _), ← collection]
  exact congrArg (Prod.mk _) (dirty _)

theorem putAnalyzed_sequential {items : List TimedFrame} {pending : List PendingFrameIndex}
    (analyzed : List.Forall₂ (library.Analyzed analyzer) items pending) {handle after : ValiseFile}
    {frameIds : List FrameId}
    (registered : valueAt UInt32.toNat textSpaceId handle.analyzerCache = some analyzer)
    (done : putAnalyzed textSpaceId (items.zip pending) handle = (.ok frameIds, after)) :
    putTextFrames library textSpaceId items handle = (.ok frameIds, after) ∧
      (items ≠ [] → after.dirty = true) := by
  induction analyzed generalizing handle frameIds with
  | nil => exact ⟨done, fun some => absurd rfl some⟩
  | @cons item entry items pending here _ ih =>
      obtain ⟨input, now⟩ := item
      simp only [List.zip_cons_cons, putAnalyzed, bind_eq_ok, modify_eq_ok, pure_eq_ok] at done
      obtain ⟨fid, middle, put, _, _, rfl, later, _, others, rfl, rfl⟩ := done
      have justPut := putFrame_justPut put
      have indexed := indexFrameText_justPut justPut (justPut.analyzers ▸ registered) here
      obtain ⟨sequence, dirty⟩ := ih (justPut.analyzers ▸ registered) others
      constructor
      · unfold putTextFrames
        rw [bind_of_ok put, bind_of_ok indexed, bind_of_ok sequence]
        rfl
      · intro _
        cases items with
        | nil =>
            cases pending with
            | nil =>
                obtain ⟨-, rfl⟩ := pure_eq_ok.mp others
                exact justPut.dirty
            | cons _ _ =>
                obtain ⟨-, rfl⟩ := pure_eq_ok.mp others
                exact justPut.dirty
        | cons next rest => exact dirty nofun

/-- When the workers fail the handle is as it was. -/
theorem putTextFramesBatch_unanalyzed {handle : ValiseFile} {chunks : List (List TimedFrame)}
    (registered : valueAt UInt32.toNat textSpaceId handle.analyzerCache = some analyzer)
    (failed : ∀ pending, library.analyzeChunks analyzer chunks ≠ .ok pending) :
    (putTextFramesBatch library textSpaceId chunks handle).2 = handle := by
  unfold putTextFramesBatch ensureTextEnabled
  rw [bind_bind, bind_of_ok (get_apply handle)]
  by_cases enabled : handle.createContract.textEnabled = true
  · rw [bind_of_ok (check_pass enabled)]
    split
    · rfl
    · rw [bind_of_ok (get_apply handle), registered]
      exact bind_of_failed (lift_apply _ _) failed
  · exact bind_of_failed (lift_apply _ _) fun _ passed => enabled (Outcome.ensure_eq_ok.mp passed)

/-- A batch that returns leaves what the sequence of puts and indexings leaves, however the inputs
are shared among the workers. -/
theorem putTextFramesBatch_sequential (library : TextLibrary) (lends : library.porter2.LendsInput)
    (handle : ValiseFile) (textSpaceId : TextSpaceId) (chunks : List (List TimedFrame)) :
    (∀ frameIds after,
      putTextFramesBatch library textSpaceId chunks handle = (.ok frameIds, after) →
      putTextFrames library textSpaceId chunks.flatten handle = (.ok frameIds, after)) ∧
    (∀ desc stemCache rawTokens, library.CacheReached stemCache →
      (library.runTokenLoopCached desc rawTokens stemCache).1 =
        library.runTokenLoop desc rawTokens) ∧
    (∀ analyzer, valueAt UInt32.toNat textSpaceId handle.analyzerCache = some analyzer →
      (∀ pending, library.analyzeChunks analyzer chunks ≠ .ok pending) →
      (putTextFramesBatch library textSpaceId chunks handle).2 = handle) := by
  refine ⟨fun frameIds after done => ?_, fun desc stemCache rawTokens reached => ?_,
    fun analyzer registered failed => putTextFramesBatch_unanalyzed registered failed⟩
  · simp only [putTextFramesBatch, ensureTextEnabled, bind_eq_ok, get_eq_ok] at done
    obtain ⟨_, start, ⟨_, _, ⟨rfl, rfl⟩, enabled⟩, done⟩ := done
    obtain rfl := check_leaves enabled
    split at done
    · rename_i nothing
      obtain ⟨rfl, rfl⟩ := pure_eq_ok.mp done
      rw [List.isEmpty_iff.mp nothing]
      rfl
    · rename_i some
      simp only [bind_eq_ok, get_eq_ok] at done
      obtain ⟨_, _, ⟨rfl, rfl⟩, done⟩ := done
      cases registered : valueAt UInt32.toNat textSpaceId start.analyzerCache with
      | none =>
        rw [registered] at done
        cases (lift_eq_ok.mp done).1
      | some analyzer =>
        rw [registered] at done
        simp only [markDirtyFlag, bind_eq_ok, lift_eq_ok, modify_eq_ok, pure_eq_ok] at done
        obtain ⟨pending, _, ⟨analyzed, rfl⟩, _, middle, puts, _, _, rfl, rfl, rfl⟩ := done
        obtain ⟨sequence, dirty⟩ := putAnalyzed_sequential
          (TextLibrary.analyzeChunks_ok lends chunks analyzed) registered puts
        have flag := dirty fun none => some (List.isEmpty_iff.mpr none)
        rw [sequence, ← flag]
  · exact (TextLibrary.runTokenLoopCached_memoizes lends rawTokens (reached.memoizes lends)).1

end Sequence

namespace Porter

/-- A stemmer that knows one word. -/
def library : TextLibrary where
  isNfcQuick _ := true
  nfc text := text
  nfkc text := text
  nfd text := text
  isCombiningMark _ := false
  isAlphanumeric c := c.isAlphanum
  isWhitespace c := c.isWhitespace
  toLowercase c := [c.toLower]
  porter2 text := if text = "cats" then .owned "cat" else .borrowed text
  fxHash folded := folded.length.toUInt64

def desc : AnalyzerDesc :=
  ⟨1, .nfc, true, true, .unicodeWords, .porter2English, none, false, .englishLucene, true, 2, 0, 0,
    none, none, .drop⟩

/-- A file with one collection and one text space. -/
def file : ValiseFile where
  createContract := { textEnabled := true }
  idAllocator := { nextFrameId := 1, nextSegmentId := 1 }
  tables := Function.update (fun _ => []) .collection [⟨1, "notes", 0, none, none, 0, none⟩]
  analyzerCache := [(1, desc)]

def input (payload : Bytes) : TimedFrame :=
  (⟨1, .document, payload, none, none, none, none, none, none⟩, 7)

def chunks : List (List TimedFrame) :=
  [[input (toBytes "the Cats"), input (toBytes "cats run")], [input (toBytes "cats")]]

/-- Three inputs in two chunks, a worker's table filled by its first input, and bytes that are no
text. -/
theorem batch_sequential :
    (∃ after, putTextFrames library 1 chunks.flatten file = (.ok [1, 2, 3], after)) ∧
    (library.runTokenLoopCached desc ["cats", "cat"]
      (library.runTokenLoopCached desc ["Cats"] .new).2).1 =
        library.runTokenLoop desc ["cats", "cat"] ∧
    (putTextFramesBatch library 1 [[input [0xFF]]] file).2 = file := by
  have lends : library.porter2.LendsInput := by
    intro text lent result
    unfold library at result
    dsimp only at result
    split at result
    · cases result
    · exact (Cow.borrowed.inj result).symm
  refine ⟨?_, ?_, ?_⟩
  · have accepted : (putTextFramesBatch library 1 chunks file).1 = .ok [1, 2, 3] := by
      decide +kernel
    exact ⟨_, (putTextFramesBatch_sequential library lends file 1 chunks).1 [1, 2, 3] _
      (Prod.ext accepted rfl)⟩
  · exact (putTextFramesBatch_sequential library lends file 1 chunks).2.1 desc _ _
      (.step (.start rfl) ⟨desc, ["Cats"], rfl⟩)
  · have failed : library.analyzeChunks desc [[input [0xFF]]] =
        .err (.format "put_text_frames_batch: payload is not UTF-8") := by decide +kernel
    refine (putTextFramesBatch_sequential library lends file 1 [[input [0xFF]]]).2.2 desc rfl ?_
    intro pending done
    rw [failed] at done
    cases done

end Porter

end Valise
