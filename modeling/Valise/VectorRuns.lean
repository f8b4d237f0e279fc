import Valise.VectorChanges
import Valise.WrittenSegments

/-!
Runs in which vectors are put and committed and the file is opened again: what an open finds of the
vectors that were accepted.
-/

namespace Valise

open ByteLists Commands Command DeltaTables Numerals Outcomes Relation Runs SortedTables

abbrev Vectors := List (VectorId × List F32)

/-- Each row names an accepted vector and its values in a registered segment. -/
def VectorsResolve (file : StoredFile) (tables : Tables) (accepted : Vectors) : Prop :=
  ∀ vector ∈ tables .vector, ∃ values, (vector.vectorId, values) ∈ accepted ∧
    VectorStored file (tables .segment) vector values

/-- The vectors that a handle accepted, each once, and no other, are where their rows say. -/
structure VectorsKept (accepted : Vectors) (handle : ValiseFile) : Prop where
  sound : handle.Sound
  aligned : BatchesAligned handle
  held : ∀ item ∈ accepted, VectorHeld handle item.1 item.2
  known : ∀ vector ∈ handle.tables .vector, ∃ values, (vector.vectorId, values) ∈ accepted
  distinct : (accepted.map Prod.fst).Nodup
  published : ∃ tables, Published handle tables ∧ VectorsResolve handle.file tables accepted

section Kept

variable {leave : Leave} {handle after : ValiseFile} {accepted : Vectors}

theorem VectorsResolve.append {file : StoredFile} {tables : Tables}
    (resolve : VectorsResolve file tables accepted) (later : StoredFile) :
    VectorsResolve (file ++ later) tables accepted := by
  intro vector member
  obtain ⟨values, known, items, read, short, row⟩ := resolve vector member
  obtain ⟨entry, found, stored⟩ := Option.bind_eq_some_iff.mp read
  exact ⟨values, known, items,
    Option.bind_eq_some_iff.mpr ⟨entry, found, readSegment_append later stored⟩, short, row⟩

theorem VectorsResolve.mono {file : StoredFile} {tables : Tables} {more : Vectors}
    (resolve : VectorsResolve file tables accepted) (among : ∀ item ∈ accepted, item ∈ more) :
    VectorsResolve file tables more := by
  intro vector member
  obtain ⟨values, known, stored⟩ := resolve vector member
  exact ⟨values, among _ known, stored⟩

theorem ValiseFile.Sound.ascending (sound : handle.Sound) (kind : CatalogTableKind) :
    Ascending kind.rowId (handle.tables kind) := by
  obtain ⟨_, _, _, tracks⟩ := sound.stored.rooted.chained kind
  exact tracks.ascending

/-- With no batch waiting, every row names its values in a segment. -/
theorem VectorsKept.resolve (kept : VectorsKept accepted handle) (settled : NothingWaits handle) :
    VectorsResolve handle.file handle.tables accepted := by
  intro vector member
  obtain ⟨values, known⟩ := kept.known vector member
  obtain ⟨held, found, placed⟩ := kept.held _ known
  have here : handle.findVector vector.vectorId = some vector :=
    find_of_mem _ (kept.sound.ascending .vector) member
  obtain rfl := Option.some.inj (here.symm.trans found)
  refine ⟨values, known, placed.resolve_right ?_⟩
  rintro ⟨key, batch, there, named, row⟩
  rw [(kept.aligned key batch there).empty (settled.vectors key batch there)] at row
  cases row

/-- A change may tombstone the row of a vector, but nothing else in it. -/
theorem VectorHeld.change {vectorId : VectorId} {values : List F32}
    (held : VectorHeld handle vectorId values) (sound : handle.Sound)
    (aligned : BatchesAligned handle) (keeps : leave.losing = false)
    (change : Change leave handle after) : VectorHeld after vectorId values := by
  obtain ⟨vector, found, placed⟩ := held
  have moved := placed.change sound aligned keeps change
  cases change with
  | vectorEntered entered enters there took =>
      refine ⟨vector, (find_upsert_other _ (fun same => ?_) _).trans found, moved⟩
      have missing := sound.fresh took
      rw [ValiseFile.findVector, ← same] at found
      exact nomatch found.symm.trans missing
  | vectorTombstoned there =>
      rename_i desc
      by_cases same : desc.vectorId = vectorId
      · rw [same] at there
        obtain rfl := Option.some.inj (found.symm.trans there)
        subst same
        let buried : VectorDesc := { vector with status := .tombstoned }
        have stored := find_upsert_self (CatalogTableKind.rowId .vector) buried
          (handle.tables .vector)
        exact ⟨buried, stored, moved⟩
      · have apart : CatalogTableKind.rowId .vector { desc with status := .tombstoned } ≠
            vectorId.toNat := fun clash => same (UInt64.toNat_inj.mp clash)
        exact ⟨vector, (find_upsert_other _ apart _).trans found, moved⟩
  | rowEntered plain took =>
      rename_i ids kind row
      have apart : CatalogTableKind.vector ≠ kind := by
        rintro rfl
        exact plain
      refine ⟨vector, ?_, moved⟩
      simp only [ValiseFile.findVector, ValiseFile.upsertRow, ValiseFile.setTable,
        Function.update_of_ne apart]
      exact found
  | frameEntered payload uri => cases uri <;> exact ⟨vector, found, moved⟩
  | _ => exact ⟨vector, found, moved⟩

/-- The rows of vectors that a change leaves are rows of vectors that were there. -/
theorem Change.vectorRows (aside : leave.entering = false) (change : Change leave handle after) :
    ∀ vector ∈ after.tables .vector, ∃ before ∈ handle.tables .vector,
      before.vectorId = vector.vectorId := by
  have same : ∀ vector ∈ handle.tables .vector, ∃ before ∈ handle.tables .vector,
      before.vectorId = vector.vectorId := fun vector member => ⟨vector, member, rfl⟩
  cases change with
  | vectorEntered values enters => exact nomatch enters.symm.trans aside
  | vectorTombstoned there =>
      intro vector member
      rcases mem_upsert _ member with rfl | old
      · exact ⟨_, (find_some _ there).1, rfl⟩
      · exact ⟨vector, old, rfl⟩
  | rowEntered plain took =>
      rename_i ids kind row
      have apart : CatalogTableKind.vector ≠ kind := by
        rintro rfl
        exact plain
      simp only [ValiseFile.upsertRow, ValiseFile.setTable, Function.update_of_ne apart]
      exact same
  | frameEntered payload uri => cases uri <;> exact same
  | _ => exact same

/-- What the header commits to after a change resolves. -/
theorem VectorsKept.publishedChange (kept : VectorsKept accepted handle)
    (change : Change leave handle after) :
    ∃ tables, Published after tables ∧ VectorsResolve after.file tables accepted := by
  rcases change.publishes kept.sound with ⟨body, -, settled, roots, rfl⟩ | ⟨header, file, texts⟩
  · have rooted : ({ handle with published := body } : ValiseFile).RootsAll body :=
      ⟨roots.rooted, roots.ids, roots.texts⟩
    exact ⟨handle.tables, (kept.sound.change change).published rooted rfl, kept.resolve settled⟩
  · obtain ⟨tables, published, resolve⟩ := kept.published
    refine ⟨tables, published.grow header file texts, ?_⟩
    obtain ⟨later, grown⟩ := file
    rw [grown]
    exact resolve.append later

theorem VectorsKept.change (kept : VectorsKept accepted handle)
    (change : Change ⟨false, false⟩ handle after) : VectorsKept accepted after where
  sound := kept.sound.change change
  aligned := kept.aligned.change rfl change
  held item member := (kept.held item member).change kept.sound kept.aligned rfl change
  known vector member := by
    obtain ⟨before, there, named⟩ := change.vectorRows rfl vector member
    exact named ▸ kept.known before there
  distinct := kept.distinct
  published := kept.publishedChange change

theorem VectorsKept.reached {start : ValiseFile} (kept : VectorsKept accepted start)
    (reached : Reached ⟨false, false⟩ start handle) : VectorsKept accepted handle := by
  induction reached with
  | refl => exact kept
  | tail _ change ih => exact ih.change change

/-- The new vector is the last row of its batch. -/
theorem VectorsKept.enter (kept : VectorsKept accepted handle) {ids : IdAllocator} {key : BatchKey}
    {batch : PendingVectorBatch} {desc : VectorDesc} (values : List F32)
    (found : handle.batch key = some batch)
    (took : handle.idAllocator.Took ids .vector desc.vectorId.toNat)
    (segment : desc.dataSegmentId = batch.segmentId)
    (ordinal : desc.ordinalInSegment = batch.vectors.length) :
    VectorsKept (accepted ++ [(desc.vectorId, values)])
      (handle.enterVector ids key batch desc values) := by
  have change : Change ⟨false, true⟩ handle (handle.enterVector ids key batch desc values) :=
    .vectorEntered _ rfl found took segment ordinal
  have aligned := kept.aligned key batch found
  have fresh := kept.sound.fresh took
  have placed : VectorPlaced (handle.enterVector ids key batch desc values) desc values := by
    refine .inr ⟨key, batch.entered desc values, (batch_setBatch _ _ _ _).trans (if_pos rfl),
      segment, ?_⟩
    rw [aligned.rows_entered, ordinal, ← aligned.length, List.getElem?_concat_length]
  refine ⟨kept.sound.change change, kept.aligned.change rfl change, fun item member => ?_,
    fun vector member => ?_, ?_, ?_⟩
  · rcases List.mem_append.mp member with old | new
    · exact (kept.held item old).change kept.sound kept.aligned rfl change
    · obtain rfl := List.mem_singleton.mp new
      exact ⟨desc, find_upsert_self _ _ _, placed⟩
  · rcases mem_upsert _ member with rfl | old
    · exact ⟨values, List.mem_append_right _ (List.mem_singleton_self _)⟩
    · obtain ⟨before, known⟩ := kept.known vector old
      exact ⟨before, List.mem_append_left _ known⟩
  · rw [List.map_append, List.nodup_append]
    refine ⟨kept.distinct, List.nodup_singleton _, ?_⟩
    rintro _ old _ new rfl
    obtain ⟨item, member, named⟩ := List.mem_map.mp old
    obtain ⟨vector, there, -⟩ := kept.held item member
    rw [named, List.mem_singleton.mp new] at there
    exact nomatch there.symm.trans fresh
  · obtain ⟨tables, published, resolve⟩ := kept.publishedChange change
    exact ⟨tables, published, resolve.mono fun item member => List.mem_append_left _ member⟩

end Kept

/-! ### Sessions -/

/-- A handle and the vectors that it accepted, as far as they were not lost with a handle. -/
structure VectorSession where
  handle : ValiseFile
  accepted : Vectors := []

namespace VectorSession

/-- A put that returns is one more vector accepted. -/
def afterPut (session : VectorSession) (values : List F32) :
    Result VectorId × ValiseFile → VectorSession
  | (.ok vectorId, handle) => ⟨handle, session.accepted ++ [(vectorId, values)]⟩
  | (_, handle) => { session with handle := handle }

def call (analyze : Analyze) (session : VectorSession) (faults : IoPoint → Bool) :
    Operation → VectorSession
  | .putVector input =>
      session.afterPut input.values (putVector input (session.handle.withFaults faults))
  | operation => { session with handle := operation.run analyze (session.handle.withFaults faults) }

/-- The vectors that the header did not commit to are gone. -/
def reopen (session : VectorSession) (state : OpenState) : VectorSession where
  handle := session.handle.reopen state
  accepted := session.accepted.filter fun item =>
    (find (CatalogTableKind.rowId .vector) item.1.toNat (state.tables .vector)).isSome

inductive Step (analyze : Analyze) (allowed : ValiseFile → Operation → Prop) :
    VectorSession → VectorSession → Prop where
  | called {session} (faults : IoPoint → Bool) {operation : Operation} : operation.CodecLoads →
      allowed (session.handle.withFaults faults) operation →
      Step analyze allowed session (session.call analyze faults operation)
  | reopened {session state} : session.handle.opened = .ok state →
      Step analyze allowed session (session.reopen state)

/-- A new file. -/
def Begins (session : VectorSession) : Prop := Fresh session.handle ∧ session.accepted = []

end VectorSession

/-- Whatever the codec encodes values to, in one width: the segment opens, and at the ordinal of the
row it has the identifier of the row and what the codec makes of the values. -/
def VectorReads (file : StoredFile) (registry : List SegmentCatalogEntry) (vector : VectorDesc)
    (values : List F32) : Prop :=
  ∃ items, file.segmentContent registry vector.dataSegmentId = some (.vectorData items) ∧
    ∀ space codec (encode : List F32 → Bytes) width,
      (∀ item ∈ items, (encode item.2).length = width) →
      ∃ reader, VectorDataSegmentReader.open (vectorDataPayload space codec
          (items.map fun item => (item.1, encode item.2))) width = .ok reader ∧
        reader.vectorId vector.ordinalInSegment = .ok vector.vectorId ∧
        reader.base vector.ordinalInSegment = .ok (encode values)

/-- What an open finds of the vectors is what was put: each row names an accepted vector, and reads
as the values of its put. -/
def VectorSession.Resolves (session : VectorSession) : Prop :=
  (session.accepted.map Prod.fst).Nodup ∧
    ∀ state, session.handle.opened = .ok state → ∀ vector ∈ state.tables .vector,
      vector.status = .active → ∃ values, (vector.vectorId, values) ∈ session.accepted ∧
        VectorReads session.handle.file (state.tables .segment) vector values

section Steps

variable {handle after : ValiseFile} {accepted : Vectors} {session : VectorSession}

theorem VectorsKept.withFaults (kept : VectorsKept accepted handle) (faults : IoPoint → Bool) :
    VectorsKept accepted (handle.withFaults faults) where
  sound := kept.sound.withFaults faults
  aligned := kept.aligned
  held := kept.held
  known := kept.known
  distinct := kept.distinct
  published := by
    obtain ⟨tables, published, resolve⟩ := kept.published
    exact ⟨tables, ⟨published.rooted, published.ids, published.registered, published.loads,
      published.texts⟩, resolve⟩

theorem VectorsKept.put (kept : VectorsKept accepted handle) {input : PutVector}
    {vectorId : VectorId} (put : VectorPut false handle input vectorId after) :
    VectorsKept (accepted ++ [(vectorId, input.values)]) after := by
  obtain ⟨earlier, ids, key, batch, desc, reached, found, took, rfl, segment, ordinal, -, later⟩ := put
  exact ((kept.reached reached).enter input.values found took segment ordinal).reached later

theorem VectorsKept.puts (kept : VectorsKept session.accepted session.handle)
    (faults : IoPoint → Bool) {input : PutVector}
    (encodes : (session.handle.withFaults faults).PutEncodes input) :
    VectorsKept (session.afterPut input.values
        (putVector input (session.handle.withFaults faults))).accepted
      (session.afterPut input.values
        (putVector input (session.handle.withFaults faults))).handle := by
  have before := kept.withFaults faults
  have meets := @putVector_puts (session.handle.withFaults faults) false input (.inr encodes)
  have stopped : ∀ handle, PutStopped false (session.handle.withFaults faults) handle →
      VectorsKept session.accepted handle := by
    rintro handle (aside | ⟨loses, -⟩)
    · exact before.reached aside
    · cases loses
  have met := meets _ rfl
  cases result : putVector input (session.handle.withFaults faults) with
  | mk outcome handle =>
      rw [result] at met
      cases outcome with
      | ok vectorId => exact before.put met
      | err error => exact stopped handle met
      | panic => exact stopped handle met

theorem VectorsKept.called {analyze : Analyze} (kept : VectorsKept session.accepted session.handle)
    (faults : IoPoint → Bool) {operation : Operation} (loads : operation.CodecLoads)
    (keeps : operation.KeepsVectors (session.handle.withFaults faults)) :
    VectorsKept (session.call analyze faults operation).accepted
      (session.call analyze faults operation).handle := by
  by_cases put : ∃ input, operation = .putVector input
  · obtain ⟨input, rfl⟩ := put
    exact kept.puts faults keeps
  · have before := kept.withFaults faults
    have reached := @Operation.changesAside analyze ⟨false, false⟩ _ before.sound operation loads
      (fun input same => put ⟨input, same⟩) (.inr keeps)
    have moved := before.reached reached
    cases operation with
    | putVector input => exact absurd ⟨input, rfl⟩ put
    | _ => exact moved

theorem VectorsKept.reopen (kept : VectorsKept session.accepted session.handle) {state : OpenState}
    (opened : session.handle.opened = .ok state) :
    VectorsKept (session.reopen state).accepted (session.reopen state).handle := by
  obtain ⟨tables, published, resolve⟩ := kept.published
  obtain rfl := (published.reopened opened).1
  have sound := published.reopenSound opened
  have unique : ∀ {vectorId first second}, (vectorId, first) ∈ session.accepted →
      (vectorId, second) ∈ session.accepted → first = second := by
    intro vectorId first second one other
    exact (Prod.mk.inj (List.inj_on_of_nodup_map kept.distinct one other rfl)).2
  have remains : ∀ {vector values}, vector ∈ state.tables .vector →
      (vector.vectorId, values) ∈ session.accepted →
      (vector.vectorId, values) ∈ (session.reopen state).accepted := by
    intro vector values member known
    have found := find_of_mem _ (sound.ascending .vector) member
    exact List.mem_filter.mpr ⟨known, Option.isSome_iff_exists.mpr ⟨vector, found⟩⟩
  have resolved : VectorsResolve session.handle.file state.tables (session.reopen state).accepted := by
    intro vector member
    obtain ⟨values, known, stored⟩ := resolve vector member
    exact ⟨values, remains member known, stored⟩
  refine ⟨sound, nofun, fun item member => ?_, fun vector member => ?_, ?_,
    state.tables, published.reopen opened, resolved⟩
  · obtain ⟨old, there⟩ := List.mem_filter.mp member
    obtain ⟨vector, found⟩ := Option.isSome_iff_exists.mp there
    obtain ⟨inside, named⟩ := find_some _ found
    obtain ⟨values, known, stored⟩ := resolve vector inside
    have same : vector.vectorId = item.1 := UInt64.toNat_inj.mp named
    rw [same] at known
    rw [unique known old] at stored
    exact ⟨vector, found, .inl stored⟩
  · obtain ⟨values, known, -⟩ := resolved vector member
    exact ⟨values, known⟩
  · exact kept.distinct.sublist (List.filter_sublist.map _)

theorem VectorSession.begins_kept (begins : session.Begins) :
    VectorsKept session.accepted session.handle := by
  obtain ⟨fresh, none⟩ := begins
  have sound := fresh_sound fresh
  have published := fresh_published fresh
  obtain ⟨contract, same⟩ := fresh
  rw [none]
  rw [same] at sound published ⊢
  exact ⟨sound, nofun, nofun, nofun, List.nodup_nil, _, published, nofun⟩

theorem VectorSession.reachable_kept {analyze : Analyze}
    (reached : Reachable Begins (Step analyze fun handle operation => operation.KeepsVectors handle)
      session) : VectorsKept session.accepted session.handle := by
  refine reached.invariant (fun _ => begins_kept) ?_
  rintro before _ kept (⟨faults, loads, keeps⟩ | opened)
  · exact kept.called faults loads keeps
  · exact kept.reopen opened

theorem VectorStored.reads {file : StoredFile} {registry : List SegmentCatalogEntry}
    {vector : VectorDesc} {values : List F32} (stored : VectorStored file registry vector values) :
    VectorReads file registry vector values := by
  obtain ⟨items, read, short, row⟩ := stored
  refine ⟨items, read, fun space codec encode width uniform => ?_⟩
  have mapped : (items.map fun item => (item.1, encode item.2))[vector.ordinalInSegment]? =
      some (vector.vectorId, encode values) := by
    rw [List.getElem?_map, row]
    rfl
  refine vectorDataReader_reads ?_ (by rwa [List.length_map]) mapped
  intro item member
  obtain ⟨before, there, rfl⟩ := List.mem_map.mp member
  exact uniform before there

/-- In every session whose puts encode the chunks they fill and whose commits flush every batch they
start on, an open finds every vector where its row says, with the values of its own put. -/
theorem reachable_resolves {analyze : Analyze}
    (reached : Reachable VectorSession.Begins
      (VectorSession.Step analyze fun handle operation => operation.KeepsVectors handle) session) :
    session.Resolves := by
  have kept := VectorSession.reachable_kept reached
  refine ⟨kept.distinct, fun state opened vector member _ => ?_⟩
  obtain ⟨tables, published, resolve⟩ := kept.published
  obtain rfl := (published.reopened opened).1
  obtain ⟨values, known, stored⟩ := resolve vector member
  exact ⟨values, known, stored.reads⟩

end Steps

/-! ### Sessions on fixed calls -/

def twoDims : CodecParams := .qamLloydMax {
  dimension := 2
  numPairs := 1
  blockSize := 2
  rotationSeed := 7
  ampBits := 4
  phaseBits := 4
  renormalizeAtDecode := false
  sigmaPerPair := [0x3f800000]
  calibrationId := ⟨List.replicate 32 1, ones_length⟩ }

/-- A file with a space of two dimensions and a frame. -/
def planeFile : VectorSession :=
  (((({ handle := {} } : VectorSession).call noTokens noFaults (.createCollectionAt "notes" 0)).call
    noTokens noFaults (.registerCodec twoDims)).call
    noTokens noFaults (.registerEmbeddingSpace
      ⟨"provider", "model", 2, .l2, false, .f32, some 1, none⟩)).call
    noTokens noFaults (.putFrame ⟨1, .document, [1], none, none, none, none, none, none⟩ 0)

def onePut (values : List F32) : VectorSession :=
  planeFile.call noTokens noFaults (.putVector ⟨1, 1, values⟩)

def onePutCommitted (values : List F32) : VectorSession :=
  (onePut values).call noTokens noFaults .commit

def onePoint : List F32 := [0x3f800000, 0x40000000]

theorem planeFile_reachable {allowed : ValiseFile → Operation → Prop}
    (others : ∀ handle operation, (∀ input, operation ≠ .putVector input) → operation ≠ .commit →
      allowed handle operation) :
    Reachable VectorSession.Begins (VectorSession.Step noTokens allowed) planeFile := by
  have created : (Operation.createCollectionAt "notes" 0).CodecLoads := trivial
  have codec : (Operation.registerCodec twoDims).CodecLoads := fun _ => by decide +kernel
  have space : (Operation.registerEmbeddingSpace
    ⟨"provider", "model", 2, .l2, false, .f32, some 1, none⟩).CodecLoads := trivial
  have frame : (Operation.putFrame ⟨1, .document, [1], none, none, none, none, none, none⟩
    0).CodecLoads := trivial
  exact .step (.step (.step (.step (.start ⟨⟨{}, rfl⟩, rfl⟩)
    (.called noFaults created (others _ _ (by rintro _ ⟨⟩) (by rintro ⟨⟩))))
    (.called noFaults codec (others _ _ (by rintro _ ⟨⟩) (by rintro ⟨⟩))))
    (.called noFaults space (others _ _ (by rintro _ ⟨⟩) (by rintro ⟨⟩))))
    (.called noFaults frame (others _ _ (by rintro _ ⟨⟩) (by rintro ⟨⟩)))

/-- Rows of vectors that an open finds active although no data segment has their identifier. -/
def strayRows (handle : ValiseFile) : List VectorId :=
  match handle.opened with
  | .ok state => (state.tables .vector).filterMap fun vector =>
      if vector.status = .active ∧
          (handle.file.segmentContent (state.tables .segment) vector.dataSegmentId).isNone then
        some vector.vectorId
      else none
  | _ => []

theorem strayRows_none (session : VectorSession) (resolves : session.Resolves) :
    strayRows session.handle = [] := by
  unfold strayRows
  split
  · rename_i state opened
    refine List.filterMap_eq_nil_iff.mpr fun vector member => if_neg ?_
    rintro ⟨active, none⟩
    obtain ⟨values, -, items, read, -⟩ := resolves.2 state opened vector member active
    rw [read] at none
    cases none
  · rfl

/-- A point that is not a number: its put returns, its commit fails, and so does the next one. -/
def notANumber : List F32 := [0x7fc00000, 0x3f800000]

/-- The second commit that fails has already written a header for the rows that lost their batch. -/
theorem resolves_fails : ∃ session, Reachable VectorSession.Begins
      (VectorSession.Step noTokens fun _ _ => True) session ∧ ¬session.Resolves := by
  have put : (Operation.putVector ⟨1, 1, notANumber⟩).CodecLoads := trivial
  have commit : Operation.commit.CodecLoads := trivial
  refine ⟨(onePutCommitted notANumber).call noTokens noFaults .commit,
    .step (.step (.step (planeFile_reachable fun _ _ _ _ => trivial)
      (.called noFaults put trivial)) (.called noFaults commit trivial))
      (.called noFaults commit trivial), fun resolves => ?_⟩
  have stray : strayRows ((onePutCommitted notANumber).call noTokens noFaults .commit).handle =
      [1] := by
    decide +kernel
  rw [strayRows_none _ resolves] at stray
  cases stray

theorem onePoint_reachable :
    Reachable VectorSession.Begins
      (VectorSession.Step noTokens fun handle operation => operation.KeepsVectors handle)
      (onePutCommitted onePoint) := by
  have put : (Operation.putVector ⟨1, 1, onePoint⟩).CodecLoads := trivial
  have commit : Operation.commit.CodecLoads := trivial
  have encodes : (planeFile.handle.withFaults noFaults).PutEncodes ⟨1, 1, onePoint⟩ := by
    intro space codecId params found width primary loaded rows row member
    have raw : (planeFile.handle.withFaults noFaults).rawRows (1, codecId) = [] := by
      have none : planeFile.handle.pendingVectorBatches = [] := by decide +kernel
      simp [ValiseFile.rawRows, ValiseFile.batch, ValiseFile.withFaults, none]
    simp only [rows, raw, List.nil_append, List.length_singleton] at member
    cases member
  have flush : ((onePut onePoint).handle.withFaults noFaults).BatchesFlush := by
    intro key batch found
    obtain ⟨entry, there, rfl⟩ := Option.map_eq_some_iff.mp found
    have member : entry.2 ∈ (onePut onePoint).handle.pendingVectorBatches.map Prod.snd :=
      List.mem_map_of_mem (find_some _ there).1
    have only : (onePut onePoint).handle.pendingVectorBatches.map Prod.snd =
        [⟨1, 1, 2, [⟨1, 1, 1, 1, 2, 0, .active⟩], [], [onePoint]⟩] := by
      decide +kernel
    have loaded : valueAt UInt32.toNat 1 (onePut onePoint).handle.codecCache = some twoDims := by
      decide +kernel
    rw [only, List.mem_singleton] at member
    rw [member]
    refine .inr ⟨by decide, .inr ⟨twoDims, loaded, fun row member => ?_⟩, ?_, rfl, rfl⟩
    · rw [List.mem_singleton.mp member]
      decide +kernel
    · decide +kernel
  have reached := @planeFile_reachable
    (fun handle operation => operation.KeepsVectors handle) ?_
  · exact .step (.step reached (.called noFaults put encodes))
      (.called noFaults commit (.inr (.inr (.inr flush))))
  · intro handle operation other notCommit
    cases operation with
    | putVector input => exact absurd rfl (other input)
    | commit => exact absurd rfl notCommit
    | _ => trivial

theorem onePoint_resolves :
    (onePutCommitted onePoint).Resolves ∧ (onePutCommitted onePoint).accepted = [(1, onePoint)] ∧
      ∃ state, (onePutCommitted onePoint).handle.opened = .ok state ∧
        (state.tables .vector).map VectorDesc.vectorId = [1] := by
  refine ⟨reachable_resolves onePoint_reachable, by decide +kernel, ?_⟩
  have opens : (match (onePutCommitted onePoint).handle.opened with
      | .ok state => some ((state.tables .vector).map VectorDesc.vectorId)
      | _ => none) = some [1] := by
    decide +kernel
  revert opens
  cases (onePutCommitted onePoint).handle.opened with
  | ok state => exact fun rows => ⟨state, rfl, Option.some.inj rows⟩
  | err error => nofun
  | panic => nofun

end Valise
