import Valise.PayloadChanges
import Valise.Reopening

/-!
A file in use: payloads are put, flushed, committed, read through the handle and through snapshots,
and the file is opened again.
-/

namespace Valise

open ByteLists Commands Command Outcomes Relation Runs SortedTables

/-! ### What tables and handles hold -/

abbrev Payloads := List (FrameId × Bytes)

/-- Each frame's row names the bytes of its payload. -/
structure TablesHold (layout : Layout) (file : StoredFile) (tables : Tables) (payloads : Payloads) :
    Prop where
  agrees : Agrees layout file (tables .segment)
  held : ∀ item ∈ payloads, ∃ frame,
    find (CatalogTableKind.rowId .frame) item.1.toNat (tables .frame) = some frame ∧
      frame.payloadEncoding = .raw ∧
      PayloadPlaced layout file (tables .segment) frame.payloadRef item.2

/-- The payloads of a handle, and those that its header commits to. -/
structure Keeping (layout : Layout) (accepted committed : Payloads) (handle : ValiseFile) : Prop where
  sound : handle.Sound
  agrees : Agrees layout handle.file (handle.tables .segment)
  accepted : ∀ item ∈ accepted, PayloadHeld layout handle item.1 item.2
  published : ∃ tables, Published handle tables ∧ TablesHold layout handle.file tables committed
  clean : handle.dirty = false → Published handle handle.tables

section Kept

variable {leave : Leave} {layout : Layout} {accepted committed : Payloads}
  {handle after : ValiseFile}

theorem PayloadStored.append {file : StoredFile} {registry : List SegmentCatalogEntry}
    {segmentId : SegmentId} {content : Bytes}
    (stored : PayloadStored layout file registry segmentId content) (later : StoredFile) :
    PayloadStored layout (file ++ later) registry segmentId content := by
  obtain ⟨entry, found, named, compression, read⟩ := stored
  exact ⟨entry, found, named, compression, readSegment_append later read⟩

theorem TablesHold.append {file : StoredFile} {tables : Tables}
    (hold : TablesHold layout file tables committed) (later : StoredFile) :
    TablesHold layout (file ++ later) tables committed where
  agrees := hold.agrees.append later
  held item member := by
    obtain ⟨frame, found, raw, named, content, refers, stored, inside, sliced⟩ := hold.held item member
    exact ⟨frame, found, raw, named, content, refers, stored.append later, inside, sliced⟩

theorem TablesHold.mono {file : StoredFile} {tables : Tables} {fewer : Payloads}
    (hold : TablesHold layout file tables committed) (among : ∀ item ∈ fewer, item ∈ committed) :
    TablesHold layout file tables fewer :=
  ⟨hold.agrees, fun item member => hold.held item (among item member)⟩

/-- With nothing waiting, the tables of the handle hold what it accepted. -/
theorem Keeping.tablesHold (keeping : Keeping layout accepted committed handle)
    (settled : handle.pendingPayloadFrames = []) :
    TablesHold layout handle.file handle.tables accepted where
  agrees := keeping.agrees
  held item member := by
    obtain ⟨⟨frame, found, raw, placed⟩, -⟩ := keeping.accepted item member
    refine ⟨frame, found, raw, placed ?_⟩
    rw [ValiseFile.pendingPayload, settled]
    rfl

/-- A handle that is clean stays so, or a commit made it clean. -/
theorem Keeping.cleanChange (keeping : Keeping layout accepted committed handle)
    (change : Change leave handle after) (flag : after.dirty = false) :
    Published after after.tables := by
  have publishes := change.publishes keeping.sound
  cases change with
  | segmentStored _ _ _ _ dirty | payloadsPlaced dirty | batchFlushed dirty
  | headerWritten dirty => exact nomatch dirty.symm.trans flag
  | rowEntered | textSpaceEntered | codecEntered | frameEntered | frameTombstoned | textIndexed
  | vectorEntered | vectorTombstoned => exact nomatch flag
  | published header waits roots =>
      have before := keeping.sound.published roots header
      exact before.grow rfl ⟨[], (List.append_nil _).symm⟩ fun textSpaceId =>
        ⟨[], by rw [(textOf_publish roots textSpaceId).1, List.append_nil]⟩
  | allocated | appended | codecCached | buffersCleared | textFlushed | cached | batchOpened
  | vectorsDrained | vectorsDropped | batchDropped =>
      rcases publishes with ⟨body, dirty, -⟩ | ⟨header, file, texts⟩
      · exact nomatch dirty.symm.trans flag
      · exact (keeping.clean flag).grow header file texts

theorem Keeping.change (keeping : Keeping layout accepted committed handle)
    (among : ∀ item ∈ committed, item ∈ accepted) (change : Change leave handle after) :
    Keeping layout accepted committed after where
  sound := keeping.sound.change change
  agrees := keeping.agrees.change keeping.sound change
  accepted item member := (keeping.accepted item member).change keeping.agrees keeping.sound change
  published := by
    rcases change.publishes keeping.sound with ⟨body, -, waits, roots, rfl⟩ | ⟨header, file, texts⟩
    · have rooted : ({ handle with published := body } : ValiseFile).RootsAll body :=
        ⟨roots.rooted, roots.ids, roots.texts⟩
      exact ⟨handle.tables, (keeping.sound.change change).published rooted rfl,
        (keeping.tablesHold waits.payloads).mono among⟩
    · obtain ⟨tables, published, hold⟩ := keeping.published
      refine ⟨tables, published.grow header file texts, ?_⟩
      obtain ⟨later, grown⟩ := file
      rw [grown]
      exact hold.append later
  clean := keeping.cleanChange change

theorem Keeping.reached {start : ValiseFile} (keeping : Keeping layout accepted committed start)
    (among : ∀ item ∈ committed, item ∈ accepted) (reached : Reached leave start handle) :
    Keeping layout accepted committed handle := by
  induction reached with
  | refl => exact keeping
  | tail _ change ih => exact ih.change among change

end Kept

/-! ### Sessions -/

/-- What a snapshot pins: the file as it was mapped, and the catalog of that moment. -/
structure Snapshot where
  file : StoredFile
  tables : Tables

/-- A handle, the payloads that it accepted, those that a commit covered, and the snapshots taken so
far with the payloads committed by then. -/
structure Session where
  handle : ValiseFile
  accepted : Payloads := []
  committed : Payloads := []
  snapshots : List (Snapshot × Payloads) := []

namespace Session

/-- A put that returns is one more payload accepted. -/
def afterPut (session : Session) (payload : Bytes) : Result FrameId × ValiseFile → Session
  | (.ok frameId, handle) => { session with
      handle := handle
      accepted := session.accepted ++ [(frameId, payload)] }
  | (_, handle) => { session with handle := handle }

/-- A commit that returns covers all that was accepted; one with changes publishes a snapshot. -/
def afterCommit (session : Session) : Result Bool × ValiseFile → Session
  | (.ok changed, handle) => { session with
      handle := handle
      committed := session.accepted
      snapshots := session.snapshots ++
        if changed then [(⟨handle.file, handle.tables⟩, session.accepted)] else [] }
  | (_, handle) => { session with handle := handle }

def call (analyze : Analyze) (session : Session) (faults : IoPoint → Bool) : Operation → Session
  | .putFrame input now =>
      session.afterPut input.payload (putFrame input now (session.handle.withFaults faults))
  | .commit => session.afterCommit (ValiseFile.commit (session.handle.withFaults faults))
  | operation => { session with handle := operation.run analyze (session.handle.withFaults faults) }

/-- What was not committed is gone. -/
def reopen (session : Session) (state : OpenState) : Session where
  handle := session.handle.reopen state
  accepted := session.committed
  committed := session.committed
  snapshots := session.snapshots ++ [(⟨session.handle.file, state.tables⟩, session.committed)]

/-- A file that a writer closed: all it holds is committed. -/
structure Begins (layout : Layout) (session : Session) : Prop where
  sound : session.handle.Sound
  settled : session.handle.pendingPayloadFrames = []
  published : Published session.handle session.handle.tables
  hold : TablesHold layout session.handle.file session.handle.tables session.accepted
  committed : session.committed = session.accepted
  snapshots : session.snapshots = []

/-- Calls in any order, whatever goes wrong in them, and opens of the file. -/
inductive Step (analyze : Analyze) : Session → Session → Prop where
  | called {session} (faults : IoPoint → Bool) {operation : Operation} : operation.CodecLoads →
      Step analyze session (session.call analyze faults operation)
  | reopened {session state} : session.handle.opened = .ok state →
      Step analyze session (session.reopen state)

/-- A new file. -/
theorem fresh_begins {layout : Layout} (packed : layout.plain = fun _ => false)
    {handle : ValiseFile} (fresh : Fresh handle) : Begins layout { handle := handle } := by
  have sound := fresh_sound fresh
  have published := fresh_published fresh
  obtain ⟨contract, rfl⟩ := fresh
  exact ⟨sound, rfl, published, ⟨⟨by simp [packed], by simp, by simp, by simp⟩, by simp⟩, rfl, rfl⟩

structure Invariant (layout : Layout) (session : Session) : Prop where
  keeping : Keeping layout session.accepted session.committed session.handle
  among : ∀ item ∈ session.committed, item ∈ session.accepted
  snapshots : ∀ taken ∈ session.snapshots,
    (∃ later, session.handle.file = taken.1.file ++ later) ∧
      TablesHold layout taken.1.file taken.1.tables taken.2

end Session

section Steps

variable {layout : Layout} {accepted committed : Payloads} {handle after : ValiseFile}

theorem Keeping.withFaults (keeping : Keeping layout accepted committed handle)
    (faults : IoPoint → Bool) : Keeping layout accepted committed (handle.withFaults faults) where
  sound := keeping.sound.withFaults faults
  agrees := keeping.agrees
  accepted item member := ⟨(keeping.accepted item member).frame, (keeping.accepted item member).waits⟩
  published := by
    obtain ⟨tables, published, hold⟩ := keeping.published
    exact ⟨tables, ⟨published.rooted, published.ids, published.registered, published.loads,
      published.texts⟩, hold⟩
  clean flag := ⟨(keeping.clean flag).rooted, (keeping.clean flag).ids,
    (keeping.clean flag).registered, (keeping.clean flag).loads, (keeping.clean flag).texts⟩

theorem Keeping.put (keeping : Keeping layout accepted committed handle)
    (among : ∀ item ∈ committed, item ∈ accepted) {leave : Leave} {input : PutFrame} {now : Int64}
    {frameId : FrameId} (put : FramePut leave handle input now frameId after) :
    Keeping layout (accepted ++ [(frameId, input.payload)]) committed after := by
  obtain ⟨earlier, ids, reached, took, busy⟩ := put
  have before := keeping.reached among reached
  have entered : Change leave earlier
      (earlier.enterFrame ids (input.frame frameId now) input.payload input.uri) :=
    .frameEntered _ _ took rfl rfl rfl
  have kept := before.change among entered
  have together : Keeping layout (accepted ++ [(frameId, input.payload)]) committed
      (earlier.enterFrame ids (input.frame frameId now) input.payload input.uri) := by
    refine ⟨kept.sound, kept.agrees, fun item member => ?_, kept.published, kept.clean⟩
    rcases List.mem_append.mp member with old | new
    · exact kept.accepted item old
    · obtain rfl := List.mem_singleton.mp new
      exact PayloadHeld.entered rfl
  exact together.reached (fun item member => List.mem_append_left _ (among item member)) busy.1

theorem Keeping.covered (keeping : Keeping layout accepted committed handle)
    (flag : handle.dirty = false) :
    Keeping layout accepted accepted handle ∧
      TablesHold layout handle.file handle.tables accepted := by
  have hold := keeping.tablesHold (keeping.sound.clean flag).settled.payloads
  exact ⟨⟨keeping.sound, keeping.agrees, keeping.accepted,
    ⟨handle.tables, keeping.clean flag, hold⟩, keeping.clean⟩, hold⟩

theorem TablesHold.payloadHeld {state : OpenState} {payloads : Payloads}
    (hold : TablesHold layout handle.file state.tables payloads) :
    ∀ item ∈ payloads, PayloadHeld layout (handle.reopen state) item.1 item.2 := by
  intro item member
  obtain ⟨frame, found, raw, placed⟩ := hold.held item member
  exact ⟨⟨frame, found, raw, fun _ => placed⟩, nofun⟩

theorem Keeping.reopen (keeping : Keeping layout accepted committed handle) {state : OpenState}
    (opened : handle.opened = .ok state) :
    Keeping layout committed committed (handle.reopen state) ∧
      TablesHold layout handle.file state.tables committed := by
  obtain ⟨tables, published, hold⟩ := keeping.published
  obtain rfl := (published.reopened opened).1
  exact ⟨⟨published.reopenSound opened, hold.agrees, hold.payloadHeld,
    ⟨state.tables, published.reopen opened, hold⟩, fun _ => published.reopen opened⟩, hold⟩

namespace Session.Invariant

variable {session : Session}

theorem begins (begins : Begins layout session) : Invariant layout session where
  keeping := by
    have hold := begins.hold
    refine ⟨begins.sound, hold.agrees, fun item member => ?_, ?_, fun _ => begins.published⟩
    · obtain ⟨frame, found, raw, placed⟩ := hold.held item member
      refine ⟨⟨frame, found, raw, fun _ => placed⟩, fun entry there => ?_⟩
      rw [ValiseFile.pendingPayload, begins.settled] at there
      cases there
    · exact ⟨_, begins.published, begins.committed ▸ hold⟩
  among := by
    rw [begins.committed]
    exact fun _ member => member
  snapshots := by
    rw [begins.snapshots]
    exact fun _ member => by cases member

/-- The snapshots stay what they were while the file grows. -/
theorem snapshotsGrow (invariant : Invariant layout session)
    (grown : ∃ later, after.file = session.handle.file ++ later) :
    ∀ taken ∈ session.snapshots, (∃ later, after.file = taken.1.file ++ later) ∧
      TablesHold layout taken.1.file taken.1.tables taken.2 := by
  intro taken member
  obtain ⟨⟨first, before⟩, hold⟩ := invariant.snapshots taken member
  obtain ⟨second, more⟩ := grown
  exact ⟨⟨first ++ second, by rw [more, before, List.append_assoc]⟩, hold⟩

/-- A call that neither puts nor commits, or one that failed. -/
theorem moved (invariant : Invariant layout session) (faults : IoPoint → Bool)
    (reached : Reached .any (session.handle.withFaults faults) after) :
    Invariant layout { session with handle := after } where
  keeping := (invariant.keeping.withFaults faults).reached invariant.among reached
  among := invariant.among
  snapshots := by
    have grown := reached.appends (invariant.keeping.withFaults faults).sound
    exact invariant.snapshotsGrow grown

theorem puts (invariant : Invariant layout session) (faults : IoPoint → Bool) (input : PutFrame)
    (now : Int64) : Invariant layout
      (session.afterPut input.payload (putFrame input now (session.handle.withFaults faults))) := by
  have keeping := invariant.keeping.withFaults faults
  have changes := @putFrame_changes .any (session.handle.withFaults faults) input now _ .refl
  have moved := invariant.moved faults changes
  have grown := changes.appends keeping.sound
  cases result : putFrame input now (session.handle.withFaults faults) with
  | mk outcome handle =>
      rw [result] at moved grown
      cases outcome with
      | ok frameId =>
          have put := (@putFrame_puts .any _ input now).ok .refl result
          exact ⟨keeping.put invariant.among put,
            fun item member => List.mem_append_left _ (invariant.among item member),
            invariant.snapshotsGrow grown⟩
      | err error => exact moved
      | panic => exact moved

theorem commits (invariant : Invariant layout session) (faults : IoPoint → Bool) :
    Invariant layout
      (session.afterCommit (ValiseFile.commit (session.handle.withFaults faults))) := by
  have keeping := invariant.keeping.withFaults faults
  have meets := @commit_commits .any _ keeping.sound (.inl rfl)
  have changes : Reached .any (session.handle.withFaults faults)
      (ValiseFile.commit (session.handle.withFaults faults)).2 :=
    (meets.weaken (fun _ same => same) (fun _ _ held => held.1) fun _ reached => reached).final rfl
  have moved := invariant.moved faults changes
  have grown := changes.appends keeping.sound
  cases result : ValiseFile.commit (session.handle.withFaults faults) with
  | mk outcome handle =>
      rw [result] at moved grown
      cases outcome with
      | ok changed =>
          obtain ⟨-, flag⟩ := meets.ok rfl result
          obtain ⟨covered, hold⟩ := moved.keeping.covered flag
          refine ⟨covered, fun _ member => member, fun taken member => ?_⟩
          rcases List.mem_append.mp member with old | new
          · exact invariant.snapshotsGrow grown taken old
          · cases changed with
            | false => exact nomatch new
            | true =>
                obtain rfl := List.mem_singleton.mp new
                exact ⟨⟨[], (List.append_nil _).symm⟩, hold⟩
      | err error => exact moved
      | panic => exact moved

theorem called {analyze : Analyze} (invariant : Invariant layout session) (faults : IoPoint → Bool)
    {operation : Operation} (loads : operation.CodecLoads) :
    Invariant layout (session.call analyze faults operation) := by
  have moved := invariant.moved faults
    (Operation.changes analyze (invariant.keeping.withFaults faults).sound loads)
  cases operation with
  | putFrame input now => exact invariant.puts faults input now
  | commit => exact invariant.commits faults
  | _ => exact moved

theorem reopened (invariant : Invariant layout session) {state : OpenState}
    (opened : session.handle.opened = .ok state) : Invariant layout (session.reopen state) := by
  obtain ⟨keeping, hold⟩ := invariant.keeping.reopen opened
  refine ⟨keeping, fun _ member => member, fun taken member => ?_⟩
  rcases List.mem_append.mp member with old | new
  · exact invariant.snapshots taken old
  · obtain rfl := List.mem_singleton.mp new
    exact ⟨⟨[], (List.append_nil _).symm⟩, hold⟩

end Session.Invariant

theorem Session.reachable_invariant {analyze : Analyze} {session : Session}
    (reached : Reachable (Begins layout) (Step analyze) session) : Invariant layout session := by
  refine reached.invariant (fun _ => Invariant.begins) ?_
  rintro before _ invariant (⟨faults, loads⟩ | opened)
  · exact invariant.called faults loads
  · exact invariant.reopened opened

end Steps

/-! ### Reads -/

section Reads

variable (layout : Layout) (decompress : Bytes → Option Bytes) (mapped : Nat)

/-- A payload that waits is sliced out of the buffer without touching the file. -/
def ValiseFile.readPayloadBytes (handle : ValiseFile) (frameId : FrameId) : Reader Bytes :=
  match handle.pendingPayload frameId with
  | some entry => return slice handle.pendingPayloadBuf entry.bytesOffset entry.bytesLength
  | none =>
      (layout.openFile handle.file handle.tables mapped).readPayload layout.blake3 decompress frameId

def Snapshot.readPayload (snapshot : Snapshot) (frameId : FrameId) : Reader Bytes :=
  (layout.openFile snapshot.file snapshot.tables mapped).snapshotReadPayload layout.blake3 decompress
    frameId

end Reads

section Served

variable {layout : Layout} {decompress : Bytes → Option Bytes}
  (roundTrip : ∀ content, decompress (layout.compress content) = some content)

include roundTrip

theorem PayloadPlaced.served {file : StoredFile} {tables : Tables} {frameId : FrameId}
    {frame : FrameDesc} {payload : Bytes} (fits : layout.Fits file)
    (found : find (CatalogTableKind.rowId .frame) frameId.toNat (tables .frame) = some frame)
    (raw : frame.payloadEncoding = .raw)
    (placed : PayloadPlaced layout file (tables .segment) frame.payloadRef payload) (mapped : Nat)
    (verified : List SegmentId) :
    (∃ after, (layout.openFile file tables mapped).readPayload layout.blake3 decompress frameId
        verified = (.ok payload, after)) ∧
      (fileLen (layout.image file) ≤ mapped →
        ∃ after, (layout.openFile file tables mapped).snapshotReadPayload layout.blake3 decompress
          frameId verified = (.ok payload, after)) := by
  obtain ⟨ref, content, refers, stored, inside, rfl⟩ := placed
  obtain ⟨entry, registered, holds⟩ := stored.holds fits
  have framed : (layout.openFile file tables mapped).frame? frameId =
      some ⟨frame.frameId, frame.payloadEncoding, frame.payloadRef, none⟩ := by
    rw [openFile_frame?, found]
    rfl
  have located : (layout.openFile file tables mapped).segment? ref.segmentId =
      some (layout.registered file entry) := by
    rw [openFile_segment?, registered]
    rfl
  refine ⟨readPayload_serves inside framed raw refers located holds (roundTrip content) verified,
    fun whole => ?_⟩
  refine snapshotReadPayload_serves inside framed raw refers located holds (roundTrip content) ?_
    verified
  have map : (layout.openFile file tables mapped).map = layout.image file := by
    refine List.take_of_length_le ?_
    change (layout.image file).length ≤ mapped - headerSize
    unfold fileLen at whole
    omega
  rw [OpenFile.Covers, map]
  exact holds.inside

theorem PayloadHeld.served {handle : ValiseFile} {frameId : FrameId} {payload : Bytes}
    (held : PayloadHeld layout handle frameId payload) (fits : layout.Fits handle.file)
    (mapped : Nat) (verified : List SegmentId) :
    ∃ after, handle.readPayloadBytes layout decompress mapped frameId verified =
      (.ok payload, after) := by
  obtain ⟨⟨frame, found, raw, placed⟩, waits⟩ := held
  unfold ValiseFile.readPayloadBytes
  cases pending : handle.pendingPayload frameId with
  | none => exact (PayloadPlaced.served roundTrip fits found raw (placed pending) mapped verified).1
  | some entry =>
      obtain ⟨-, sliced⟩ := waits entry pending
      exact ⟨verified, by rw [← sliced]; rfl⟩

theorem TablesHold.served {file : StoredFile} {tables : Tables} {payloads : Payloads}
    (hold : TablesHold layout file tables payloads) (fits : layout.Fits file)
    {item : FrameId × Bytes} (member : item ∈ payloads) {mapped : Nat}
    (whole : fileLen (layout.image file) ≤ mapped) (verified : List SegmentId) :
    ∃ after, Snapshot.readPayload layout decompress mapped ⟨file, tables⟩ item.1 verified =
      (.ok item.2, after) := by
  obtain ⟨frame, found, raw, placed⟩ := hold.held item member
  exact (PayloadPlaced.served roundTrip fits found raw placed mapped verified).2 whole

end Served

/-- What was written before fits when all of it does. -/
theorem Layout.Fits.earlier {layout : Layout} {file later : StoredFile}
    (fits : layout.Fits (file ++ later)) : layout.Fits file where
  whole := by
    have whole := fits.whole
    rw [image_append] at whole
    unfold fileLen at whole ⊢
    rw [List.length_append] at whole
    omega
  contents stored member := fits.contents stored (List.mem_append_left _ member)

/-- In every session, however much of the file is mapped and whatever has been verified: the handle
reads each accepted payload, each snapshot reads the payloads committed by then, and the file opens
again. -/
theorem payloads_kept {analyze : Analyze} {layout : Layout} {decompress : Bytes → Option Bytes}
    (roundTrip : ∀ content, decompress (layout.compress content) = some content) {session : Session}
    (reached : Reachable (Session.Begins layout) (Session.Step analyze) session)
    (fits : layout.Fits session.handle.file) :
    (∀ item ∈ session.accepted, ∀ mapped verified, ∃ after,
      session.handle.readPayloadBytes layout decompress mapped item.1 verified =
        (.ok item.2, after)) ∧
    (∀ taken ∈ session.snapshots, ∀ item ∈ taken.2, ∀ mapped verified,
      fileLen (layout.image taken.1.file) ≤ mapped → ∃ after,
        taken.1.readPayload layout decompress mapped item.1 verified = (.ok item.2, after)) ∧
    ∃ state, session.handle.opened = .ok state := by
  have invariant := Session.reachable_invariant reached
  refine ⟨fun item member mapped verified => ?_, fun taken member item inside mapped verified whole => ?_,
    ?_⟩
  · exact (invariant.keeping.accepted item member).served roundTrip fits mapped verified
  · obtain ⟨⟨later, grown⟩, hold⟩ := invariant.snapshots taken member
    rw [grown] at fits
    exact hold.served roundTrip fits.earlier inside whole verified
  · obtain ⟨tables, published, -⟩ := invariant.keeping.published
    obtain ⟨state, opened, -⟩ := opens_rooted published.rooted published.ids published.loads
    exact ⟨state, opened⟩

/-! ### A session on fixed calls -/

/-- Payloads pass through the codec as they are, and a hash knows the length only. -/
def plainLayout : Layout where
  blake3 bytes := ⟨List.replicate 32 (UInt8.ofNat (bytes.length + 1)), by simp [blake3Len]⟩
  compress := id
  gap _ := []
  plain _ := false
  itemCount _ := 1
  encode _ := (.extension, [])

def putBytes (payload : Bytes) : Operation :=
  .putFrame ⟨1, .document, payload, none, none, none, none, none, none⟩ 0

/-- One payload is committed, and another one waits. -/
def twoPayloads : Session :=
  ((((({ handle := {} } : Session).call noTokens noFaults (.createCollectionAt "notes" 0)).call
    noTokens noFaults (putBytes [1, 2, 3])).call noTokens noFaults .commit).call
    noTokens noFaults (putBytes [4, 5]))

theorem twoPayloads_reachable :
    Reachable (Session.Begins plainLayout) (Session.Step noTokens) twoPayloads := by
  have put : ∀ payload, (putBytes payload).CodecLoads := fun _ => trivial
  have created : (Operation.createCollectionAt "notes" 0).CodecLoads := trivial
  have commit : Operation.commit.CodecLoads := trivial
  exact .step (.step (.step (.step (.start (Session.fresh_begins rfl ⟨{}, rfl⟩))
    (.called noFaults created)) (.called noFaults (put _))) (.called noFaults commit))
    (.called noFaults (put _))

theorem twoPayloads_kept :
    (∃ after, twoPayloads.handle.readPayloadBytes plainLayout some 0 1 [] = (.ok [1, 2, 3], after)) ∧
    (∃ after, twoPayloads.handle.readPayloadBytes plainLayout some 0 2 [] = (.ok [4, 5], after)) ∧
    twoPayloads.snapshots.map Prod.snd = [[(1, [1, 2, 3])]] ∧
    (∀ taken ∈ twoPayloads.snapshots, ∃ after, taken.1.readPayload plainLayout some
      (fileLen (plainLayout.image taken.1.file)) 1 [] = (.ok [1, 2, 3], after)) ∧
    ∃ state, twoPayloads.handle.opened = .ok state := by
  have fits : plainLayout.Fits twoPayloads.handle.file := ⟨by decide +kernel, by decide +kernel⟩
  obtain ⟨held, snapshots, opens⟩ := @payloads_kept noTokens plainLayout some (fun _ => rfl)
    twoPayloads twoPayloads_reachable fits
  have taken : twoPayloads.snapshots.map Prod.snd = [[(1, [1, 2, 3])]] := by decide +kernel
  refine ⟨held (1, [1, 2, 3]) (by decide +kernel) 0 [], held (2, [4, 5]) (by decide +kernel) 0 [],
    taken, fun snapshot member => ?_, opens⟩
  have covered : snapshot.2 ∈ twoPayloads.snapshots.map Prod.snd := List.mem_map_of_mem member
  rw [taken] at covered
  exact snapshots snapshot member (1, [1, 2, 3]) (by rw [List.mem_singleton.mp covered]; simp) _ _
    (Nat.le_refl _)

end Valise
