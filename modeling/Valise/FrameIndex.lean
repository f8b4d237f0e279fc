import Valise.FrameDates
import Valise.Library.SearchedTable
import Valise.Reopening

/-!
The frames of a handle and their slim index, both searched by frame id, and the count of the
tombstones. They say the same of every frame, whatever was called and wherever the file was opened.
-/

namespace Valise

open ByteLists Commands Command DeltaTables Outcomes SearchedTables SortedTables

structure FrameIndex where
  frames : List FrameDesc
  frameStubs : List FrameStub
  tombstonedFrameCount : Nat

def FrameDesc.id (frame : FrameDesc) : Nat := frame.frameId.toNat

def FrameStub.id (stub : FrameStub) : Nat := stub.frameId.toNat

theorem FrameDesc.stub_id (frame : FrameDesc) : frame.stub.id = frame.id := rfl

theorem FrameDesc.dated_id (frame : FrameDesc) : frame.dated.id = frame.id := rfl

def countTombstoned (stubs : List FrameStub) : Nat := stubs.countP (·.status = .tombstoned)

namespace FrameIndex

def upsertFrame (index : FrameIndex) (item : FrameDesc) : FrameIndex :=
  { index with
    frames := upsertByKey FrameDesc.id item index.frames
    frameStubs := upsertByKey FrameStub.id item.stub index.frameStubs }

def strikeFrame (index : FrameIndex) (frameId : FrameId) (updatedAt : Int64) : FrameIndex :=
  { index with
    frames := modifyByKey FrameDesc.id
      (fun frame => { frame with status := .tombstoned, role := .tombstone, updatedAt })
      frameId.toNat index.frames }

/-- The tombstone is mirrored into the slim index, and counted where it is new. -/
def strikeStub (index : FrameIndex) (frameId : FrameId) : FrameIndex :=
  match findByKey FrameStub.id frameId.toNat index.frameStubs with
  | none => index
  | some stub =>
      { index with
        frameStubs := modifyByKey FrameStub.id (fun stub => { stub with status := .tombstoned })
          frameId.toNat index.frameStubs
        tombstonedFrameCount := if stub.status ≠ .tombstoned then index.tombstonedFrameCount + 1
          else index.tombstonedFrameCount }

def frameActive (index : FrameIndex) (frameId : FrameId) : Bool :=
  match findByKey FrameDesc.id frameId.toNat index.frames with
  | some frame => frame.status = .active
  | none => false

def deleteFrame (index : FrameIndex) (frameId : FrameId) (updatedAt : Int64) : FrameIndex :=
  if index.frameActive frameId then (index.strikeFrame frameId updatedAt).strikeStub frameId else index

/-- What an open makes of the frames that it found. -/
def load (frames : List FrameDesc) : FrameIndex where
  frames
  frameStubs := frames.map FrameDesc.stub
  tombstonedFrameCount := countTombstoned (frames.map FrameDesc.stub)

/-- The rows of the dirty frames, for the next delta. -/
def dirtyFrames (index : FrameIndex) (dirty : Finset Nat) : List FrameDesc :=
  rowsByKey FrameDesc.id index.frames dirty

/-- Both parts are strictly sorted and tell of the same frames, and the tombstones are counted. -/
structure Paired (index : FrameIndex) : Prop where
  frames : Ascending FrameDesc.id index.frames
  stubs : Ascending FrameStub.id index.frameStubs
  alike : index.frameStubs = index.frames.map FrameDesc.stub
  counted : index.tombstonedFrameCount = countTombstoned index.frameStubs

theorem load_paired {frames : List FrameDesc} (ascending : Ascending FrameDesc.id frames) :
    (load frames).Paired where
  frames := ascending
  stubs := (ascending_map FrameDesc.id FrameDesc.stub_id).mpr ascending
  alike := rfl
  counted := rfl

variable {index : FrameIndex} {frameId : FrameId}

theorem Paired.dirtyFrames (paired : index.Paired) (dirty : Finset Nat) :
    index.dirtyFrames dirty = index.frames.filter fun frame => frame.id ∈ dirty :=
  rowsByKey_eq FrameDesc.id paired.frames dirty

theorem Paired.findStub (paired : index.Paired) :
    findByKey FrameStub.id frameId.toNat index.frameStubs =
      (findByKey FrameDesc.id frameId.toNat index.frames).map FrameDesc.stub := by
  rw [findByKey_eq _ paired.stubs, findByKey_eq _ paired.frames, paired.alike]
  exact find_map FrameDesc.id FrameDesc.stub_id frameId.toNat index.frames

/-- An upsert that does not change whether the frame is tombstoned keeps the pair. -/
theorem Paired.upsertFrame (paired : index.Paired) {item : FrameDesc}
    (fresh : ∀ frame ∈ index.frames, frame.id ≠ item.id) (active : item.status = .active) :
    (index.upsertFrame item).Paired := by
  have frames := upsertByKey_eq FrameDesc.id paired.frames item
  have stubs := upsertByKey_eq FrameStub.id paired.stubs item.stub
  constructor
  · rw [FrameIndex.upsertFrame, frames]
    exact upsert_ascending _ paired.frames item
  · rw [FrameIndex.upsertFrame, stubs]
    exact upsert_ascending _ paired.stubs item.stub
  · rw [FrameIndex.upsertFrame, frames, stubs, paired.alike]
    exact (map_upsert FrameDesc.id FrameDesc.stub_id item index.frames).symm
  · simp only [FrameIndex.upsertFrame, stubs, paired.counted, countTombstoned]
    have entered := @upsert_perm _ _ _ FrameStub.id item.stub index.frameStubs ?_
    · rw [entered.countP_eq, List.countP_cons_of_neg]
      simp [FrameDesc.stub, active]
    · rw [paired.alike]
      intro stub member
      obtain ⟨frame, listed, rfl⟩ := List.mem_map.mp member
      exact fresh frame listed

theorem Paired.strike (paired : index.Paired) {frame : FrameDesc} (updatedAt : Int64)
    (found : findByKey FrameDesc.id frameId.toNat index.frames = some frame)
    (active : frame.status = .active) :
    (index.strikeFrame frameId updatedAt).strikeStub frameId = {
      frames := index.frames.map fun frame => if frame.id = frameId.toNat then
        { frame with status := .tombstoned, role := .tombstone, updatedAt } else frame
      frameStubs := index.frameStubs.map fun stub => if stub.id = frameId.toNat then
        { stub with status := .tombstoned } else stub
      tombstonedFrameCount := index.tombstonedFrameCount + 1 } := by
  have stub : findByKey FrameStub.id frameId.toNat (index.strikeFrame frameId updatedAt).frameStubs =
      some frame.stub := by
    rw [strikeFrame, paired.findStub, found, Option.map_some]
  rw [strikeStub, stub]
  simp only [strikeFrame, modifyByKey_eq _ paired.frames, modifyByKey_eq _ paired.stubs,
    FrameDesc.stub, active]
  rfl

/-- The tombstones and their count stay together. -/
theorem Paired.deleteFrame (paired : index.Paired) (frameId : FrameId) (updatedAt : Int64) :
    (index.deleteFrame frameId updatedAt).Paired := by
  unfold FrameIndex.deleteFrame
  split
  · rename_i active
    unfold frameActive at active
    split at active
    · rename_i frame found
      rw [paired.strike updatedAt found (of_decide_eq_true active)]
      have listed := findByKey_eq FrameDesc.id paired.frames frameId.toNat
      rw [found] at listed
      obtain ⟨member, named⟩ := find_some _ listed.symm
      constructor
      · refine (ascending_map FrameDesc.id ?_).mpr paired.frames
        intro frame
        split <;> rfl
      · refine (ascending_map FrameStub.id ?_).mpr paired.stubs
        intro stub
        split <;> rfl
      · rw [paired.alike, List.map_map, List.map_map]
        refine List.map_congr_left fun other _ => ?_
        by_cases here : other.id = frameId.toNat
        · simp only [Function.comp_apply, FrameDesc.stub_id, here, if_true]
          rfl
        · simp only [Function.comp_apply, FrameDesc.stub_id, here, if_false]
      · have counted := @countP_change _ _ _ FrameStub.id index.frameStubs paired.stubs
          (fun stub => stub.status = .tombstoned) (fun stub => { stub with status := .tombstoned })
          frame.stub (paired.alike ▸ List.mem_map_of_mem member)
          (by simp [FrameDesc.stub, of_decide_eq_true active]) (by simp)
        rw [FrameDesc.stub_id, named] at counted
        simp only [countTombstoned, counted, paired.counted]
    · cases active
  · exact paired

end FrameIndex

/-! ### Runs -/

/-- A handle with the count that it keeps beside its catalog. -/
structure CountedFile where
  handle : ValiseFile
  tombstonedFrameCount : Nat := 0

namespace CountedFile

def index (file : CountedFile) : FrameIndex where
  frames := file.handle.tables .frame
  frameStubs := file.handle.frameStubs
  tombstonedFrameCount := file.tombstonedFrameCount

/-- Only a deletion that goes through counts. -/
def countAfter (file : CountedFile) : Operation → Nat
  | .deleteFrame frameId now =>
      match (Valise.deleteFrame frameId now file.handle).1 with
      | .ok () => (file.index.deleteFrame frameId now).tombstonedFrameCount
      | _ => file.tombstonedFrameCount
  | _ => file.tombstonedFrameCount

def run (analyze : Analyze) (file : CountedFile) (operation : Operation) : CountedFile where
  handle := operation.run analyze file.handle
  tombstonedFrameCount := file.countAfter operation

def withFaults (file : CountedFile) (faults : IoPoint → Bool) : CountedFile :=
  { file with handle := file.handle.withFaults faults }

/-- An open counts the tombstones that it finds. -/
def reopen (file : CountedFile) (state : OpenState) : CountedFile where
  handle := file.handle.reopen state
  tombstonedFrameCount := countTombstoned state.frameStubs

def Starts (file : CountedFile) : Prop := Fresh file.handle ∧ file.tombstonedFrameCount = 0

/-- Any calls, whatever goes wrong in them, and opens at whatever footer. -/
inductive Step (analyze : Analyze) : CountedFile → CountedFile → Prop where
  | called {file : CountedFile} (faults : IoPoint → Bool) (operation : Operation) :
      Step analyze file ((file.withFaults faults).run analyze operation)
  | opened {file : CountedFile} {storedFile : StoredFile} {textFiles : TextSpaceId → TextFile}
      {body : FooterBody} {state : OpenState} : loadOpenState storedFile textFiles body = .ok state →
      Step analyze file (file.reopen state)

/-- The pair holds, and the ids of its frames have been given out. -/
structure Kept (file : CountedFile) : Prop where
  paired : file.index.Paired
  below : ∀ frame ∈ file.handle.tables .frame, frame.id < file.handle.idAllocator.counter .frame

variable {file : CountedFile} {count : Nat}

/-- The pair can be told from what the time index and the scorers see of the frames. -/
theorem kept_iff (handle : ValiseFile) :
    (⟨handle, count⟩ : CountedFile).Kept ↔ OfFrames (fun (dates, stubs, next) =>
      InIdOrder dates next ∧ stubs = dates.map (fun dated => ⟨dated.1.frameId, dated.2⟩) ∧
        count = countTombstoned stubs) handle := by
  have stubs : handle.dates.map (fun dated => (⟨dated.1.frameId, dated.2⟩ : FrameStub)) =
      (handle.tables .frame).map FrameDesc.stub := List.map_map
  have order : Ascending DatedFrame.id handle.dates ↔
      Ascending FrameDesc.id (handle.tables .frame) :=
    ascending_map FrameDesc.id FrameDesc.dated_id
  constructor
  · intro kept
    refine ⟨⟨order.mpr kept.paired.frames, fun dated member => ?_⟩,
      kept.paired.alike.trans stubs.symm, kept.paired.counted⟩
    obtain ⟨frame, listed, rfl⟩ := List.mem_map.mp member
    exact kept.below frame listed
  · rintro ⟨⟨ascending, below⟩, alike, counted⟩
    have frames := order.mp ascending
    have alike := alike.trans stubs
    refine ⟨⟨frames, ?_, alike, counted⟩, fun frame member => ?_⟩
    · rw [index, alike]
      exact (ascending_map FrameDesc.id FrameDesc.stub_id).mpr frames
    · exact below frame.dated (List.mem_map_of_mem member)

theorem kept_overlooks : Overlooks (· = .frame) fun handle => (⟨handle, count⟩ : CountedFile).Kept := by
  simp only [kept_iff]
  exact ofFrames_overlooks

theorem Starts.kept (starts : file.Starts) : file.Kept := by
  obtain ⟨⟨contract, fresh⟩, none⟩ := starts
  have frames : file.index = FrameIndex.load [] := by
    rw [index, fresh, none]
    rfl
  constructor
  · rw [frames]
    exact FrameIndex.load_paired List.Pairwise.nil
  · rw [fresh]
    exact fun frame member => absurd member List.not_mem_nil

/-- The scans of the engine find and write what the searches of the index do. -/
theorem Kept.findFrame (kept : file.Kept) (frameId : FrameId) :
    findByKey FrameDesc.id frameId.toNat file.index.frames = file.handle.findFrame frameId :=
  findByKey_eq FrameDesc.id kept.paired.frames frameId.toNat

theorem Kept.upsertFrame (kept : file.Kept) (frame : FrameDesc) :
    file.index.upsertFrame frame =
      (⟨file.handle.upsertFrame frame, file.tombstonedFrameCount⟩ : CountedFile).index := by
  have frames := upsertByKey_eq FrameDesc.id kept.paired.frames frame
  have stubs := upsertByKey_eq FrameStub.id kept.paired.stubs frame.stub
  rw [FrameIndex.upsertFrame, frames, stubs]
  rfl

theorem Kept.deleteFrame (kept : file.Kept) {frameId : FrameId} {frame : FrameDesc} (now : Int64)
    (found : file.handle.findFrame frameId = some frame) (active : frame.status = .active) :
    file.index.deleteFrame frameId now =
      (⟨file.handle.tombstoneFrame frame now, file.tombstonedFrameCount + 1⟩ : CountedFile).index := by
  have searched := (kept.findFrame frameId).trans found
  have named : frame.frameId.toNat = frameId.toNat := (find_some _ found).2
  have live : file.index.frameActive frameId = true := by
    rw [FrameIndex.frameActive, searched]
    exact decide_eq_true active
  have stub : find FrameStub.id frameId.toNat file.index.frameStubs = some frame.stub := by
    rw [← findByKey_eq _ kept.paired.stubs, kept.paired.findStub, searched, Option.map_some]
  rw [FrameIndex.deleteFrame, if_pos live, kept.paired.strike now searched active]
  have frames := @upsert_change _ _ _ FrameDesc.id _ _ kept.paired.frames
    (fun frame => { frame with status := .tombstoned, role := .tombstone, updatedAt := now }) frame
    found named
  have stubs := @upsert_change _ _ _ FrameStub.id _ _ kept.paired.stubs
    (fun stub => { stub with status := .tombstoned }) frame.stub stub named
  rw [← frames, ← stubs]
  rfl

/-- A put enters an active frame under an id that was not given out before. -/
theorem Kept.enterFrame {handle : ValiseFile} (kept : (⟨handle, count⟩ : CountedFile).Kept)
    {ids : IdAllocator} {frame : FrameDesc} (active : frame.status = .active)
    (took : handle.idAllocator.Took ids .frame frame.frameId.toNat) (payload : Bytes)
    (uri : Option Bytes) : (⟨handle.enterFrame ids frame payload uri, count⟩ : CountedFile).Kept := by
  have fresh : ∀ old ∈ handle.tables .frame, old.id < frame.id := fun old member =>
    (kept.below old member).trans_eq took.was
  have entered : (⟨handle.enterFrame ids frame payload uri, count⟩ : CountedFile).index =
      (⟨handle.upsertFrame frame, count⟩ : CountedFile).index := by
    cases uri <;> rfl
  have paired := kept.paired.upsertFrame (fun old member => (fresh old member).ne) active
  rw [kept.upsertFrame frame, ← entered] at paired
  refine ⟨paired, fun other member => ?_⟩
  have next : (handle.enterFrame ids frame payload uri).idAllocator.counter .frame = frame.id + 1 := by
    refine Eq.trans ?_ took.next
    cases uri <;> rfl
  have table : (handle.enterFrame ids frame payload uri).tables .frame =
      upsert FrameDesc.id frame (handle.tables .frame) := congrArg FrameIndex.frames entered
  rw [next]
  rw [table] at member
  rcases mem_upsert FrameDesc.id member with rfl | old
  · exact Nat.lt_succ_self _
  · exact (fresh other old).trans (Nat.lt_succ_self _)

theorem Kept.putFrame (kept : file.Kept) (input : PutFrame) (now : Int64) :
    (⟨(Valise.putFrame input now file.handle).2, file.tombstonedFrameCount⟩ : CountedFile).Kept := by
  have entered := @putFrame_enters (fun handle => (⟨handle, file.tombstonedFrameCount⟩ : CountedFile).Kept)
    (fun handle => (⟨handle, file.tombstonedFrameCount⟩ : CountedFile).Kept) input now kept_overlooks ?_
  · exact (entered.weaken (fun _ holds => holds) (fun _ _ holds => holds) fun _ either => either.elim id id).final
      kept
  · intro handle ids took holds frameId named
    rw [← named] at took
    exact holds.enterFrame rfl took input.payload input.uri

/-- A deletion that goes through strikes out one frame and counts it. -/
theorem Kept.strike (kept : file.Kept) (analyze : Analyze) (frameId : FrameId) (now : Int64) :
    (file.run analyze (.deleteFrame frameId now)).Kept := by
  have struck := @deleteFrame_strikes (· = file.handle)
    (fun handle => (⟨handle, (file.index.deleteFrame frameId now).tombstonedFrameCount⟩ :
      CountedFile).Kept) frameId now ?_
  · have met := struck file.handle rfl
    simp only [CountedFile.run, countAfter, Operation.run, ValiseFile.ran]
    generalize Valise.deleteFrame frameId now file.handle = done at met
    obtain ⟨result, after⟩ := done
    cases result with
    | ok value => exact met
    | err error => exact (show after = file.handle from met) ▸ kept
    | panic => exact (show after = file.handle from met) ▸ kept
  · rintro handle frame rfl found active
    have deleted := kept.deleteFrame now found active
    have paired := kept.paired.deleteFrame frameId now
    rw [deleted] at paired ⊢
    refine ⟨paired, fun other member => ?_⟩
    rcases mem_upsert FrameDesc.id member with rfl | old
    · exact kept.below frame (find_some _ found).1
    · exact kept.below other old

theorem Kept.run (kept : file.Kept) (analyze : Analyze) (operation : Operation) :
    (file.run analyze operation).Kept := by
  by_cases touches : operation.EntersOrStrikes
  · cases operation with
    | putFrame input now => exact kept.putFrame input now
    | deleteFrame frameId now => exact kept.strike analyze frameId now
    | _ => exact touches.elim
  · have counted : file.countAfter operation = file.tombstonedFrameCount := by
      cases operation with
      | deleteFrame frameId now => exact absurd trivial touches
      | _ => rfl
    rw [CountedFile.run, counted, kept_iff]
    exact Operation.run_ofFrames analyze touches ((kept_iff file.handle).mp kept)

/-- The deltas of the frames are folded into a sorted table. -/
theorem readTables_frames {storedFile : StoredFile} {body : FooterBody} {tables : Tables}
    (read : readTables storedFile body = .ok tables) : Ascending FrameDesc.id (tables .frame) := by
  simp only [readTables, Outcome.bind_eq_ok, Outcome.pure_eq, Outcome.ok.injEq] at read
  obtain ⟨_, -, frames, found, _, -, _, -, _, -, _, -, _, -, _, -, _, -, _, -, _, -, rfl⟩ := read
  unfold readTable at found
  split at found
  · cases found
  · obtain rfl := Outcome.ok.inj found
    exact replayNewestFirst_ascending _

/-- An open reads the frames in the order of their ids, and gives out none of these again. -/
theorem reopen_kept {storedFile : StoredFile} {textFiles : TextSpaceId → TextFile}
    {body : FooterBody} {state : OpenState} (opened : loadOpenState storedFile textFiles body = .ok state)
    (file : CountedFile) : (file.reopen state).Kept := by
  obtain ⟨_, behind⟩ := observeCatalogIds_counts (loadOpenState_ok opened).ids
  have read := opened
  simp only [loadOpenState, Outcome.bind_eq_ok, Outcome.pure_eq, Outcome.ok.injEq] at read
  obtain ⟨tables, found, _, -, _, -, _, -, _, -, _, -, _, -, rfl⟩ := read
  refine ⟨FrameIndex.load_paired (readTables_frames found), fun frame member => ?_⟩
  exact (behind .frame (by decide) frame member).2

theorem reachable_kept {analyze : Analyze} (reached : Runs.Reachable Starts (Step analyze) file) :
    file.Kept := by
  refine reached.invariant (fun _ => Starts.kept) ?_
  intro before after kept step
  cases step with
  | called faults operation =>
      have here : (before.withFaults faults).Kept := ⟨kept.paired, kept.below⟩
      exact here.run analyze operation
  | opened loaded => exact reopen_kept loaded before

/-- What the index does by searching is what the calls on the handle do. -/
structure Follows (file : CountedFile) : Prop where
  finds : ∀ frameId : FrameId,
    findByKey FrameDesc.id frameId.toNat file.index.frames = file.handle.findFrame frameId
  upserts : ∀ frame, file.index.upsertFrame frame =
    (⟨file.handle.upsertFrame frame, file.tombstonedFrameCount⟩ : CountedFile).index
  deletes : ∀ frameId frame now, file.handle.findFrame frameId = some frame → frame.status = .active →
    file.index.deleteFrame frameId now =
      (⟨file.handle.tombstoneFrame frame now, file.tombstonedFrameCount + 1⟩ : CountedFile).index

/-- In every reachable state both parts of the index are strictly sorted and tell of the same
frames, the tombstones are counted, and the dirty rows are the rows of the dirty ids in order. -/
theorem reachable_paired {analyze : Analyze} (reached : Runs.Reachable Starts (Step analyze) file) :
    file.index.Paired ∧ file.Follows ∧ ∀ dirty : Finset Nat, file.index.dirtyFrames dirty =
      file.index.frames.filter fun frame => frame.id ∈ dirty := by
  have kept := reachable_kept reached
  refine ⟨kept.paired, ⟨kept.findFrame, kept.upsertFrame, ?_⟩, kept.paired.dirtyFrames⟩
  intro frameId frame now found active
  exact kept.deleteFrame now found active

def called (file : CountedFile) (operation : Operation) : CountedFile :=
  (file.withFaults noFaults).run noTokens operation

/-- A note that was put and then deleted. -/
def struckNote : CountedFile :=
  (((⟨{}, 0⟩ : CountedFile).called (.createCollectionAt "notes" 0)).called (.putFrame
    ⟨1, .document, [1], some 5, some 5, none, none, none, none⟩ 5)).called (.deleteFrame 1 6)

theorem struckNote_paired :
    (struckNote.index.Paired ∧ struckNote.Follows ∧ ∀ dirty : Finset Nat,
      struckNote.index.dirtyFrames dirty =
        struckNote.index.frames.filter fun frame => frame.id ∈ dirty) ∧
      struckNote.index.frameStubs = [⟨1, .tombstoned⟩] ∧ struckNote.tombstonedFrameCount = 1 := by
  have reached : Runs.Reachable Starts (Step noTokens) struckNote :=
    .step (.step (.step (.start ⟨⟨_, rfl⟩, rfl⟩) (.called noFaults _)) (.called noFaults _))
      (.called noFaults _)
  exact ⟨reachable_paired reached, by decide +kernel, by decide +kernel⟩

end CountedFile

end Valise
