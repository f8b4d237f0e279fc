import Valise.CommitChanges
import Valise.Library.Runs

/-!
Runs of a file handle from its creation: calls in any order, each failing or not, and commits.
-/

namespace Valise

open ByteLists Commands Command Numerals Outcomes Relation Runs SortedTables

/-- One call on a handle. -/
inductive Operation where
  | createCollectionAt (name : String) (createdAt : Int64)
  | registerAnalyzer (desc : AnalyzerDesc)
  | registerFieldSchema (desc : FieldSchemaDesc)
  | registerRetrievalProfile (desc : RetrievalProfileDesc)
  | registerFusionProfile (desc : FusionProfileDesc)
  | registerEmbeddingSpace (spec : EmbeddingSpaceSpec)
  | registerTextSpace (desc : TextSpaceDesc)
  | registerCodec (params : CodecParams)
  | putFrame (input : PutFrame) (now : Int64)
  | deleteFrame (frameId : FrameId) (now : Int64)
  | indexFrameText (frameId : FrameId) (textSpaceId : TextSpaceId)
  | putVector (input : PutVector)
  | deleteVector (vectorId : VectorId)
  | commit

abbrev Analyze := AnalyzerDesc → Bytes → Option (List Bytes)

namespace ValiseFile

/-- The environment decides anew, call by call, what goes wrong. -/
def withFaults (handle : ValiseFile) (faults : IoPoint → Bool) : ValiseFile :=
  { handle with faults := faults }

def ran {α : Type} (handle : ValiseFile) (call : Engine α) : ValiseFile := (call handle).2

end ValiseFile

/-- What a call leaves behind, whether it succeeds or not. -/
def Operation.run (analyze : Analyze) (handle : ValiseFile) : Operation → ValiseFile
  | .createCollectionAt name createdAt => handle.ran (Valise.createCollectionAt name createdAt)
  | .registerAnalyzer desc => handle.ran (Valise.registerAnalyzer desc)
  | .registerFieldSchema desc => handle.ran (Valise.registerFieldSchema desc)
  | .registerRetrievalProfile desc => handle.ran (Valise.registerRetrievalProfile desc)
  | .registerFusionProfile desc => handle.ran (Valise.registerFusionProfile desc)
  | .registerEmbeddingSpace spec => handle.ran (Valise.registerEmbeddingSpace spec)
  | .registerTextSpace desc => handle.ran (Valise.registerTextSpace desc)
  | .registerCodec params => handle.ran (Valise.registerCodec params)
  | .putFrame input now => handle.ran (Valise.putFrame input now)
  | .deleteFrame frameId now => handle.ran (Valise.deleteFrame frameId now)
  | .indexFrameText frameId textSpaceId =>
      handle.ran (Valise.indexFrameText analyze frameId textSpaceId)
  | .putVector input => handle.ran (Valise.putVector input)
  | .deleteVector vectorId => handle.ran (Valise.deleteVector vectorId)
  | .commit => handle.ran ValiseFile.commit

/-- Codec parameters that pass their check also make a live codec. -/
def Operation.CodecLoads : Operation → Prop
  | .registerCodec params => params.encode = .ok () → params.instantiate = .ok ()
  | _ => True

inductive EngineStep (analyze : Analyze) (allowed : Operation → Prop) :
    ValiseFile → ValiseFile → Prop where
  | call {handle} (faults : IoPoint → Bool) {operation : Operation} : allowed operation →
      EngineStep analyze allowed handle (operation.run analyze (handle.withFaults faults))

def Fresh (handle : ValiseFile) : Prop :=
  ∃ contract, handle = { createContract := contract }

theorem fresh_sound {handle : ValiseFile} (fresh : Fresh handle) : handle.Sound := by
  obtain ⟨contract, rfl⟩ := fresh
  exact {
    stored := {
      rooted := {
        chained := fun kind => ⟨[], .empty, le_refl _, DeltaTables.tracks_empty _⟩
        filters := by simp
        timeIndex := by simp
        texts := fun _ => ⟨⟨[], .empty, le_refl _⟩, ⟨[], .empty, le_refl _⟩, [], .empty, le_refl _⟩ }
      textRoots := fun _ => rfl
      stubs := rfl
      ids := by simp
      loads := by simp }
    clean := fun _ => ⟨rfl, fun _ => rfl, rfl, nofun⟩
    framesKnown := by simp
    urisKnown := by simp
    registered := by simp
    batches := nofun
    batchesApart := ⟨nofun, nofun⟩
    texts := nofun
    analyzers := nofun }

theorem ValiseFile.Sound.withFaults {handle : ValiseFile} (sound : handle.Sound)
    (faults : IoPoint → Bool) : (handle.withFaults faults).Sound :=
  ⟨⟨sound.stored.rooted, sound.stored.textRoots, sound.stored.stubs, sound.stored.ids,
    sound.stored.loads⟩, fun flag => ⟨(sound.clean flag).published, (sound.clean flag).dirtyIds,
      (sound.clean flag).settled.payloads, (sound.clean flag).settled.vectors⟩,
    sound.framesKnown, sound.urisKnown, sound.registered, sound.batches,
    ⟨sound.batchesApart.unregistered, sound.batchesApart.apart⟩, sound.texts, sound.analyzers⟩

/-- No vector that was accepted gets lost: the full chunks of a put encode, and a commit has
nothing to do or stops before the batches or flushes each of them. -/
def Operation.KeepsVectors (handle : ValiseFile) : Operation → Prop
  | .putVector input => handle.PutEncodes input
  | .commit => handle.dirty = false ∨ handle.CommitKeepsVectors
  | _ => True

/-- Every other call than a put of a vector is a sequence of changes that enter none. -/
theorem Operation.changesAside (analyze : Analyze) {leave : Leave} {handle : ValiseFile}
    (sound : handle.Sound) {operation : Operation} (loads : operation.CodecLoads)
    (other : ∀ input, operation ≠ .putVector input)
    (safe : leave.losing = true ∨ operation.KeepsVectors handle) :
    Reached leave handle (operation.run analyze handle) := by
  cases operation with
  | createCollectionAt name createdAt => exact createCollectionAt_changes name createdAt _ .refl
  | registerAnalyzer desc => exact registerAnalyzer_changes desc _ .refl
  | registerFieldSchema desc => exact registerFieldSchema_changes desc _ .refl
  | registerRetrievalProfile desc => exact registerRetrievalProfile_changes desc _ .refl
  | registerFusionProfile desc => exact registerFusionProfile_changes desc _ .refl
  | registerEmbeddingSpace spec => exact registerEmbeddingSpace_changes spec _ .refl
  | registerTextSpace desc => exact registerTextSpace_changes desc _ .refl
  | registerCodec params => exact registerCodec_changes loads _ .refl
  | putFrame input now => exact putFrame_changes input now _ .refl
  | deleteFrame frameId now => exact deleteFrame_changes frameId now _ .refl
  | indexFrameText frameId textSpaceId =>
      exact indexFrameText_changes analyze frameId textSpaceId _ .refl
  | putVector input => exact absurd rfl (other input)
  | deleteVector vectorId => exact deleteVector_changes vectorId _ .refl
  | commit =>
      exact ((commit_commits sound safe).weaken (fun _ same => same) (fun _ _ held => held.1)
        fun _ reached => reached).final rfl

/-- Every call is a sequence of changes; vectors may get lost on the way. -/
theorem Operation.changes (analyze : Analyze) {handle : ValiseFile} (sound : handle.Sound)
    {operation : Operation} (loads : operation.CodecLoads) :
    Reached .any handle (operation.run analyze handle) := by
  by_cases put : ∃ input, operation = .putVector input
  · obtain ⟨input, rfl⟩ := put
    exact putVector_changes input _ .refl
  · exact operation.changesAside analyze sound loads (fun input same => put ⟨input, same⟩) (.inl rfl)

/-- The sequences of calls in which every codec that is entered can be made live. -/
theorem reachable_sound {analyze : Analyze} {handle : ValiseFile}
    (reached : Runs.Reachable Fresh (EngineStep analyze Operation.CodecLoads) handle) :
    handle.Sound := by
  refine reached.invariant (fun _ => fresh_sound) ?_
  rintro before _ sound ⟨faults, loads⟩
  exact (Operation.changes analyze (sound.withFaults faults) loads).sound (sound.withFaults faults)

/-- What an open finds in the catalog is what the handle has. -/
def ValiseFile.ReopensSame (handle : ValiseFile) : Prop :=
  ∃ state, handle.opened = .ok state ∧ state.tables = handle.tables ∧
    state.frameStubs = handle.frameStubs

/-- After a successful commit an open of the file finds the catalog of the handle. -/
theorem commit_reopensSame {analyze : Analyze} {handle committed : ValiseFile} {changed : Bool}
    (reached : Runs.Reachable Fresh (EngineStep analyze Operation.CodecLoads) handle)
    (faults : IoPoint → Bool)
    (commits : ValiseFile.commit (handle.withFaults faults) = (.ok changed, committed)) :
    committed.ReopensSame := by
  have sound := (reachable_sound reached).withFaults faults
  obtain ⟨later, clean⟩ := (@commit_commits .any _ sound (.inl rfl)).ok rfl commits
  have after := later.sound sound
  exact after.stored.opens (after.clean clean)

/-! ### Runs on fixed calls -/

def noFaults : IoPoint → Bool := fun _ => false

def noTokens : Analyze := fun _ _ => none

def oneCollection : ValiseFile :=
  Operation.run noTokens (({} : ValiseFile).withFaults noFaults) (.createCollectionAt "notes" 0)

theorem oneCollection_reopensSame :
    (ValiseFile.commit (oneCollection.withFaults noFaults)).1 = .ok true ∧
      (ValiseFile.commit (oneCollection.withFaults noFaults)).2.ReopensSame := by
  have reached : Runs.Reachable Fresh (EngineStep noTokens Operation.CodecLoads) oneCollection :=
    .step (.start ⟨{}, rfl⟩) (.call noFaults trivial)
  have commits : (ValiseFile.commit (oneCollection.withFaults noFaults)).1 = .ok true := by
    decide +kernel
  exact ⟨commits, commit_reopensSame reached noFaults (Prod.ext commits rfl)⟩

/-- Valid parameters with more cells than the live codec can pack. -/
def wideCells : CodecParams := .upq {
  dimension := 2
  numPairs := 1
  blockSize := 2
  rotationSeed := 7
  cells := 4096
  designSource := .rayleigh
  renormalizeAtDecode := false
  ringRadii := [0x3f800000, 0x40000000]
  ringPhases := [4, 4]
  sigmaPerPair := [0x3f800000]
  calibrationId := ⟨List.replicate 32 1, ones_length⟩ }

def wideCellsEntered : ValiseFile :=
  Operation.run noTokens (({} : ValiseFile).withFaults noFaults) (.registerCodec wideCells)

/-- The call that enters the codec fails, the commit after it succeeds, and the file does not open. -/
theorem reopensSame_fails : ∃ handle committed changed,
    Runs.Reachable Fresh (EngineStep noTokens fun _ => True) handle ∧
    ValiseFile.commit (handle.withFaults noFaults) = (.ok changed, committed) ∧
    ¬committed.ReopensSame := by
  refine ⟨wideCellsEntered, (ValiseFile.commit (wideCellsEntered.withFaults noFaults)).2, true,
    .step (.start ⟨{}, rfl⟩) (.call noFaults trivial), ?_, ?_⟩
  · exact Prod.ext (by decide +kernel) rfl
  · rintro ⟨state, opened, -⟩
    have stuck : (ValiseFile.commit (wideCellsEntered.withFaults noFaults)).2.opened.isOk = false := by
      decide +kernel
    rw [opened] at stuck
    exact nomatch stuck

end Valise
