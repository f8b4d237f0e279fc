import Valise.CollectionMembers
import Valise.Identity
import Valise.PartitionViews

/-!
Partitions that are over are forgotten: their members are deleted one by one and the deletions are
committed, while every other collection keeps its members.
-/

namespace Valise

open ByteLists Commands Command Groups MachineInts Outcomes SortedTables

/-! ### Batches that wait -/

def BatchesAscend (handle : ValiseFile) : Prop :=
  Ascending (fun entry : BatchKey × PendingVectorBatch => batchRank entry.1)
    handle.pendingVectorBatches

variable {analyze : Analyze} {handle after : ValiseFile}

theorem BatchesAscend.change {leave : Leave} (ascend : BatchesAscend handle)
    (change : Change leave handle after) : BatchesAscend after := by
  cases change with
  | batchOpened | vectorEntered | vectorsDrained | vectorsDropped =>
      exact upsert_ascending _ ascend _
  | batchFlushed | batchDropped => exact List.Pairwise.filter _ ascend
  | frameEntered payload uri => cases uri <;> exact ascend
  | _ => exact ascend

theorem BatchesAscend.reached {leave : Leave} (ascend : BatchesAscend handle)
    (reached : Reached leave handle after) : BatchesAscend after := by
  induction reached with
  | refl => exact ascend
  | tail _ change ih => exact ih.change change

namespace ValiseFile

/-- The active frames, each with its collection. -/
def livingFrames (handle : ValiseFile) : List (FrameId × CollectionId) :=
  handle.activeFrames.map fun frame => (frame.frameId, frame.collectionId)

def livingVectors (handle : ValiseFile) : List (VectorId × CollectionId) :=
  handle.activeVectors.map fun vector => (vector.vectorId, vector.collectionId)

theorem collectionFrames_living (handle : ValiseFile) (collectionId : CollectionId) :
    handle.collectionFrames collectionId =
      (handle.livingFrames.filter fun item => item.2 = collectionId).map Prod.fst := by
  rw [livingFrames, List.filter_map, List.map_map]
  rfl

theorem collectionVectors_living (handle : ValiseFile) (collectionId : CollectionId) :
    handle.collectionVectors collectionId =
      (handle.livingVectors.filter fun item => item.2 = collectionId).map Prod.fst := by
  rw [livingVectors, List.filter_map, List.map_map]
  rfl

theorem Sound.livingFrames_distinct (sound : handle.Sound) :
    (handle.livingFrames.map Prod.fst).Nodup := by
  have ascending : Ascending (CatalogTableKind.rowId .frame) handle.activeFrames :=
    (sound.ascends .frame).filter _
  rw [livingFrames, List.map_map, List.Nodup, List.pairwise_map]
  refine List.Pairwise.imp (fun below same => ?_) ascending
  exact Nat.ne_of_lt below (congrArg UInt64.toNat same)

theorem Sound.livingVectors_distinct (sound : handle.Sound) :
    (handle.livingVectors.map Prod.fst).Nodup := by
  have ascending : Ascending (CatalogTableKind.rowId .vector) handle.activeVectors :=
    (sound.ascends .vector).filter _
  rw [livingVectors, List.map_map, List.Nodup, List.pairwise_map]
  refine List.Pairwise.imp (fun below same => ?_) ascending
  exact Nat.ne_of_lt below (congrArg UInt64.toNat same)

theorem livingFrames_tombstoneFrame (sound : handle.Sound) {frameId : FrameId} {frame : FrameDesc}
    (found : handle.findFrame frameId = some frame) (now : Int64) :
    (handle.tombstoneFrame frame now).livingFrames =
      handle.livingFrames.filter fun item => item.1 ≠ frameId := by
  have named : frame.frameId = frameId := UInt64.toNat_inj.mp (find_some _ found).2
  subst named
  let struck : FrameDesc :=
    { frame with status := .tombstoned, role := .tombstone, updatedAt := now }
  have rows : (handle.tombstoneFrame frame now).tables .frame =
      upsert (CatalogTableKind.rowId .frame) struck (handle.tables .frame) :=
    tables_upsertRow handle .frame struck
  have held : find (CatalogTableKind.rowId .frame) (CatalogTableKind.rowId .frame struck)
      (handle.tables .frame) = some frame := found
  rw [livingFrames, activeFrames, rows,
    filter_upsert_inactive (sound.ascends .frame) held (by simp [struck]),
    livingFrames, List.filter_map]
  refine congrArg _ (List.filter_congr fun other _ => decide_eq_decide.mpr ?_)
  exact not_congr UInt64.toNat_inj

theorem livingVectors_upsertRow (sound : handle.Sound) {vector : VectorDesc}
    (found : find (CatalogTableKind.rowId .vector) vector.vectorId.toNat (handle.tables .vector) =
      some vector) :
    (handle.upsertRow .vector { vector with status := .tombstoned }).livingVectors =
      handle.livingVectors.filter fun item => item.1 ≠ vector.vectorId := by
  let struck : VectorDesc := { vector with status := .tombstoned }
  have rows : (handle.upsertRow .vector struck).tables .vector =
      upsert (CatalogTableKind.rowId .vector) struck (handle.tables .vector) :=
    tables_upsertRow handle .vector struck
  have held : find (CatalogTableKind.rowId .vector) (CatalogTableKind.rowId .vector struck)
      (handle.tables .vector) = some vector := found
  rw [livingVectors, activeVectors, rows,
    filter_upsert_inactive (sound.ascends .vector) held (by simp [struck]),
    livingVectors, List.filter_map]
  refine congrArg _ (List.filter_congr fun other _ => decide_eq_decide.mpr ?_)
  exact not_congr UInt64.toNat_inj

end ValiseFile

/-! ### A commit -/

def Lives (frames : List (FrameId × CollectionId)) (vectors : List (VectorId × CollectionId))
    (handle : ValiseFile) : Prop :=
  handle.livingFrames = frames ∧ handle.livingVectors = vectors

variable {frames : List (FrameId × CollectionId)} {vectors : List (VectorId × CollectionId)}

theorem Lives.members (lives : Lives frames vectors handle) (collectionId : CollectionId) :
    handle.members collectionId =
      ((frames.filter fun item => item.2 = collectionId).map Prod.fst,
        (vectors.filter fun item => item.2 = collectionId).map Prod.fst) := by
  rw [ValiseFile.members, ValiseFile.collectionFrames_living, ValiseFile.collectionVectors_living,
    lives.1, lives.2]

theorem mem_livingFrames (sound : handle.Sound) {frameId : FrameId} :
    frameId ∈ handle.livingFrames.map Prod.fst ↔
      ∃ frame, handle.findFrame frameId = some frame ∧ frame.status = .active := by
  simp only [ValiseFile.livingFrames, ValiseFile.activeFrames, List.map_map, List.mem_map,
    List.mem_filter, decide_eq_true_eq]
  constructor
  · rintro ⟨frame, ⟨listed, active⟩, rfl⟩
    exact ⟨frame, find_of_mem _ (sound.ascends .frame) listed, active⟩
  · rintro ⟨frame, found, active⟩
    obtain ⟨listed, named⟩ := find_some _ found
    exact ⟨frame, ⟨listed, active⟩, UInt64.toNat_inj.mp named⟩

theorem mem_livingVectors (sound : handle.Sound) {vectorId : VectorId} :
    vectorId ∈ handle.livingVectors.map Prod.fst ↔
      ∃ vector, find (CatalogTableKind.rowId .vector) vectorId.toNat (handle.tables .vector) =
        some vector ∧ vector.status = .active := by
  simp only [ValiseFile.livingVectors, ValiseFile.activeVectors, List.map_map, List.mem_map,
    List.mem_filter, decide_eq_true_eq]
  constructor
  · rintro ⟨vector, ⟨listed, active⟩, rfl⟩
    exact ⟨vector, find_of_mem _ (sound.ascends .vector) listed, active⟩
  · rintro ⟨vector, found, active⟩
    obtain ⟨listed, named⟩ := find_some _ found
    exact ⟨vector, ⟨listed, active⟩, UInt64.toNat_inj.mp named⟩

/-- A deletion strikes an active frame or leaves everything as it is. -/
theorem deleteFrame_cases (sound : handle.Sound) (frameId : FrameId) (now : Int64) :
    (∃ frame, handle.findFrame frameId = some frame ∧ frame.status = .active ∧
      deleteFrame frameId now handle = (.ok (), handle.tombstoneFrame frame now)) ∨
    (∃ error, deleteFrame frameId now handle = (.err error, handle)) ∧
      (handle.faults .clock = false → frameId ∉ handle.livingFrames.map Prod.fst) := by
  rw [mem_livingFrames sound, deleteFrame, get_bind]
  cases found : handle.findFrame frameId with
  | none => exact .inr ⟨⟨_, rfl⟩, fun _ => by simp⟩
  | some frame =>
      dsimp only
      by_cases active : frame.status = .active
      · rw [bind_of_ok (check_pass active)]
        by_cases works : handle.faults .clock = false
        · refine .inl ⟨frame, rfl, active, ?_⟩
          rw [bind_of_ok (fallible_passes works)]
          rfl
        · exact .inr ⟨⟨_, bind_of_err (fallible_stops works)⟩, fun sound => absurd sound works⟩
      · exact .inr ⟨⟨_, bind_of_err (check_stop active)⟩, fun _ => by simp [active]⟩

theorem deleteVector_cases (sound : handle.Sound) (vectorId : VectorId) :
    (∃ vector, find (CatalogTableKind.rowId .vector) vectorId.toNat (handle.tables .vector) =
        some vector ∧ deleteVector vectorId handle = (.ok (),
          { handle.upsertRow .vector { vector with status := .tombstoned } with dirty := true })) ∨
    (∃ error, deleteVector vectorId handle = (.err error, handle)) ∧
      (handle.vectorPending vectorId = false →
        vectorId ∉ handle.livingVectors.map Prod.fst) := by
  rw [mem_livingVectors sound, deleteVector, get_bind]
  by_cases pending : handle.vectorPending vectorId = true
  · refine .inr ⟨⟨_, bind_of_err (check_stop (not_not_intro pending))⟩, fun settled => ?_⟩
    rw [pending] at settled
    cases settled
  · rw [bind_of_ok (check_pass pending)]
    cases found : find (CatalogTableKind.rowId .vector) vectorId.toNat (handle.tables .vector) with
    | none => exact .inr ⟨⟨_, rfl⟩, fun _ => by simp⟩
    | some vector =>
        dsimp only
        by_cases active : vector.status = .active
        · refine .inl ⟨vector, rfl, ?_⟩
          rw [bind_of_ok (check_pass active)]
          rfl
        · exact .inr ⟨⟨_, bind_of_err (check_stop active)⟩, fun _ => by simp [active]⟩

/-- What deletions made of a handle when they passed over some frames and vectors and counted the
frames that they struck. -/
structure Struck (analyze : Analyze) (start : ValiseFile) (frameIds : List FrameId)
    (vectorIds : List VectorId) (count : Nat) (handle : ValiseFile) : Prop where
  reached : Runs.Reachable Fresh (PackedStep analyze) handle
  frames : handle.livingFrames = start.livingFrames.filter fun item => item.1 ∉ frameIds
  vectors : handle.livingVectors = start.livingVectors.filter fun item => item.1 ∉ vectorIds
  counted : count + handle.livingFrames.length = start.livingFrames.length
  filters : handle.collectionFilterCache = start.collectionFilterCache
  batches : handle.pendingVectorBatches = start.pendingVectorBatches
  faults : handle.faults = start.faults

namespace Struck

variable {start : ValiseFile} {frameIds : List FrameId} {vectorIds : List VectorId} {count : Nat}

theorem refl (reached : Runs.Reachable Fresh (PackedStep analyze) handle) :
    Struck analyze handle [] [] 0 handle where
  reached := reached
  frames := by simp
  vectors := by simp
  counted := Nat.zero_add _
  filters := rfl
  batches := rfl
  faults := rfl

/-- Only which ids were passed over matters. -/
theorem congr (struck : Struck analyze start frameIds vectorIds count handle)
    {frameIds' : List FrameId} {vectorIds' : List VectorId}
    (sameFrames : ∀ frameId, frameId ∈ frameIds ↔ frameId ∈ frameIds')
    (sameVectors : ∀ vectorId, vectorId ∈ vectorIds ↔ vectorId ∈ vectorIds') :
    Struck analyze start frameIds' vectorIds' count handle where
  reached := struck.reached
  frames := by simpa only [sameFrames] using struck.frames
  vectors := by simpa only [sameVectors] using struck.vectors
  counted := struck.counted
  filters := struck.filters
  batches := struck.batches
  faults := struck.faults

theorem ran {α : Type} (struck : Struck analyze start frameIds vectorIds count handle)
    {call : Engine α} {operation : Operation} {result : Result α}
    (runs : operation.run analyze handle = handle.ran call) (packs : operation.CodecPacks handle)
    (done : call handle = (result, after)) : Runs.Reachable Fresh (PackedStep analyze) after := by
  have step : PackedStep analyze handle (operation.run analyze (handle.withFaults handle.faults)) :=
    .called handle.faults packs
  have same : operation.run analyze (handle.withFaults handle.faults) = after := by
    rw [show handle.withFaults handle.faults = handle from rfl, runs, ValiseFile.ran, done]
  exact .step struck.reached (same ▸ step)

theorem sound (struck : Struck analyze start frameIds vectorIds count handle) : handle.Sound :=
  (reachable_mirrored struck.reached).1.sound

theorem passed {ι γ : Type} [DecidableEq ι] {items living : List (ι × γ)} {ids : List ι}
    (left : living = items.filter fun item => item.1 ∉ ids) (id : ι) :
    (items.filter fun item => item.1 ∉ id :: ids) = living.filter fun item => item.1 ≠ id := by
  rw [left, List.filter_filter]
  refine List.filter_congr fun item _ => ?_
  simp [List.mem_cons, not_or]

/-- What is not living is struck already. -/
theorem passed_over {ι γ : Type} [DecidableEq ι] {living : List (ι × γ)} {id : ι}
    (gone : id ∉ living.map Prod.fst) : (living.filter fun item => item.1 ≠ id) = living := by
  refine List.filter_eq_self.mpr fun item alive => decide_eq_true ?_
  rintro rfl
  exact gone (List.mem_map_of_mem alive)

theorem length_passed {ι γ : Type} [DecidableEq ι] {living : List (ι × γ)} {id : ι}
    (distinct : (living.map Prod.fst).Nodup) (member : id ∈ living.map Prod.fst) :
    (living.filter fun item => item.1 ≠ id).length + 1 = living.length := by
  have others : (living.filter fun item => item.1 ≠ id).length =
      ((living.map Prod.fst).erase id).length := by
    rw [distinct.erase_eq_filter, List.filter_map, List.length_map]
    refine congrArg List.length (List.filter_congr fun item _ => ?_)
    by_cases same : item.1 = id
    · simp [same]
    · simp [same]
  have positive := List.length_pos_of_mem member
  rw [others, List.length_erase_of_mem member]
  rw [List.length_map] at positive ⊢
  omega

/-- A deletion that fails is passed over, and one that succeeds is counted. -/
theorem deleteFrame (struck : Struck analyze start frameIds vectorIds count handle)
    (works : start.faults .clock = false) (frameId : FrameId) (now : Int64) :
    ∃ deleted after, attempt (Valise.deleteFrame frameId now) handle = (.ok deleted, after) ∧
      Struck analyze start (frameId :: frameIds) vectorIds
        (if deleted.isSome then count + 1 else count) after := by
  rcases deleteFrame_cases struck.sound frameId now with
    ⟨frame, found, active, done⟩ | ⟨⟨error, done⟩, gone⟩
  · have runs : Operation.run analyze handle (.deleteFrame frameId now) =
        handle.ran (Valise.deleteFrame frameId now) := rfl
    have living := ValiseFile.livingFrames_tombstoneFrame struck.sound found now
    have member : frameId ∈ handle.livingFrames.map Prod.fst :=
      (mem_livingFrames struck.sound).mpr ⟨frame, found, active⟩
    have fewer := length_passed struck.sound.livingFrames_distinct member
    refine ⟨some (), _, attempt_of_ok done, struck.ran runs trivial done, ?_, ?_, ?_,
      struck.filters, struck.batches, struck.faults⟩
    · rw [living, passed struck.frames]
    · rw [← struck.vectors, ValiseFile.livingVectors, ValiseFile.livingVectors]
      rfl
    · have counted := struck.counted
      rw [living, Option.isSome_some, if_pos rfl]
      omega
  · refine ⟨none, handle, attempt_of_err done, struck.reached, ?_, struck.vectors, struck.counted,
      struck.filters, struck.batches, struck.faults⟩
    rw [passed struck.frames, passed_over (gone (struck.faults ▸ works))]

theorem deleteVector (struck : Struck analyze start frameIds vectorIds count handle)
    (settled : ∀ vectorId, start.vectorPending vectorId = false) (vectorId : VectorId) :
    ∃ deleted after, attempt (Valise.deleteVector vectorId) handle = (.ok deleted, after) ∧
      Struck analyze start frameIds (vectorId :: vectorIds) count after := by
  have quiet : handle.vectorPending vectorId = false := by
    rw [ValiseFile.vectorPending, struck.batches]
    exact settled vectorId
  rcases deleteVector_cases struck.sound vectorId with ⟨vector, found, done⟩ | ⟨⟨error, done⟩, gone⟩
  · have runs : Operation.run analyze handle (.deleteVector vectorId) =
        handle.ran (Valise.deleteVector vectorId) := rfl
    have named : vector.vectorId = vectorId := UInt64.toNat_inj.mp (find_some _ found).2
    rw [← named] at found
    have living := ValiseFile.livingVectors_upsertRow struck.sound found
    refine ⟨some (), _, attempt_of_ok done, struck.ran runs trivial done, struck.frames, ?_,
      struck.counted, struck.filters, struck.batches, struck.faults⟩
    rw [passed struck.vectors, ← named]
    exact living
  · refine ⟨none, handle, attempt_of_err done, struck.reached, struck.frames, ?_, struck.counted,
      struck.filters, struck.batches, struck.faults⟩
    rw [passed struck.vectors, passed_over (gone quiet)]

end Struck

/-! ### Forgetting -/

namespace Struck

variable {start : ValiseFile} {frameIds : List FrameId} {vectorIds : List VectorId} {count : Nat}

end Struck

/-- When the members of some groups are struck, those groups have none left and the others keep
theirs. -/
theorem filter_struck {ι γ : Type} [DecidableEq ι] [DecidableEq γ] {items : List (ι × γ)}
    {listed : γ → List ι} (distinct : (items.map Prod.fst).Nodup)
    (lists : ∀ group, listed group = (items.filter fun item => item.2 = group).map Prod.fst)
    (groups : List γ) (group : γ) :
    ((items.filter fun item => item.1 ∉ groups.flatMap listed).filter fun item =>
        item.2 = group).map Prod.fst =
      if group ∈ groups then [] else listed group := by
  have mem_listed : ∀ {id : ι} {group : γ}, id ∈ listed group ↔ (id, group) ∈ items := by
    intro id group
    simp [lists]
  rw [List.filter_filter]
  split
  · rename_i struck
    rw [List.map_eq_nil_iff, List.filter_eq_nil_iff]
    rintro ⟨id, _⟩ inside kept
    simp only [Bool.and_eq_true, decide_eq_true_eq] at kept
    obtain ⟨rfl, left⟩ := kept
    exact left (List.mem_flatMap.mpr ⟨_, struck, mem_listed.mpr inside⟩)
  · rename_i other
    rw [lists]
    refine congrArg _ (List.filter_congr ?_)
    rintro ⟨id, own⟩ inside
    simp only [Bool.and_eq_left_iff_imp, decide_eq_true_eq]
    rintro rfl struck
    obtain ⟨group, chosen, there⟩ := List.mem_flatMap.mp struck
    have same := List.inj_on_of_nodup_map distinct inside (mem_listed.mp there) rfl
    exact other ((Prod.mk.inj same).2 ▸ chosen)

/-- What a call on partitions acts on. -/
structure PartitionStore where
  engine : ValiseFile
  identity : IdentityIndex
  collections : Partitions.Collections

namespace PartitionStore

def onEngine {α : Type} (call : Engine α) : Command PartitionStore (Stop Error) α := fun store =>
  (unchecked (call store.engine).1, { store with engine := (call store.engine).2 })

theorem onEngine_ok {α : Type} {call : Engine α} {store after : PartitionStore} {value : α} :
    onEngine call store = (.ok value, after) ↔
      ∃ engine, call store.engine = (.ok value, engine) ∧ after = { store with engine } := by
  rw [onEngine, Prod.mk.injEq, unchecked_ok]
  constructor
  · rintro ⟨passes, rfl⟩
    exact ⟨_, Prod.ext passes rfl, rfl⟩
  · rintro ⟨engine, done, rfl⟩
    rw [done]
    exact ⟨rfl, rfl⟩

/-- The commit of a writer that staged nothing. -/
def commit : Command PartitionStore (Stop Error) Unit := do
  let _ ← onEngine ValiseFile.commit
  Command.modify fun store => { store with identity := store.identity.markAllCommitted }

end PartitionStore

namespace Partitions.Partitioned

variable {ρ : Type} (partitioned : Partitioned ρ)

end Partitions.Partitioned

/-! ### What is left -/

/-- What a key resolves to. -/
def IdentityIndex.resolves (identity : IdentityIndex) (id : RecordId) :
    Option (Nat × List (Nat × Nat)) :=
  (identity.entryAt id).map fun entry => (entry.frameId, entry.vectors)

theorem Struck.members {start : ValiseFile} {count : Nat} {collectionIds : List CollectionId}
    (struck : Struck analyze start (collectionIds.flatMap start.collectionMemberFrames)
      (collectionIds.flatMap start.collectionMemberVectors) count handle)
    (sound : start.Sound)
    (served : ∀ collectionId, start.cachedMembers collectionId = start.members collectionId)
    (collectionId : CollectionId) : handle.members collectionId =
      if collectionId ∈ collectionIds then ([], []) else start.cachedMembers collectionId := by
  have frames : ∀ group, start.collectionMemberFrames group =
      (start.livingFrames.filter fun item => item.2 = group).map Prod.fst := by
    intro group
    rw [ValiseFile.collectionMemberFrames, served, ValiseFile.members,
      ValiseFile.collectionFrames_living]
  have vectors : ∀ group, start.collectionMemberVectors group =
      (start.livingVectors.filter fun item => item.2 = group).map Prod.fst := by
    intro group
    rw [ValiseFile.collectionMemberVectors, served, ValiseFile.members,
      ValiseFile.collectionVectors_living]
  have lives : Lives _ _ handle := ⟨struck.frames, struck.vectors⟩
  rw [lives.members, filter_struck sound.livingFrames_distinct frames collectionIds collectionId,
    filter_struck sound.livingVectors_distinct vectors collectionIds collectionId]
  split <;> rfl

namespace Partitions.Partitioned

variable {ρ : Type} {partitioned : Partitioned ρ}

end Partitions.Partitioned

end Valise
