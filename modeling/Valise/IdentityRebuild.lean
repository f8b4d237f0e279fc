import Valise.Identity

/-!
What an index holds that was rebuilt from the rows of an opened file.
-/

namespace Valise

namespace IdentityIndex

variable {κ : Type} {engine : StoreEngine κ}

theorem keyed_eq_some {frameId : Nat} {id : RecordId} : keyed engine frameId = some id ↔
    ∃ row, engine.tables.frames[frameId]? = some row ∧ row.active = true ∧
      engine.readFrameUri frameId = some id.2 ∧ (Key.decode id.2).isSome = true ∧
      row.collectionId = id.1 := by
  unfold keyed
  cases engine.tables.frames[frameId]? with
  | none => simp
  | some row =>
    by_cases active : row.active = true
    · cases uri : engine.readFrameUri frameId with
      | none => simp
      | some key =>
        cases decoded : Key.decode key with
        | none =>
          simp only [Option.bind_eq_bind, Option.bind_some, active, if_true, decoded,
            Option.bind_none, reduceCtorEq, Option.some.injEq, exists_eq_left', true_and, false_iff,
            not_and]
          rintro rfl
          simp [decoded]
        | some value =>
          simp only [Option.bind_eq_bind, Option.bind_some, active, if_true, decoded,
            Option.pure_def, Option.some.injEq, exists_eq_left', true_and, Prod.ext_iff]
          constructor
          · rintro ⟨collection, rfl⟩
            exact ⟨rfl, by simp [decoded], collection⟩
          · rintro ⟨rfl, _, collection⟩
            exact ⟨collection, rfl⟩
    · simp [active]

/-- The frames that a rebuild has gone through. -/
def rebuiltFrames (engine : StoreEngine κ) (count : Nat) : IdentityIndex :=
  (List.range count).foldl (addFrame engine) {}

theorem rebuiltFrames_succ (count : Nat) :
    rebuiltFrames engine (count + 1) = addFrame engine (rebuiltFrames engine count) count := by
  unfold rebuiltFrames
  rw [List.range_succ, List.foldl_append]
  rfl

/-- An entry of a rebuilt index is the frame of its key. -/
theorem rebuiltFrames_sound {count : Nat} {id : RecordId} {entry : Entry}
    (found : (rebuiltFrames engine count).entryAt id = some entry) :
    ∃ frameId < count, keyed engine frameId = some id ∧ entry = ⟨frameId, [], true⟩ := by
  induction count with
  | zero => cases found
  | succ count ih =>
    rw [rebuiltFrames_succ, addFrame] at found
    cases active : keyed engine count with
    | none =>
      rw [active] at found
      obtain ⟨frameId, earlier, holds⟩ := ih found
      exact ⟨frameId, by omega, holds⟩
    | some other =>
      rw [active, entryAt_insert] at found
      split at found
      · rename_i same
        cases found
        exact ⟨count, by omega, same ▸ active, rfl⟩
      · obtain ⟨frameId, earlier, holds⟩ := ih found
        exact ⟨frameId, by omega, holds⟩

theorem rebuiltFrames_complete {count frameId : Nat} {id : RecordId} (inside : frameId < count)
    (active : keyed engine frameId = some id) :
    ∃ entry, (rebuiltFrames engine count).entryAt id = some entry := by
  induction count with
  | zero => omega
  | succ count ih =>
    rw [rebuiltFrames_succ, addFrame]
    by_cases last : frameId = count
    · rw [← last, active]
      exact ⟨_, (entryAt_insert _ _ _ _ _).trans (if_pos rfl)⟩
    · obtain ⟨entry, found⟩ := ih (by omega)
      cases keyed engine count with
      | none => exact ⟨entry, found⟩
      | some other =>
        by_cases same : id = other
        · exact ⟨_, (entryAt_insert _ _ _ _ _).trans (if_pos same)⟩
        · exact ⟨entry, (entryAt_insert _ _ _ _ _).trans ((if_neg same).trans found)⟩

/-- The vectors of a space that are attached to an entry. -/
def ownedVectors (engine : StoreEngine κ) (id : RecordId) (spaceId : Nat) (vectorIds : List Nat) :
    List (Nat × Nat) :=
  (vectorIds.filter fun vectorId =>
    engine.tables.vectors[vectorId]?.any fun row =>
      row.active ∧ row.spaceId = spaceId ∧ keyed engine row.owner = some id).map (spaceId, ·)

theorem entryAt_addVectors (identity : IdentityIndex) (spaceId : Nat) (vectorIds : List Nat)
    (id : RecordId) : (vectorIds.foldl (addVector engine spaceId) identity).entryAt id =
      (identity.entryAt id).map fun entry =>
        { entry with vectors := entry.vectors ++ ownedVectors engine id spaceId vectorIds } := by
  induction vectorIds generalizing identity with
  | nil => simp [ownedVectors]
  | cons vectorId rest ih =>
    rw [List.foldl_cons, ih]
    unfold addVector
    cases found : engine.tables.vectors[vectorId]? with
    | none => simp [ownedVectors, found]
    | some row =>
      dsimp only
      by_cases chosen : row.active = true ∧ row.spaceId = spaceId
      · rw [if_pos chosen]
        cases active : keyed engine row.owner with
        | none => simp [ownedVectors, found, active]
        | some owner =>
          dsimp only
          rw [pushVector, entryAt_adjust]
          by_cases same : id = owner
          · cases identity.entryAt id <;> simp [ownedVectors, found, active, chosen, same]
          · have different : ¬ owner = id := fun other => same other.symm
            simp [ownedVectors, found, active, same, different]
      · rw [if_neg chosen]
        have skipped : ¬ (row.active = true ∧ row.spaceId = spaceId ∧
            keyed engine row.owner = some id) := fun all => chosen ⟨all.1, all.2.1⟩
        simp [ownedVectors, found, skipped]

theorem entryAt_rebuild (engine : StoreEngine κ) (id : RecordId) :
    (rebuild engine).entryAt id =
      ((rebuiltFrames engine engine.tables.frames.length).entryAt id).map fun entry =>
        { entry with vectors := entry.vectors ++
          (List.range engine.tables.spaces.length).flatMap fun spaceId =>
            ownedVectors engine id spaceId (List.range engine.tables.vectors.length) } := by
  have spaces (identity : IdentityIndex) (spaceIds : List Nat) :
      (spaceIds.foldl (fun identity spaceId =>
        (List.range engine.tables.vectors.length).foldl (addVector engine spaceId) identity)
        identity).entryAt id = (identity.entryAt id).map fun entry =>
          { entry with vectors := entry.vectors ++ spaceIds.flatMap fun spaceId =>
            ownedVectors engine id spaceId (List.range engine.tables.vectors.length) } := by
    induction spaceIds generalizing identity with
    | nil => simp
    | cons spaceId rest ih =>
      rw [List.foldl_cons, ih, entryAt_addVectors]
      simp [Function.comp_def]
  exact spaces _ _

end IdentityIndex

end Valise
