import Valise.RecordTracking

/-!
When a put is refused because the version it replaces has vectors that are not committed: no other
step of a put fails with that error.
-/

namespace Valise

open ByteLists Commands Command Outcomes

/-- What the engine and the checks of a put report. -/
def Error.Supported (error : Error) : Prop := ∀ message, error ≠ .unsupported message

namespace StoreEngine

variable {κ : Type}

theorem ensure_supported {condition : Prop} [Decidable condition] {error : Error}
    (supported : error.Supported) :
    FailsOnlyWith Error.Supported (lift (Outcome.ensure condition error) : Call κ Unit) := by
  refine failsOnlyWith_lift fun other failed => ?_
  unfold Outcome.ensure at failed
  split at failed
  · cases failed
  · obtain rfl := Outcome.err.inj failed
    exact supported

theorem fallible_supported (point : StorePoint) :
    FailsOnlyWith Error.Supported (fallible (κ := κ) point) :=
  failsOnlyWith_bind failsOnlyWith_get fun _ => ensure_supported nofun

theorem setTables_supported (change : StoreTables κ → StoreTables κ) :
    FailsOnlyWith Error.Supported (setTables change) := failsOnlyWith_modify _

theorem flushFull_supported : FailsOnlyWith Error.Supported (flushFull (κ := κ)) := by
  refine failsOnlyWith_bind failsOnlyWith_get fun _ => failsOnlyWith_ite ?_ (failsOnlyWith_pure ())
  exact failsOnlyWith_bind (fallible_supported _) fun _ => failsOnlyWith_modify _

theorem putFrame_supported (row : FrameRow) :
    FailsOnlyWith Error.Supported (putFrame (κ := κ) row) := by
  refine failsOnlyWith_bind (fallible_supported _) fun _ => ?_
  refine failsOnlyWith_bind failsOnlyWith_get fun _ => ?_
  refine failsOnlyWith_bind (failsOnlyWith_modify _) fun _ => ?_
  exact failsOnlyWith_bind flushFull_supported fun _ => failsOnlyWith_pure _

theorem indexFrameText_supported (frameId textSpaceId : Nat) :
    FailsOnlyWith Error.Supported (indexFrameText (κ := κ) frameId textSpaceId) := by
  refine failsOnlyWith_bind failsOnlyWith_get fun _ => ?_
  refine failsOnlyWith_bind (ensure_supported nofun) fun _ => ?_
  exact failsOnlyWith_bind (fallible_supported _) fun _ => setTables_supported _

theorem putVector_supported (owner spaceId : Nat) (values : List F32) :
    FailsOnlyWith Error.Supported (putVector (κ := κ) owner spaceId values) := by
  refine failsOnlyWith_bind failsOnlyWith_get fun _ => ?_
  refine failsOnlyWith_bind (ensure_supported nofun) fun _ => ?_
  refine failsOnlyWith_bind (ensure_supported nofun) fun _ => ?_
  refine failsOnlyWith_bind (fallible_supported _) fun _ => ?_
  refine failsOnlyWith_bind (failsOnlyWith_modify _) fun _ => ?_
  exact failsOnlyWith_bind (fallible_supported _) fun _ => failsOnlyWith_pure _

theorem deleteVector_supported (vectorId : Nat) :
    FailsOnlyWith Error.Supported (deleteVector (κ := κ) vectorId) := by
  refine failsOnlyWith_bind failsOnlyWith_get fun _ => ?_
  refine failsOnlyWith_bind (ensure_supported nofun) fun _ => ?_
  exact failsOnlyWith_bind (ensure_supported nofun) fun _ => setTables_supported _

theorem deleteFrame_supported (frameId : Nat) :
    FailsOnlyWith Error.Supported (deleteFrame (κ := κ) frameId) := by
  refine failsOnlyWith_bind failsOnlyWith_get fun _ => ?_
  refine failsOnlyWith_bind (ensure_supported nofun) fun _ => ?_
  exact failsOnlyWith_bind (fallible_supported _) fun _ => setTables_supported _

end StoreEngine

namespace Writer

variable {κ γ : Type} {state : WriterState κ γ}

theorem onEngine_supported {α : Type} {call : StoreEngine.Call κ α}
    (supported : FailsOnlyWith Error.Supported call) :
    FailsOnlyWith Error.Supported (onEngine (γ := γ) call) :=
  fun state error failed => supported state.engine error failed

theorem indexText_supported (frameId : Nat) (textSpaceId : Option Nat) :
    FailsOnlyWith Error.Supported (indexText (κ := κ) (γ := γ) frameId textSpaceId) := by
  cases textSpaceId with
  | none => exact failsOnlyWith_pure ()
  | some textSpaceId => exact onEngine_supported (StoreEngine.indexFrameText_supported _ _)

theorem putReady_supported (frameId : Nat) (ready : List (Nat × List F32)) :
    FailsOnlyWith Error.Supported (putReady (κ := κ) (γ := γ) frameId ready) :=
  failsOnlyWith_foldEach (fun _ _ => failsOnlyWith_bind
    (onEngine_supported (StoreEngine.putVector_supported _ _ _)) fun _ => failsOnlyWith_pure _) _ _

theorem tombstonePrior_supported (existing : Option Entry) :
    FailsOnlyWith Error.Supported (tombstonePrior (κ := κ) (γ := γ) existing) := by
  cases existing with
  | none => exact failsOnlyWith_pure ()
  | some entry =>
      have frame : FailsOnlyWith Error.Supported
          (onEngine (κ := κ) (γ := γ) (StoreEngine.deleteFrame entry.frameId)) :=
        onEngine_supported (StoreEngine.deleteFrame_supported _)
      refine failsOnlyWith_ite (failsOnlyWith_bind ?_ fun _ => frame) frame
      exact failsOnlyWith_forEach (fun item : Nat × Nat =>
        onEngine_supported (StoreEngine.deleteVector_supported item.2)) _

theorem dropPrior_supported (existing : Option Entry) :
    FailsOnlyWith Error.Supported (dropPrior (κ := κ) (γ := γ) existing) := by
  cases existing with
  | none => exact failsOnlyWith_pure ()
  | some entry => exact failsOnlyWith_modify _

end Writer

/-! ### Checks -/

section Checks

variable {γ : Type} {error : Error}

theorem required_supported {α : Type} {message : String} {found : Option α}
    (failed : required message found = .err error) : error.Supported := by
  cases found with
  | none =>
      obtain rfl := Outcome.err.inj failed
      exact nofun
  | some value => cases failed

theorem ensure_format {condition : Prop} [Decidable condition] {message : String}
    (failed : Outcome.ensure condition (.format message) = .err error) : error.Supported := by
  unfold Outcome.ensure at failed
  split at failed
  · cases failed
  · obtain rfl := Outcome.err.inj failed
    exact nofun

theorem checkField_supported {coll : String} {shape : Shape} {item : String × Value}
    (failed : checkField coll shape item = .err error) : error.Supported := by
  rcases Outcome.bind_eq_err.mp failed with early | ⟨field, _, late⟩
  · exact required_supported early
  · obtain ⟨name, text | values⟩ := item
    · cases field with
      | text space => cases late
      | vector space dim =>
          obtain rfl := Outcome.err.inj late
          exact nofun
    · cases field with
      | text space =>
          obtain rfl := Outcome.err.inj late
          exact nofun
      | vector space dim =>
          rcases Outcome.bind_eq_err.mp late with dims | ⟨_, _, finite⟩
          · exact ensure_format dims
          · exact ensure_format finite

theorem checkFields_supported {coll : String} {shape : Shape} {fields : List (String × Value)}
    (failed : checkFields coll shape fields = .err error) : error.Supported := by
  induction fields with
  | nil => cases failed
  | cons item rest ih =>
      rcases Outcome.bind_eq_err.mp failed with early | ⟨_, _, late⟩
      · exact checkField_supported early
      · exact ih late

variable {schema : SchemaRegistry γ}

theorem planText_supported {shape : Shape} {record : Record}
    (failed : planText schema shape record = .err error) : error.Supported := by
  unfold planText at failed
  split at failed
  · rcases Outcome.bind_eq_err.mp failed with early | ⟨_, _, late⟩
    · exact required_supported early
    · cases late
  · cases failed

theorem planVectors_supported {shape : Shape} {plan : PutPlan}
    {items : List (String × List F32)}
    (failed : planVectors schema shape plan items = .err error) : error.Supported := by
  induction items generalizing plan with
  | nil => cases failed
  | cons item rest ih =>
      rcases Outcome.bind_eq_err.mp failed with early | ⟨middle, _, late⟩
      · unfold planVector at early
        split at early
        · rcases Outcome.bind_eq_err.mp early with unknown | ⟨entry, _, done⟩
          · exact required_supported unknown
          · split at done
            · cases done
            · cases done
        · obtain rfl := Outcome.err.inj early
          exact nofun
      · exact ih late

theorem resolvePlan_supported {coll : String} {record : Record}
    (failed : resolvePlan schema coll record = .err error) : error.Supported := by
  rcases Outcome.bind_eq_err.mp failed with unknown | ⟨entry, _, failed⟩
  · exact required_supported unknown
  rcases Outcome.bind_eq_err.mp failed with shapeless | ⟨shape, _, failed⟩
  · exact required_supported shapeless
  rcases Outcome.bind_eq_err.mp failed with fields | ⟨_, _, failed⟩
  · exact checkFields_supported fields
  rcases Outcome.bind_eq_err.mp failed with text | ⟨_, _, vectors⟩
  · exact planText_supported text
  · exact planVectors_supported vectors

theorem Writer.parentFrame_supported {identity : IdentityIndex} {coll : String}
    {collectionId : Nat} {parent : Option Key}
    (failed : Writer.parentFrame identity coll collectionId parent = .err error) :
    error.Supported := by
  cases parent with
  | none => cases failed
  | some key =>
      rcases Outcome.bind_eq_err.mp failed with missing | ⟨_, _, done⟩
      · exact required_supported missing
      · cases done

end Checks

/-! ### Refusals -/

def uncommittedKey : String :=
  "put: cannot update a key whose vectors are not yet committed; commit() first"

/-- The writer holds a version of the key with vectors that are not committed. -/
def WriterState.HoldsUncommitted {κ γ : Type} (writer : WriterState κ γ) (coll : String) (key : Key) :
    Prop :=
  ∃ record entry, writer.schema.collections.lookup coll = some record ∧
    writer.identity.get record.collectionId key.encode = some entry ∧
    entry.committed = false ∧ entry.vectors ≠ []

/-- The record fits the collection and its parent is there. -/
def WriterState.Accepts {κ γ : Type} (writer : WriterState κ γ) (coll : String) (record : Record) :
    Prop :=
  ∃ plan parent, resolvePlan writer.schema coll record = .ok plan ∧
    Writer.parentFrame writer.identity coll plan.collectionId record.parent = .ok parent

section Refusals

variable {κ γ : Type} {state : WriterState κ γ} {coll : String} {key : Key} {record : Record}
  {now : Int64}

theorem Writer.checkReplaceable_eq_err {message : String} {existing : Option Entry}
    {error : Error} : Writer.checkReplaceable message existing = .err error ↔
      error = .unsupported message ∧
        ∃ entry, existing = some entry ∧ entry.committed = false ∧ entry.vectors ≠ [] := by
  cases existing with
  | none =>
      constructor
      · intro failed
        cases failed
      · rintro ⟨_, entry, none, _⟩
        cases none
  | some entry =>
      change Outcome.ensure (entry.committed = true ∨ entry.vectors = []) _ = _ ↔ _
      unfold Outcome.ensure
      by_cases replaceable : entry.committed = true ∨ entry.vectors = []
      · rw [if_pos replaceable]
        constructor
        · intro failed
          cases failed
        · rintro ⟨_, held, same, waits, vectors⟩
          obtain rfl := Option.some.inj same
          rcases replaceable with committed | empty
          · rw [committed] at waits
            cases waits
          · exact absurd empty vectors
      · rw [if_neg replaceable]
        obtain ⟨waits, vectors⟩ := not_or.mp replaceable
        constructor
        · intro failed
          exact ⟨(Outcome.err.inj failed).symm, entry, rfl, by simpa using waits, vectors⟩
        · rintro ⟨rfl, _⟩
          rfl

/-- A put is refused exactly when it gets as far as the version it replaces, and that version has
vectors that are not committed. -/
theorem Writer.put_refused :
    (Writer.put coll key record now state).1 = .err (.unsupported uncommittedKey) ↔
      state.Accepts coll record ∧ state.HoldsUncommitted coll key := by
  have unsupported : ¬(Error.unsupported uncommittedKey).Supported := fun supported =>
    supported uncommittedKey rfl
  have later (plan : PutPlan) (parent : Option Nat) (existing : Option Entry) :
      FailsOnlyWith Error.Supported (do
        let frameId ← onEngine
          (StoreEngine.putFrame (recordRow record plan.collectionId key.encode parent now))
        indexText frameId plan.textSpaceId
        let vectors ← putReady frameId plan.ready
        tombstonePrior existing
        dropPrior existing
        Command.modify fun state => { state with
          staged := state.staged ++ plan.deferred.map fun item =>
            ⟨item.1, plan.collectionId, key.encode, frameId, item.2⟩
          identity := state.identity.insert plan.collectionId key.encode
            ⟨frameId, vectors, false⟩ } : WriterCall κ γ Unit) := by
    refine failsOnlyWith_bind (onEngine_supported (StoreEngine.putFrame_supported _)) fun _ => ?_
    refine failsOnlyWith_bind (indexText_supported _ _) fun _ => ?_
    refine failsOnlyWith_bind (putReady_supported _ _) fun _ => ?_
    refine failsOnlyWith_bind (tombstonePrior_supported _) fun _ => ?_
    exact failsOnlyWith_bind (dropPrior_supported _) fun _ => failsOnlyWith_modify _
  constructor
  · intro failed
    rcases bind_eq_err.mp failed with nothing | ⟨_, _, read, failed⟩
    · cases nothing
    obtain ⟨rfl, rfl⟩ := get_eq_ok.mp read
    rcases bind_eq_err.mp failed with unplanned | ⟨plan, _, read, failed⟩
    · exact absurd (resolvePlan_supported unplanned) unsupported
    obtain ⟨planned, rfl⟩ := lift_eq_ok.mp read
    rcases bind_eq_err.mp failed with orphan | ⟨parent, _, looked, failed⟩
    · exact absurd (parentFrame_supported orphan) unsupported
    obtain ⟨parented, rfl⟩ := lift_eq_ok.mp looked
    rcases bind_eq_err.mp failed with refused | ⟨_, middle, _, failed⟩
    · obtain ⟨_, entry, found, waits⟩ := checkReplaceable_eq_err.mp refused
      obtain ⟨shape, plans⟩ := resolvePlan_ok planned
      exact ⟨⟨plan, parent, planned, parented⟩, _, entry,
        SchemaRegistry.bound_eq_some.mp plans.bound, found, waits⟩
    · exact absurd (later _ _ _ _ _ failed) unsupported
  · rintro ⟨⟨plan, parent, planned, parented⟩, entry, held, known, found, waits⟩
    obtain ⟨shape, plans⟩ := resolvePlan_ok planned
    obtain rfl := Option.some.inj (known.symm.trans (SchemaRegistry.bound_eq_some.mp plans.bound))
    have refused := @checkReplaceable_eq_err uncommittedKey
      (state.identity.get plan.collectionId key.encode) _ |>.mpr ⟨rfl, held, found, waits⟩
    refine bind_eq_err.mpr (.inr ⟨state, state, rfl, ?_⟩)
    refine bind_eq_err.mpr (.inr ⟨plan, state, lift_eq_ok.mpr ⟨planned, rfl⟩, ?_⟩)
    refine bind_eq_err.mpr (.inr ⟨parent, state, lift_eq_ok.mpr ⟨parented, rfl⟩, ?_⟩)
    exact bind_eq_err.mpr (.inl refused)

end Refusals

end Valise
