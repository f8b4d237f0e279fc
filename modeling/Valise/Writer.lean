import Valise.Identity

/-!
The serialized writer and the reader of a store: records are put, deleted and read by key, and
vectors of spaces that are not calibrated yet are staged until a commit.
-/

namespace Valise

open ByteLists Commands Command Outcomes

/-! ### Schema -/

inductive Field where
  | text (space : String)
  | vector (space : String) (dim : Nat)
deriving DecidableEq

structure Shape where
  fields : List (String × Field)
deriving DecidableEq

namespace Shape

def textField (shape : Shape) : Option (String × String) :=
  shape.fields.findSome? fun item =>
    match item.2 with
    | .text space => some (item.1, space)
    | .vector _ _ => none

def vectorFields (shape : Shape) : List (String × String) :=
  shape.fields.filterMap fun item =>
    match item.2 with
    | .text _ => none
    | .vector space _ => some (item.1, space)

def field (shape : Shape) (name : String) : Option Field :=
  shape.fields.lookup name

end Shape

/-- A space that is not ready is calibrated at a commit, from its first staged vectors. -/
inductive VecState (γ : Type) where
  | ready (spaceId : Nat)
  | deferred (sampleTarget : Nat) (codec : γ)

structure VectorSpaceEntry (γ : Type) where
  dim : Nat
  state : VecState γ

structure CollectionRecord where
  collectionId : Nat
  shape : Option Shape

structure SchemaRegistry (γ : Type) where
  vectorSpaces : List (String × VectorSpaceEntry γ)
  textSpaces : List (String × Nat)
  collections : List (String × CollectionRecord)

namespace SchemaRegistry

variable {γ : Type}

def vectorSpaceId (schema : SchemaRegistry γ) (name : String) : Option Nat :=
  match schema.vectorSpaces.lookup name with
  | some ⟨_, .ready spaceId⟩ => some spaceId
  | _ => none

def textSpaceId (schema : SchemaRegistry γ) (name : String) : Option Nat :=
  schema.textSpaces.lookup name

/-- The spaces that were just calibrated become ready. -/
def promote (schema : SchemaRegistry γ) (newlyReady : List (String × Nat)) : SchemaRegistry γ :=
  { schema with vectorSpaces := schema.vectorSpaces.map fun (name, entry) =>
      match newlyReady.lookup name with
      | some spaceId => (name, { entry with state := .ready spaceId })
      | none => (name, entry) }

end SchemaRegistry

/-! ### Records -/

inductive Value where
  | text (text : String)
  | vector (values : List F32)
deriving DecidableEq

structure Record where
  fields : List (String × Value)
  createdAt : Option Int64 := none
  parent : Option Key := none
deriving DecidableEq

namespace Record

def textValue (record : Record) : Option String :=
  record.fields.findSome? fun item =>
    match item.2 with
    | .text text => some text
    | .vector _ => none

def vectorValues (record : Record) : List (String × List F32) :=
  record.fields.filterMap fun item =>
    match item.2 with
    | .text _ => none
    | .vector values => some (item.1, values)

end Record

structure StagedVector where
  spaceName : String
  collection : Nat
  keyBytes : Bytes
  ownerFrame : Nat
  values : List F32
deriving DecidableEq

structure PutPlan where
  collectionId : Nat
  textSpaceId : Option Nat
  ready : List (Nat × List F32)
  deferred : List (String × List F32)

section Plan

variable {γ : Type}

/-- The text is the error when there is no value. -/
def required {α : Type} (message : String) : Option α → Result α
  | some value => .ok value
  | none => .err (.format message)

def checkField (coll : String) (shape : Shape) (item : String × Value) : Result Unit := do
  let field ← required s!"put: field '{item.1}' is not in collection '{coll}'" (shape.field item.1)
  match field, item.2 with
  | .text _, .text _ => return ()
  | .vector _ dim, .vector values => do
      Outcome.ensure (dim = values.length) (.format
        s!"put: field '{item.1}' expects dim {dim}, got {values.length}")
      Outcome.ensure (values.all F32.isFinite = true) (.format
        s!"put: field '{item.1}' in collection '{coll}' has non-finite values (NaN/Inf)")
  | _, _ => .err (.format s!"put: field '{item.1}' kind does not match the shape")

def checkFields (coll : String) (shape : Shape) : List (String × Value) → Result Unit
  | [] => return ()
  | item :: rest => do
      checkField coll shape item
      checkFields coll shape rest

/-- The text space is resolved only when the shape has a text field and the record sets it. -/
def planText (schema : SchemaRegistry γ) (shape : Shape) (record : Record) : Result (Option Nat) :=
  match shape.textField, record.textValue with
  | some (_, space), some _ => do
      let id ← required s!"put: text space '{space}' not registered" (schema.textSpaceId space)
      return some id
  | _, _ => return none

/-- A vector goes to its space at once, or is staged while the space is deferred. -/
def planVector (schema : SchemaRegistry γ) (shape : Shape) (plan : PutPlan)
    (item : String × List F32) : Result PutPlan :=
  match shape.field item.1 with
  | some (.vector space _) => do
      let entry ← required s!"put: vector space '{space}' not registered"
        (schema.vectorSpaces.lookup space)
      match entry.state with
      | .ready spaceId => return { plan with ready := plan.ready ++ [(spaceId, item.2)] }
      | .deferred _ _ => return { plan with deferred := plan.deferred ++ [(space, item.2)] }
  | _ => .err (.format s!"put: field '{item.1}' is not a vector field")

def planVectors (schema : SchemaRegistry γ) (shape : Shape) :
    PutPlan → List (String × List F32) → Result PutPlan
  | plan, [] => return plan
  | plan, item :: rest => do
      let plan ← planVector schema shape plan item
      planVectors schema shape plan rest

def resolvePlan (schema : SchemaRegistry γ) (coll : String) (record : Record) : Result PutPlan := do
  let entry ← required s!"put: unknown collection '{coll}'" (schema.collections.lookup coll)
  let shape ← required (s!"put: collection '{coll}' has no shape in this process; " ++
    "call store.collection(name, shape) first") entry.shape
  checkFields coll shape record.fields
  let textSpaceId ← planText schema shape record
  planVectors schema shape ⟨entry.collectionId, textSpaceId, [], []⟩ record.vectorValues

end Plan

/-! ### The writer -/

/-- How a codec is fitted to a sample, and what is left of a vector in its codes. -/
structure StoreCodecs (κ γ : Type) where
  calibrate : Nat → γ → List (List F32) → Result κ
  lossy : κ → List F32 → List F32

/-- What a writer works on: the engine and the indexes are shared, only the staged vectors are its
own. -/
structure WriterState (κ γ : Type) where
  engine : StoreEngine κ
  schema : SchemaRegistry γ
  identity : IdentityIndex := {}
  staged : List StagedVector := []

abbrev WriterCall (κ γ α : Type) := Command (WriterState κ γ) Error α

namespace Writer

variable {κ γ : Type}

def onEngine {α : Type} (call : StoreEngine.Call κ α) : WriterCall κ γ α := fun state =>
  let (outcome, engine) := call state.engine
  (outcome, { state with engine })

def parentFrame (identity : IdentityIndex) (coll : String) (collectionId : Nat) :
    Option Key → Result (Option Nat)
  | none => return none
  | some key => do
      let entry ← required s!"put: parent key not found in collection '{coll}'"
        (identity.get collectionId key.encode)
      return some entry.frameId

/-- The prior version may not have vectors that are still uncommitted. -/
def checkReplaceable (message : String) : Option Entry → Result Unit
  | none => return ()
  | some entry =>
      Outcome.ensure (entry.committed = true ∨ entry.vectors = []) (.unsupported message)

def tombstoneVersion (entry : Entry) : WriterCall κ γ Unit := do
  if entry.committed then
    forEach entry.vectors fun item => onEngine (StoreEngine.deleteVector item.2)
    onEngine (StoreEngine.deleteFrame entry.frameId)
  else onEngine (StoreEngine.deleteFrame entry.frameId)

def tombstonePrior : Option Entry → WriterCall κ γ Unit
  | none => return ()
  | some entry => tombstoneVersion entry

def putReady (frameId : Nat) (ready : List (Nat × List F32)) : WriterCall κ γ (List (Nat × Nat)) :=
  foldEach ready [] fun vectors item => do
    let vectorId ← onEngine (StoreEngine.putVector frameId item.1 item.2)
    return vectors ++ [(item.1, vectorId)]

def indexText (frameId : Nat) : Option Nat → WriterCall κ γ Unit
  | none => return ()
  | some textSpaceId => onEngine (StoreEngine.indexFrameText frameId textSpaceId)

def dropStaged (frameId : Nat) : WriterCall κ γ Unit :=
  Command.modify fun state =>
    { state with staged := state.staged.filter (·.ownerFrame ≠ frameId) }

def dropPrior : Option Entry → WriterCall κ γ Unit
  | none => return ()
  | some entry => dropStaged entry.frameId

def recordRow (record : Record) (collectionId : Nat) (key : Bytes) (parent : Option Nat)
    (now : Int64) : FrameRow where
  collectionId := collectionId
  createdAt := record.createdAt.getD now
  uri := some key
  payload := (record.textValue.map utf8).getD []
  parent := parent

/-- The new version is appended before the prior one is tombstoned; `now` is the engine's clock. -/
def put (coll : String) (key : Key) (record : Record) (now : Int64) : WriterCall κ γ Unit := do
  let state ← Command.get
  let plan ← lift (resolvePlan state.schema coll record)
  let existing := state.identity.get plan.collectionId key.encode
  let parent ← lift (parentFrame state.identity coll plan.collectionId record.parent)
  lift (checkReplaceable
    "put: cannot update a key whose vectors are not yet committed; commit() first" existing)
  let frameId ← onEngine
    (StoreEngine.putFrame (recordRow record plan.collectionId key.encode parent now))
  indexText frameId plan.textSpaceId
  let vectors ← putReady frameId plan.ready
  tombstonePrior existing
  dropPrior existing
  Command.modify fun state => { state with
    staged := state.staged ++ plan.deferred.map fun item =>
      ⟨item.1, plan.collectionId, key.encode, frameId, item.2⟩
    identity := state.identity.insert plan.collectionId key.encode ⟨frameId, vectors, false⟩ }

def delete (coll : String) (key : Key) : WriterCall κ γ Bool := do
  let state ← Command.get
  let record ← lift (required s!"delete: unknown collection '{coll}'"
    (state.schema.collections.lookup coll))
  match state.identity.get record.collectionId key.encode with
  | none => return false
  | some entry => do
      lift (checkReplaceable
        "delete: cannot remove a key whose vectors are not yet committed; commit() first"
        (some entry))
      tombstoneVersion entry
      dropStaged entry.frameId
      Command.modify fun state =>
        { state with identity := state.identity.remove record.collectionId key.encode }
      return true

/-! ### Deferred calibration -/

def stagedNames : List StagedVector → List String
  | [] => []
  | item :: rest => item.spaceName :: (stagedNames rest).filter (· ≠ item.spaceName)

def spaceEntries (schema : SchemaRegistry γ) :
    List String → Result (List (String × VectorSpaceEntry γ))
  | [] => return []
  | name :: rest => do
      let entry ← required s!"commit: staged vectors for unknown space '{name}'"
        (schema.vectorSpaces.lookup name)
      let entries ← spaceEntries schema rest
      return (name, entry) :: entries

/-- The spaces that staged vectors go to, and those of them that were registered just now. -/
structure Calibrated where
  resolved : List (String × Nat) := []
  newlyReady : List (String × Nat) := []

variable (codecs : StoreCodecs κ γ)

def calibrateSpace (calibrated : Calibrated) (item : String × VectorSpaceEntry γ) :
    WriterCall κ γ Calibrated := do
  match item.2.state with
  | .ready spaceId =>
      return { calibrated with resolved := calibrated.resolved ++ [(item.1, spaceId)] }
  | .deferred sampleTarget spec => do
      let state ← Command.get
      let sample := ((state.staged.filter (·.spaceName = item.1)).take sampleTarget).map (·.values)
      if sample = [] then return calibrated
      else do
        let codec ← lift (codecs.calibrate item.2.dim spec sample)
        let codecId ← onEngine (StoreEngine.registerCodec codec)
        let spaceId ← onEngine (StoreEngine.registerSpace item.1 item.2.dim codecId)
        return ⟨calibrated.resolved ++ [(item.1, spaceId)],
          calibrated.newlyReady ++ [(item.1, spaceId)]⟩

/-- The staged vectors with the spaces and the ids they got. -/
abbrev Pushes := List (StagedVector × Nat × Nat)

def putStaged (resolved : List (String × Nat)) (pushes : Pushes) (item : StagedVector) :
    WriterCall κ γ Pushes :=
  match resolved.lookup item.spaceName with
  | none => return pushes
  | some spaceId => do
      let vectorId ← onEngine (StoreEngine.putVector item.ownerFrame spaceId item.values)
      return pushes ++ [(item, spaceId, vectorId)]

def attach (identity : IdentityIndex) (pushes : Pushes) : IdentityIndex :=
  pushes.foldl (fun identity push =>
    identity.pushVector push.1.collection push.1.keyBytes push.2.1 push.2.2) identity

def flushDeferred : WriterCall κ γ Unit := do
  let state ← Command.get
  let entries ← lift (spaceEntries state.schema (stagedNames state.staged))
  let calibrated ← foldEach entries {} (calibrateSpace codecs)
  let pushes ← foldEach state.staged [] (putStaged calibrated.resolved)
  Command.modify fun state => { state with
    schema := state.schema.promote calibrated.newlyReady
    identity := attach state.identity pushes
    staged := [] }

def commit : WriterCall κ γ Unit := do
  let state ← Command.get
  if state.staged = [] then do
    onEngine StoreEngine.commit
    Command.modify fun state => { state with identity := state.identity.markAllCommitted }
  else do
    flushDeferred codecs
    onEngine StoreEngine.commit
    Command.modify fun state => { state with identity := state.identity.markAllCommitted }

end Writer

/-! ### The reader -/

structure StoredRecord where
  key : Key
  collection : String
  createdAt : Int64
  text : Option String
  vectors : List (String × List F32)
deriving DecidableEq

structure ResolvedFields where
  collectionId : Nat
  hasText : Bool
  vecFields : List (Nat × String)

namespace Reader

variable {κ γ : Type}

def resolveFields (schema : SchemaRegistry γ) (coll : String) : Result ResolvedFields := do
  let entry ← required s!"unknown collection '{coll}'" (schema.collections.lookup coll)
  let shape ← required
    s!"collection '{coll}' has no schema in this process; call collection(name, schema)" entry.shape
  return {
    collectionId := entry.collectionId
    hasText := shape.textField.isSome
    vecFields := shape.vectorFields.filterMap fun item =>
      (schema.vectorSpaceId item.2).map fun spaceId => (spaceId, item.1) }

def readText (hasText : Bool) (payload : Bytes) : Result (Option String) :=
  if hasText = false ∨ payload = [] then return none
  else do
    let text ← required "invalid utf-8 sequence" (ofUtf8 payload)
    return some text

/-- Vectors of spaces that no field of the collection is bound to are passed over. -/
def readVectors (lossy : κ → List F32 → List F32) (engine : StoreEngine κ)
    (vecFields : List (Nat × String)) : List (Nat × Nat) → Result (List (String × List F32))
  | [] => return []
  | item :: rest =>
      match vecFields.lookup item.1 with
      | none => readVectors lossy engine vecFields rest
      | some field => do
          let values ← engine.readVector lossy item.2
          let others ← readVectors lossy engine vecFields rest
          return (field, values) :: others

def materialize (lossy : κ → List F32 → List F32) (engine : StoreEngine κ) (key : Key)
    (coll : String) (entry : Entry) (fields : ResolvedFields) : Result StoredRecord := do
  let row ← required s!"unknown frame id: {entry.frameId}" engine.tables.frames[entry.frameId]?
  let text ← readText fields.hasText row.payload
  let vectors ← readVectors lossy engine fields.vecFields entry.vectors
  return ⟨key, coll, row.createdAt, text, vectors⟩

def get (lossy : κ → List F32 → List F32) (state : WriterState κ γ) (coll : String) (key : Key) :
    Result (Option StoredRecord) := do
  let fields ← resolveFields state.schema coll
  match state.identity.get fields.collectionId key.encode with
  | none => return none
  | some entry => do
      let stored ← materialize lossy state.engine key coll entry fields
      return some stored

def keys (state : WriterState κ γ) (coll : String) : Result (List Key) := do
  let fields ← resolveFields state.schema coll
  return (state.identity.committedKeys fields.collectionId).filterMap Key.decode

end Reader

end Valise
