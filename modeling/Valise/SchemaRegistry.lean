import Valise.SchemaSpecs
import Valise.SchemaDocRuns

/-!
The registry of spaces and collections that declarations change: spaces are defined by name, once,
deferred spaces are calibrated at a commit, and an open rebuilds the registry from the catalogs of
the file and the docs of its collections.
-/

namespace Valise

open ByteLists Commands Command Outcomes

namespace Declarations

/-! ### The registry -/

structure VectorSpaceEntry where
  dim : UInt32
  metric : Metric
  state : VecState CodecSpec

structure CollectionRecord (ν : Type) where
  collectionId : Nat
  shape : Option Shape
  doc : Option (SchemaDoc ν)

structure SchemaRegistry (ν : Type) where
  vectorSpaces : String → Option VectorSpaceEntry := fun _ => none
  textSpaces : String → Option Nat := fun _ => none
  collections : String → Option (CollectionRecord ν) := fun _ => none

namespace SchemaRegistry

variable {ν : Type} (registry : SchemaRegistry ν)

def insertVectorSpace (name : String) (entry : VectorSpaceEntry) : SchemaRegistry ν :=
  { registry with vectorSpaces := Function.update registry.vectorSpaces name (some entry) }

@[simp] theorem insertVectorSpace_self (name : String) (entry : VectorSpaceEntry) :
    (registry.insertVectorSpace name entry).vectorSpaces name = some entry :=
  Function.update_self ..

theorem insertVectorSpace_of_ne {name other : String} (apart : other ≠ name)
    (entry : VectorSpaceEntry) :
    (registry.insertVectorSpace name entry).vectorSpaces other = registry.vectorSpaces other :=
  Function.update_of_ne apart ..

def insertTextSpace (name : String) (textSpaceId : Nat) : SchemaRegistry ν :=
  { registry with textSpaces := Function.update registry.textSpaces name (some textSpaceId) }

def insertCollection (name : String) (record : CollectionRecord ν) : SchemaRegistry ν :=
  { registry with collections := Function.update registry.collections name (some record) }

@[simp] theorem insertCollection_self (name : String) (record : CollectionRecord ν) :
    (registry.insertCollection name record).collections name = some record :=
  Function.update_self ..

theorem insertCollection_of_ne {name other : String} (apart : other ≠ name)
    (record : CollectionRecord ν) :
    (registry.insertCollection name record).collections other = registry.collections other :=
  Function.update_of_ne apart ..

/-- The spaces that were just calibrated become ready. -/
def promote (newlyReady : List (String × Nat)) : SchemaRegistry ν :=
  { registry with vectorSpaces := fun name =>
      match newlyReady.lookup name with
      | some spaceId => (registry.vectorSpaces name).map fun entry =>
          { entry with state := .ready spaceId }
      | none => registry.vectorSpaces name }

end SchemaRegistry

/-! ### The file under it -/

/-- The engine's other columns of a space are not read at an open. -/
structure EmbeddingSpaceRow where
  embeddingSpaceId : Nat
  provider : String
  model : String
  dimension : UInt32
  metric : VectorMetric
deriving DecidableEq

structure TextSpaceRow where
  name : String
  analyzer : Lang
deriving DecidableEq

/-- Text spaces and collections are numbered by their place. -/
structure SchemaRows where
  embeddingSpaces : List EmbeddingSpaceRow := []
  textSpaces : List TextSpaceRow := []
  collections : List String := []
deriving DecidableEq

structure SchemaState (ν : Type) where
  engine : StoreEngine CodecParams := {}
  rows : SchemaRows := {}
  durableRows : SchemaRows := {}
  registry : SchemaRegistry ν := {}
  staged : List StagedVector := []

abbrev SchemaCall (ν α : Type) := Command (SchemaState ν) Error α

def provider : String := "valise-db"

def reservedPrefix : Char := '~'

section Calls

variable {ν : Type} (library : SchemaLibrary ν)

def onEngine {α : Type} (call : StoreEngine.Call CodecParams α) : SchemaCall ν α := fun state =>
  let (outcome, engine) := call state.engine
  (outcome, { state with engine })

def setRows (change : SchemaRows → SchemaRows) : SchemaCall ν Unit :=
  Command.modify fun state => { state with rows := change state.rows }

def setRegistry (change : SchemaRegistry ν → SchemaRegistry ν) : SchemaCall ν Unit :=
  Command.modify fun state => { state with registry := change state.registry }

def registerCodecFor (dim : UInt32) (spec : CodecSpec) (sample : List (List F32)) :
    SchemaCall ν Nat :=
  match spec with
  | .prebuilt params => onEngine (StoreEngine.registerCodec params)
  | .qam _ _ | .upq _ _ => do
      let params ← lift (library.fit dim spec sample)
      onEngine (StoreEngine.registerCodec params)

def registerEmbeddingSpace (name : String) (dim : UInt32) (metric : Metric) (codec : Nat) :
    SchemaCall ν Nat := do
  let spaceId ← onEngine (StoreEngine.registerSpace name dim.toNat codec)
  setRows fun rows => { rows with
    embeddingSpaces := rows.embeddingSpaces ++ [⟨spaceId, provider, name, dim, metric.toEngine⟩] }
  return spaceId

def registerTextSpace (name : String) (lang : Lang) : SchemaCall ν Nat := do
  onEngine (StoreEngine.fallible .registerSpace)
  let state ← Command.get
  setRows fun rows => { rows with textSpaces := rows.textSpaces ++ [⟨name, lang⟩] }
  return state.rows.textSpaces.length

def createCollection (name : String) : SchemaCall ν Nat := do
  onEngine (StoreEngine.fallible .registerSpace)
  let state ← Command.get
  setRows fun rows => { rows with collections := rows.collections ++ [name] }
  return state.rows.collections.length

/-! ### Definitions of spaces -/

/-- A sign sketch packs the dimensions into words of 64 bits. -/
def ensureSketchableDim (dim : UInt32) : Result Unit :=
  Outcome.ensure (dim ≠ 0 ∧ dim % 64 = 0) (.unsupported
    s!"vector space dimension must be a positive multiple of 64 (got {dim})")

def readySpace (name : String) (spec : VectorInline) (codec : Nat) :
    SchemaCall ν (VecState CodecSpec) := do
  let spaceId ← registerEmbeddingSpace name spec.dim spec.metric codec
  return .ready spaceId

def calibratedState (name : String) (spec : VectorInline) : SchemaCall ν (VecState CodecSpec) :=
  match spec.calibrate with
  | .auto sample => return .deferred (sampleTargetOf sample) spec.codec
  | .now sample => do
      let codec ← registerCodecFor library spec.dim spec.codec sample
      readySpace name spec codec

def newVectorState (name : String) (spec : VectorInline) : SchemaCall ν (VecState CodecSpec) :=
  match spec.codec with
  | .prebuilt params => do
      lift (Outcome.ensure (params.dimension = spec.dim) (.format
        s!"define_space: '{name}' dim {spec.dim} disagrees with prebuilt params dimension {params.dimension}"))
      let codec ← onEngine (StoreEngine.registerCodec params)
      readySpace name spec codec
  | .qam _ _ | .upq _ _ => calibratedState library name spec

def Metric.debug : Metric → String
  | .cosine => "Cosine"
  | .dot => "Dot"
  | .l2 => "L2"

/-- A space that is there keeps its codec and its sample size, whatever the spec says of them. -/
def defineVectorSpace (name : String) (spec : VectorInline) : SchemaCall ν Space := do
  let state ← Command.get
  match state.registry.vectorSpaces name with
  | some existing => do
      lift (Outcome.ensure (existing.dim = spec.dim) (.format
        s!"define_space: '{name}' already defined with dim {existing.dim} (got {spec.dim})"))
      lift (Outcome.ensure (existing.metric = spec.metric) (.format
        s!"define_space: '{name}' already defined with metric {existing.metric.debug} (got {spec.metric.debug})"))
      return ⟨name, .vector existing.dim⟩
  | none => do
      lift (ensureSketchableDim spec.dim)
      let vecState ← newVectorState library name spec
      setRegistry (·.insertVectorSpace name ⟨spec.dim, spec.metric, vecState⟩)
      return ⟨name, .vector spec.dim⟩

def defineTextSpace (name : String) (lang : Lang) : SchemaCall ν Space := do
  let state ← Command.get
  match state.registry.textSpaces name with
  | some _ => return ⟨name, .text⟩
  | none => do
      let textSpaceId ← registerTextSpace name lang
      setRegistry (·.insertTextSpace name textSpaceId)
      return ⟨name, .text⟩

def sharedDefinitionError (name : String) (space : Space) : Error :=
  .format s!"define_space: '{name}' cannot be defined from a binding to space '{space.name}'"

def defineSpace (name : String) (spec : FieldSpec) : SchemaCall ν Space := do
  lift (rejectReservedName "define_space: space" name)
  match spec with
  | .text (.inline lang) => defineTextSpace name lang
  | .text (.shared space) => lift (.err (sharedDefinitionError name space))
  | .vector binding misuse => do
      lift (checkMisuse "define_space" name misuse)
      match binding with
      | .inline spec => defineVectorSpace library name spec
      | .shared space => lift (.err (sharedDefinitionError name space))

/-! ### Declarations -/

def bindField (coll : String) (item : String × FieldSpec) : SchemaCall ν (String × Field) :=
  match item.2 with
  | .text (.inline lang) => do
      let space ← defineTextSpace (autoSpaceName coll item.1) lang
      return (item.1, .text space)
  | .text (.shared space) => return (item.1, .text space)
  | .vector (.inline spec) _ => do
      let space ← defineVectorSpace library (autoSpaceName coll item.1) spec
      return (item.1, .vector space)
  | .vector (.shared space) _ => return (item.1, .vector space)

def bindFields (coll : String) : List (String × FieldSpec) → SchemaCall ν (List (String × Field))
  | [] => return []
  | item :: rest => do
      let field ← bindField library coll item
      let fields ← bindFields coll rest
      return field :: fields

def bindSchema (coll : String) (schema : Schema) : SchemaCall ν Shape := do
  lift (validateSchema coll schema)
  let fields ← bindFields library coll schema.fields
  lift (Shape.validate ⟨fields⟩)
  return ⟨fields⟩

def ensureCollection (name : String) : SchemaCall ν Nat := do
  let state ← Command.get
  match state.registry.collections name with
  | some record => return record.collectionId
  | none => createCollection name

variable [DecidableEq ν]

/-- A declaration is compared with the doc of this process, or with the shape where there is none. -/
def checkPrevious (name : String) (schema : Schema) (doc : SchemaDoc ν) :
    Option (CollectionRecord ν) → Result Unit
  | none => return ()
  | some record =>
      match record.doc, record.shape with
      | some prev, _ => do
          let _ ← checkCompatible library.toDocJson name prev doc
          return ()
      | none, some existing => checkRedeclare name existing schema
      | none, none => return ()

def collection (name : String) (schema : Schema) : SchemaCall ν Nat := do
  lift (rejectReservedName "collection: collection" name)
  let doc ← lift (docOfSchema library name schema)
  let state ← Command.get
  lift (checkPrevious library name schema doc (state.registry.collections name))
  let plan ← lift (state.engine.planSync library.toDocJson name doc)
  let shape ← bindSchema library name schema
  let collectionId ← ensureCollection name
  onEngine (StoreEngine.applySync library.toDocJson name doc plan)
  setRegistry (·.insertCollection name ⟨collectionId, some shape, some doc⟩)
  return collectionId

omit [DecidableEq ν]

/-! ### Calibration at a commit -/

inductive SpacePlan where
  | ready (spaceId : Nat)
  | calib (dim : UInt32) (metric : Metric) (sampleTarget : Nat) (codec : CodecSpec)

def VectorSpaceEntry.plan (entry : VectorSpaceEntry) : SpacePlan :=
  match entry.state with
  | .ready spaceId => .ready spaceId
  | .deferred sampleTarget codec => .calib entry.dim entry.metric sampleTarget codec

def spacePlans (registry : SchemaRegistry ν) : List String → Result (List (String × SpacePlan))
  | [] => return []
  | name :: rest => do
      let entry ← required s!"commit: staged vectors for unknown space '{name}'"
        (registry.vectorSpaces name)
      let plans ← spacePlans registry rest
      return (name, entry.plan) :: plans

def sampleOf (staged : List StagedVector) (name : String) (sampleTarget : Nat) : List (List F32) :=
  ((staged.filter (·.spaceName = name)).take sampleTarget).map (·.values)

def calibrateSpace (calibrated : Writer.Calibrated) (item : String × SpacePlan) :
    SchemaCall ν Writer.Calibrated :=
  match item.2 with
  | .ready spaceId =>
      return { calibrated with resolved := calibrated.resolved ++ [(item.1, spaceId)] }
  | .calib dim metric sampleTarget codec => do
      let state ← Command.get
      let sample := sampleOf state.staged item.1 sampleTarget
      if sample = [] then return calibrated
      else do
        let codecId ← registerCodecFor library dim codec sample
        let spaceId ← registerEmbeddingSpace item.1 dim metric codecId
        return ⟨calibrated.resolved ++ [(item.1, spaceId)],
          calibrated.newlyReady ++ [(item.1, spaceId)]⟩

def putStaged (resolved : List (String × Nat)) (item : StagedVector) : SchemaCall ν Unit :=
  match resolved.lookup item.spaceName with
  | none => return ()
  | some spaceId => do
      let _ ← onEngine (StoreEngine.putVector item.ownerFrame spaceId item.values)
      return ()

def flushDeferred : SchemaCall ν Unit := do
  let state ← Command.get
  let plans ← lift (spacePlans state.registry (Writer.stagedNames state.staged))
  let calibrated ← foldEach plans {} (calibrateSpace library)
  forEach state.staged (putStaged calibrated.resolved)
  setRegistry (·.promote calibrated.newlyReady)
  Command.modify fun state => { state with staged := [] }

def flushStaged : SchemaCall ν Unit := do
  let state ← Command.get
  if state.staged = [] then return ()
  else flushDeferred library

def commit : SchemaCall ν Unit := do
  flushStaged library
  onEngine StoreEngine.commit
  Command.modify fun state => { state with durableRows := state.rows }

/-! ### Opening -/

def recoverVectorSpace (registry : SchemaRegistry ν) (row : EmbeddingSpaceRow) :
    SchemaRegistry ν :=
  if row.provider = provider then
    registry.insertVectorSpace row.model
      ⟨row.dimension, .fromEngine row.metric, .ready row.embeddingSpaceId⟩
  else registry

def recoverTextSpace (registry : SchemaRegistry ν) (item : TextSpaceRow × Nat) :
    SchemaRegistry ν :=
  registry.insertTextSpace item.1.name item.2

def recoverCollection (registry : SchemaRegistry ν) (item : String × Nat) : SchemaRegistry ν :=
  if item.1.toList.head? = some reservedPrefix then registry
  else registry.insertCollection item.1 ⟨item.2, none, none⟩

/-- What the catalogs of the file say of spaces and collections. -/
def recover (rows : SchemaRows) : SchemaRegistry ν :=
  let spaces := rows.embeddingSpaces.foldl recoverVectorSpace {}
  let texts := rows.textSpaces.zipIdx.foldl recoverTextSpace spaces
  rows.collections.zipIdx.foldl recoverCollection texts

/-- What restores a part of a doc stops where a part cannot be restored, and keeps what it changed. -/
abbrev Restore (ν α : Type) := Command (SchemaRegistry ν) Unit α

def orStop {α : Type} : Option α → Outcome Unit α
  | some value => .ok value
  | none => .err ()

def restoreDeferred (field : FieldDoc ν) : Restore ν (String × Field) := do
  let spec ← lift (orStop (field.spec.bind library.vectorSpec))
  let metric ← lift (orStop (metricFromStr spec.metric).toOption)
  let codec ← lift (orStop (toCodecSpec library spec.codec).toOption)
  Command.modify (·.insertVectorSpace field.space
    ⟨spec.dim, metric, .deferred (sampleTarget spec.calibrate) codec⟩)
  return (field.name, .vector ⟨field.space, .vector spec.dim⟩)

def restoreField (field : FieldDoc ν) : Restore ν (String × Field) := do
  let registry ← Command.get
  if field.kind = kindText then do
    let _ ← lift (orStop (registry.textSpaces field.space))
    return (field.name, .text ⟨field.space, .text⟩)
  else if field.kind = kindVector then
    match registry.vectorSpaces field.space with
    | some entry => return (field.name, .vector ⟨field.space, .vector entry.dim⟩)
    | none => restoreDeferred library field
  else lift (.err ())

def restoreFields : List (FieldDoc ν) → Restore ν (List (String × Field))
  | [] => return []
  | field :: rest => do
      let restored ← restoreField library field
      let fields ← restoreFields rest
      return restored :: fields

def shapeFromDoc (doc : SchemaDoc ν) : Restore ν Shape := do
  let fields ← restoreFields library doc.fields
  return ⟨fields⟩

def restoreDoc (registry : SchemaRegistry ν) (item : String × SchemaDoc ν) : SchemaRegistry ν :=
  match registry.collections item.1 with
  | none => registry
  | some record =>
      match shapeFromDoc library item.2 registry with
      | (.ok shape, restored) =>
          restored.insertCollection item.1 { record with shape := some shape, doc := some item.2 }
      | (_, restored) => restored

def rebuild (engine : StoreEngine CodecParams) (rows : SchemaRows) : Result (SchemaRegistry ν) := do
  let docs ← engine.loadAll library.toDocJson
  return docs.foldl (restoreDoc library) (recover rows)

/-- The file as the next process finds it, with the registry that it has. -/
def SchemaState.opened (state : SchemaState ν) (registry : SchemaRegistry ν) : SchemaState ν where
  engine := state.engine.reopen
  rows := state.durableRows
  durableRows := state.durableRows
  registry := registry

end Calls

end Declarations

end Valise
