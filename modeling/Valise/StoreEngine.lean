import Valise.Library.Command
import Valise.Engine

/-!
The engine as the store layer over it uses it: rows are kept by their place, a vector or a payload
waits in a buffer until it is flushed, and a commit makes the rows durable.
-/

namespace Valise

open ByteLists Commands Command Outcomes

structure FrameRow where
  collectionId : Nat
  createdAt : Int64
  uri : Option Bytes
  payload : Bytes
  parent : Option Nat
  active : Bool := true
deriving DecidableEq

/-- `stored` is lost when a batch that was taken for its flush fails. -/
structure VectorRow where
  owner : Nat
  spaceId : Nat
  values : List F32
  active : Bool := true
  stored : Bool := true
deriving DecidableEq

structure SpaceRow where
  model : String
  dim : Nat
  codecId : Nat
deriving DecidableEq

structure StoreTables (κ : Type) where
  frames : List FrameRow := []
  vectors : List VectorRow := []
  codecs : List κ := []
  spaces : List SpaceRow := []
  postings : List (Nat × Nat) := []
deriving DecidableEq

/-- Where a call of the engine may fail for reasons of its environment. -/
inductive StorePoint where
  | enterFrame
  | flushPayloads
  | indexText
  | enterVector (vectorId : Nat)
  | drainVectors (vectorId : Nat)
  | tombstoneFrame
  | registerCodec
  | instantiateCodec
  | registerSpace
  | commitStart
  | flushBatch (spaceId : Nat)
  | writeFooter
  | commitFsync
deriving DecidableEq

structure StoreEngine (κ : Type) where
  tables : StoreTables κ := {}
  durable : StoreTables κ := {}
  /-- Frames whose payload and key are still in the buffers. -/
  unflushed : List Nat := []
  buffered : Nat := 0
  /-- Vectors that wait in their batches. -/
  pending : List Nat := []
  faults : StorePoint → Bool := fun _ => false

namespace StoreTables

variable {κ : Type} (tables : StoreTables κ)

def tombstoneFrame (frameId : Nat) : StoreTables κ :=
  { tables with frames := tables.frames.modify frameId fun row => { row with active := false } }

def tombstoneVector (vectorId : Nat) : StoreTables κ :=
  { tables with vectors := tables.vectors.modify vectorId fun row => { row with active := false } }

def loseVector (vectorId : Nat) : StoreTables κ :=
  { tables with vectors := tables.vectors.modify vectorId fun row => { row with stored := false } }

def activeFrame (frameId : Nat) : Bool :=
  tables.frames[frameId]?.any (·.active)

def activeVector (vectorId : Nat) : Bool :=
  tables.vectors[vectorId]?.any (·.active)

end StoreTables

namespace StoreEngine

variable {κ : Type}

abbrev Call (κ α : Type) := Command (StoreEngine κ) Error α

def fallible (point : StorePoint) : Call κ Unit := do
  let engine ← Command.get
  lift (Outcome.ensure (engine.faults point = false) .io)

def setTables (change : StoreTables κ → StoreTables κ) : Call κ Unit :=
  Command.modify fun engine => { engine with tables := change engine.tables }

def flush (engine : StoreEngine κ) : StoreEngine κ :=
  { engine with unflushed := [], buffered := 0 }

/-- A full buffer is flushed at once. -/
def flushFull : Call κ Unit := do
  let engine ← Command.get
  if payloadBatchFlushBytes ≤ engine.buffered then do
    fallible .flushPayloads
    Command.modify flush
  else return ()

def putFrame (row : FrameRow) : Call κ Nat := do
  fallible .enterFrame
  let engine ← Command.get
  let frameId := engine.tables.frames.length
  Command.modify fun engine => { engine with
    tables := { engine.tables with frames := engine.tables.frames ++ [row] }
    unflushed := engine.unflushed ++ [frameId]
    buffered := engine.buffered + row.payload.length }
  flushFull
  return frameId

def indexFrameText (frameId textSpaceId : Nat) : Call κ Unit := do
  let engine ← Command.get
  lift (Outcome.ensure (engine.tables.activeFrame frameId = true) (.format
    s!"index_frame_text: frame {frameId} is not Active"))
  fallible .indexText
  setTables fun tables => { tables with postings := tables.postings ++ [(frameId, textSpaceId)] }

def putVector (owner spaceId : Nat) (values : List F32) : Call κ Nat := do
  let engine ← Command.get
  lift (Outcome.ensure (engine.tables.activeFrame owner = true) (.format
    s!"put_vector: frame {owner} is not active"))
  lift (Outcome.ensure (engine.tables.spaces[spaceId]?.any (·.dim = values.length) = true) (.format
    s!"put_vector: unknown embedding_space_id {spaceId} or dimension mismatch"))
  let vectorId := engine.tables.vectors.length
  fallible (.enterVector vectorId)
  Command.modify fun engine => { engine with
    tables := { engine.tables with
      vectors := engine.tables.vectors ++ [{ owner, spaceId, values }] }
    pending := engine.pending ++ [vectorId] }
  fallible (.drainVectors vectorId)
  return vectorId

def deleteVector (vectorId : Nat) : Call κ Unit := do
  let engine ← Command.get
  lift (Outcome.ensure (vectorId ∉ engine.pending) (.format
    s!"delete_vector: vector {vectorId} is uncommitted; call commit() first"))
  lift (Outcome.ensure (engine.tables.activeVector vectorId = true) (.format
    s!"delete_vector: unknown active vector_id {vectorId}"))
  setTables (·.tombstoneVector vectorId)

def deleteFrame (frameId : Nat) : Call κ Unit := do
  let engine ← Command.get
  lift (Outcome.ensure (engine.tables.activeFrame frameId = true) (.format
    s!"unknown active frame id: {frameId}"))
  fallible .tombstoneFrame
  setTables (·.tombstoneFrame frameId)

/-- The row of the codec is in the catalog before its parameters are instantiated. -/
def registerCodec (codec : κ) : Call κ Nat := do
  fallible .registerCodec
  let engine ← Command.get
  setTables fun tables => { tables with codecs := tables.codecs ++ [codec] }
  fallible .instantiateCodec
  return engine.tables.codecs.length

def registerSpace (model : String) (dim codecId : Nat) : Call κ Nat := do
  fallible .registerSpace
  let engine ← Command.get
  setTables fun tables => { tables with spaces := tables.spaces ++ [⟨model, dim, codecId⟩] }
  return engine.tables.spaces.length

/-- The vectors of one space that wait. -/
def batch (engine : StoreEngine κ) (spaceId : Nat) : List Nat :=
  engine.pending.filter fun vectorId => engine.tables.vectors[vectorId]?.any (·.spaceId = spaceId)

/-- The batch is taken first; when its flush fails its vectors are gone. -/
def flushBatch (spaceId : Nat) : Call κ Unit := do
  let engine ← Command.get
  let taken := engine.batch spaceId
  Command.modify fun engine => { engine with pending := engine.pending.filter (· ∉ taken) }
  if taken ≠ [] ∧ engine.faults (.flushBatch spaceId) then do
    setTables fun tables => taken.foldl StoreTables.loseVector tables
    lift (.err .io)
  else return ()

def commit : Call κ Unit := do
  fallible .commitStart
  Command.modify flush
  let engine ← Command.get
  forEach (List.range engine.tables.spaces.length) flushBatch
  fallible .writeFooter
  Command.modify fun engine => { engine with durable := engine.tables }
  fallible .commitFsync

def readVector (lossy : κ → List F32 → List F32) (engine : StoreEngine κ) (vectorId : Nat) :
    Result (List F32) := do
  Outcome.ensure (vectorId ∉ engine.pending) (.format
    s!"read_vector: vector {vectorId} not yet committed")
  match engine.tables.vectors[vectorId]? with
  | none => .err (.format s!"read_vector: unknown vector_id {vectorId}")
  | some row => do
      Outcome.ensure (row.active = true) (.format s!"read_vector: vector {vectorId} is tombstoned")
      Outcome.ensure (row.stored = true) (.integrity "read_vector: data segment not in registry")
      match (engine.tables.spaces[row.spaceId]?).bind fun space =>
          engine.tables.codecs[space.codecId]? with
      | none => .err (.integrity "read_vector: codec not in cache")
      | some codec => return lossy codec row.values

/-- A key that still waits in its buffer is not read. -/
def readFrameUri (engine : StoreEngine κ) (frameId : Nat) : Option Bytes :=
  if frameId ∈ engine.unflushed then none
  else engine.tables.frames[frameId]?.bind (·.uri)

/-- Closing drops what waits; an open finds what the last commit made durable. -/
def reopen (engine : StoreEngine κ) : StoreEngine κ where
  tables := engine.durable
  durable := engine.durable

end StoreEngine

end Valise
