import Valise.StoreCalls
import Valise.Identity

/-!
Schema docs: the declared fields of each collection, kept as frames of a collection of their own,
and how a declaration finds the doc before it.
-/

namespace Valise

open ByteLists Commands Command Outcomes

/-! ### Docs -/

def schemaDocVersion : UInt32 := 1

def kindText : String := "text"
def kindVector : String := "vector"

/-- The spec stays a JSON value of type `ν`; typed views parse it on demand. -/
structure FieldDoc (ν : Type) where
  name : String
  kind : String
  space : String
  spec : Option ν
deriving DecidableEq

structure SchemaDoc (ν : Type) where
  valiseSchema : UInt32
  fields : List (FieldDoc ν)
deriving DecidableEq

structure TextSpecDoc where
  lang : String
deriving DecidableEq

inductive CodecDoc where
  | qam (ampBits phaseBits : UInt8)
  | upq (cells : UInt32) (design : String)
  | prebuilt (paramsFamily paramsHex : String)
deriving DecidableEq

inductive CalibrateDoc where
  | auto (sample : UInt64)
  | now
deriving DecidableEq

structure VectorSpecDoc where
  dim : UInt32
  metric : String
  codec : CodecDoc
  calibrate : CalibrateDoc
deriving DecidableEq

/-- The JSON library as the docs use it. -/
structure DocJson (ν : Type) where
  toVec : SchemaDoc ν → Result Bytes
  probe : Bytes → Result UInt32
  fromSlice : Bytes → Result (SchemaDoc ν)
  textSpec : ν → Option TextSpecDoc
  vectorSpec : ν → Option VectorSpecDoc
  toText : ν → String

/-- What was written is read back. -/
def DocJson.ReadsBack {ν : Type} (json : DocJson ν) : Prop :=
  ∀ doc bytes, json.toVec doc = .ok bytes →
    json.probe bytes = .ok doc.valiseSchema ∧ json.fromSlice bytes = .ok doc

section Docs

variable {ν : Type} [DecidableEq ν] (json : DocJson ν)

/-- A doc of an unknown version is no doc and no error. -/
def SchemaDoc.decode (bytes : Bytes) : Result (Option (SchemaDoc ν)) := do
  let version ← json.probe bytes
  if version ≠ schemaDocVersion then return none
  else do
    let doc ← json.fromSlice bytes
    return some doc

/-- Parsed specs are compared when both parse, so that unknown keys are ignored. -/
def fieldSame (first second : FieldDoc ν) : Bool :=
  if first.name ≠ second.name ∨ first.kind ≠ second.kind ∨ first.space ≠ second.space then false
  else
    match first.spec, second.spec with
    | none, none => true
    | some old, some new =>
        if first.kind = kindText then
          match json.textSpec old, json.textSpec new with
          | some old, some new => old = new
          | _, _ => old = new
        else if first.kind = kindVector then
          match json.vectorSpec old, json.vectorSpec new with
          | some old, some new => old = new
          | _, _ => old = new
        else old = new
    | _, _ => false

def specJson (field : FieldDoc ν) : String :=
  (field.spec.map json.toText).getD "null"

def fieldDiffDetail (place : Nat) (old new : FieldDoc ν) : String :=
  if old.name ≠ new.name then
    s!"field {place} was declared as '{old.name}', re-declared as '{new.name}'"
  else if old.kind ≠ new.kind then
    s!"field {place} ('{old.name}') was declared {old.kind}, re-declared as {new.kind}"
  else if old.space ≠ new.space then
    s!"field {place} ('{old.name}') was bound to space '{old.space}', re-declared on '{new.space}'"
  else
    s!"field {place} ('{old.name}') changed its {old.kind} spec: " ++
      s!"{specJson json old} → {specJson json new}"

/-- The error of a mismatch, by its text. -/
def schemaMismatch (coll detail : String) : Error :=
  .format s!"schema mismatch for collection '{coll}': {detail}"

def checkFieldPairs (coll : String) : Nat → List (FieldDoc ν × FieldDoc ν) → Result Unit
  | _, [] => return ()
  | place, (old, new) :: rest => do
      Outcome.ensure (fieldSame json old new = true)
        (schemaMismatch coll (fieldDiffDetail json place old new))
      checkFieldPairs coll (place + 1) rest

/-- Whether the docs are the same; the new one may also have more fields at its end. -/
def checkCompatible (coll : String) (old new : SchemaDoc ν) : Result Bool := do
  Outcome.ensure (old.fields.length ≤ new.fields.length) (schemaMismatch coll
    s!"re-declared with {new.fields.length} field(s), but {old.fields.length} are persisted")
  checkFieldPairs json coll 0 (old.fields.zip new.fields)
  return new.fields.length = old.fields.length

end Docs

/-! ### Doc frames -/

def schemaUriTag : UInt8 := 0xF5

def docUri (coll : String) : Bytes := schemaUriTag :: utf8 coll

def decodeDocUri : Bytes → Option String
  | [] => none
  | tag :: rest => if tag ≠ schemaUriTag then none else ofUtf8 rest

@[simp] theorem decodeDocUri_docUri (coll : String) : decodeDocUri (docUri coll) = some coll := by
  simp [decodeDocUri, docUri]

theorem docUri_of_decodeDocUri {uri : Bytes} {coll : String}
    (decoded : decodeDocUri uri = some coll) : uri = docUri coll := by
  cases uri with
  | nil => cases decoded
  | cons tag rest =>
      simp only [decodeDocUri] at decoded
      split at decoded
      · cases decoded
      · rename_i tagged
        rw [docUri, Key.utf8_of_ofUtf8 decoded, not_not.mp tagged]

theorem docUri_inj {first second : String} (same : docUri first = docUri second) :
    first = second := by
  have decoded := congrArg decodeDocUri same
  rw [decodeDocUri_docUri, decodeDocUri_docUri] at decoded
  exact Option.some.inj decoded

/-- Frames are named by values of type `φ`. -/
inductive DocSync (φ : Type) where
  | upToDate
  | write (replace : Option φ)
deriving DecidableEq

def laterDate (first second : Int64) : Int64 := if first.toInt < second.toInt then second else first

namespace StoreEngine

variable {κ ν : Type} [DecidableEq ν] (json : DocJson ν)

/-- Frames of users are in collections of other ids. -/
def schemaCollectionId : Nat := 0

/-- The active frames of the docs, in the order they entered. -/
def docFrames (engine : StoreEngine κ) : List Nat :=
  (List.range engine.tables.frames.length).filter fun frameId =>
    engine.tables.frames[frameId]?.any fun row =>
      row.active && row.collectionId = schemaCollectionId

def readPayload (engine : StoreEngine κ) (frameId : Nat) : Bytes :=
  (engine.tables.frames[frameId]?.map (·.payload)).getD []

/-- The first frame whose key can be read and names the collection. -/
def findDoc (engine : StoreEngine κ) (coll : String) : Result (Option (Nat × SchemaDoc ν)) :=
  match engine.docFrames.find? fun frameId => engine.readFrameUri frameId = some (docUri coll) with
  | none => return none
  | some frameId => do
      let doc ← SchemaDoc.decode json (engine.readPayload frameId)
      return doc.map (frameId, ·)

def loadDocs (engine : StoreEngine κ) : List Nat → Result (List (String × SchemaDoc ν))
  | [] => return []
  | frameId :: rest =>
      match (engine.readFrameUri frameId).bind decodeDocUri with
      | none => loadDocs engine rest
      | some coll => do
          let doc ← SchemaDoc.decode json (engine.readPayload frameId)
          let docs ← loadDocs engine rest
          return (doc.map (coll, ·)).toList ++ docs

def loadAll (engine : StoreEngine κ) : Result (List (String × SchemaDoc ν)) :=
  engine.loadDocs json engine.docFrames

def planSync (engine : StoreEngine κ) (coll : String) (newDoc : SchemaDoc ν) : Result (DocSync Nat) := do
  match ← engine.findDoc json coll with
  | none => return .write none
  | some (frameId, old) => do
      let same ← checkCompatible json coll old newDoc
      return if same then .upToDate else .write (some frameId)

/-- The youngest date of an active frame, and no date before 1970. -/
def watermark (engine : StoreEngine κ) : Int64 :=
  ((engine.tables.frames.filter (·.active)).map (·.createdAt)).foldl laterDate 0

def deleteReplaced : Option Nat → Call κ Unit
  | none => return ()
  | some frameId => deleteFrame frameId

/-- The new doc is dated after the doc that it replaces is gone. -/
def applySync (coll : String) (newDoc : SchemaDoc ν) : DocSync Nat → Call κ Unit
  | .upToDate => return ()
  | .write replace => do
      deleteReplaced replace
      let payload ← lift (json.toVec newDoc)
      let engine ← Command.get
      let _ ← putFrame {
        collectionId := schemaCollectionId
        createdAt := engine.watermark
        uri := some (docUri coll)
        payload := payload
        parent := none }
      return ()

end StoreEngine

end Valise
