import Valise.RefusedPuts
import Valise.StoreRuns

/-!
The bulk loader: puts through a borrowed writer, committed in windows that end at a threshold or in
front of a repeated key.
-/

namespace Valise

open Commands Command Outcomes Runs Writer

/-- A put with an explicit date. -/
structure BulkPut where
  coll : String
  key : Key
  fields : List (String × Value)
  parent : Option Key := none
  createdAt : Int64

def BulkPut.record (item : BulkPut) : Record := ⟨item.fields, some item.createdAt, item.parent⟩

/-- What goes wrong in a call, and what the clock says. -/
structure CallEnv where
  faults : StorePoint → Bool := fun _ => false
  now : Int64 := 0

/-- A sequence of puts ends at the first that fails. -/
def inTurn {σ : Type} (call : CallEnv → BulkPut → Command σ Error Unit) :
    (Nat → CallEnv) → List BulkPut → Command σ Error Unit
  | _, [] => return ()
  | env, item :: rest => do
      call (env 0) item
      inTurn call (fun index => env (index + 1)) rest

/-- `seen` are the digests of the keys of the window. -/
structure Bulk (κ γ : Type) where
  writer : WriterState κ γ
  threshold : Nat
  pending : Nat := 0
  seen : List UInt64 := []

abbrev BulkCall (κ γ α : Type) := Command (Bulk κ γ) Error α

namespace Bulk

variable {κ γ : Type} (digest : String → Key → UInt64) (codecs : StoreCodecs κ γ)

def new (writer : WriterState κ γ) (threshold : Nat) : Bulk κ γ where
  writer := writer
  threshold := max threshold 1

def onWriter {α : Type} (call : WriterCall κ γ α) : BulkCall κ γ α := fun bulk =>
  let (outcome, writer) := call bulk.writer
  (outcome, { bulk with writer })

def flush : BulkCall κ γ Unit := do
  let bulk ← Command.get
  if bulk.pending = 0 then return ()
  else do
    onWriter (Writer.commit codecs)
    Command.modify fun bulk => { bulk with pending := 0, seen := [] }

/-- A repeated key ends the window. -/
def flushRepeated (coll : String) (key : Key) : BulkCall κ γ Unit := do
  let bulk ← Command.get
  if digest coll key ∈ bulk.seen then flush codecs else return ()

def flushFull : BulkCall κ γ Unit := do
  let bulk ← Command.get
  if bulk.threshold ≤ bulk.pending then flush codecs else return ()

def put (coll : String) (key : Key) (record : Record) (now : Int64) : BulkCall κ γ Unit := do
  flushRepeated digest codecs coll key
  onWriter (Writer.put coll key record now)
  Command.modify fun bulk =>
    { bulk with seen := bulk.seen ++ [digest coll key], pending := bulk.pending + 1 }
  flushFull codecs

/-- The environment of the next call. -/
def enter (faults : StorePoint → Bool) : BulkCall κ γ Unit :=
  Command.modify fun bulk =>
    { bulk with writer := { bulk.writer with engine := { bulk.writer.engine with faults } } }

def puts : (Nat → CallEnv) → List BulkPut → BulkCall κ γ Unit :=
  inTurn fun env item => do
    enter env.faults
    put digest codecs item.coll item.key item.record env.now

/-- The puts and the final flush. -/
def load (env : Nat → CallEnv) (items : List BulkPut) : BulkCall κ γ Unit := do
  puts digest codecs env items
  enter (env items.length).faults
  flush codecs

/-- After what comes in front of it, the writer's put fails with the uncommitted-key error. -/
def Refuses (env : CallEnv) (bulk : Bulk κ γ) (item : BulkPut) : Prop :=
  ∃ ready, (do
      enter env.faults
      flushRepeated digest codecs item.coll item.key : BulkCall κ γ Unit) bulk = (.ok (), ready) ∧
    (Writer.put item.coll item.key item.record env.now ready.writer).1 =
      .err (.unsupported uncommittedKey)

/-- The puts before an item return, and the put of the item fails with the uncommitted-key error. -/
def RefusedAt (writer : WriterState κ γ) (threshold : Nat) (env : Nat → CallEnv)
    (before : List BulkPut) (item : BulkPut) : Prop :=
  ∃ bulk, puts digest codecs env before (new writer threshold) = (.ok (), bulk) ∧
    Refuses digest codecs (env before.length) bulk item

/-- Two reads of a key agree on whether there is a record, and on its text, its date and which
fields it has. -/
def SameAnswer : Result (Option StoredRecord) → Result (Option StoredRecord) → Prop
  | .ok none, .ok none => True
  | .ok (some first), .ok (some second) => first.text = second.text ∧
      first.createdAt = second.createdAt ∧
      ∀ name, name ∈ first.vectors.map (·.1) ↔ name ∈ second.vectors.map (·.1)
  | .err first, .err second => first = second
  | .panic, .panic => True
  | _, _ => False

/-- No two thresholds can be told apart by a refused put or by what is in the store at the end. -/
def SizeIndependent (writer : WriterState κ γ) (items : List BulkPut) : Prop :=
  ∀ (first second : Nat) (firstEnv secondEnv : Nat → CallEnv),
    (∀ before item after, items = before ++ item :: after →
      (RefusedAt digest codecs writer first firstEnv before item ↔
        RefusedAt digest codecs writer second secondEnv before item)) ∧
    ∀ firstBulk secondBulk,
      load digest codecs firstEnv items (new writer first) = (.ok (), firstBulk) →
      load digest codecs secondEnv items (new writer second) = (.ok (), secondBulk) →
      ∀ coll key, SameAnswer (Reader.get codecs.lossy firstBulk.writer coll key)
        (Reader.get codecs.lossy secondBulk.writer coll key)

/-- The same puts, by the writer itself. -/
def writes : (Nat → CallEnv) → List BulkPut → WriterCall κ γ Unit :=
  inTurn fun env item => do
    Command.modify fun writer => { writer with engine := { writer.engine with faults := env.faults } }
    Writer.put item.coll item.key item.record env.now

/-- The writer gets as far as looking at the version that an item replaces. -/
def Reaches (writer : WriterState κ γ) (before : List BulkPut) (item : BulkPut) : Prop :=
  ∃ env state, writes env before writer = (.ok (), state) ∧ state.Accepts item.coll item.record

/-- No key of the first window but the first is one that the writer held uncommitted with vectors
when the loader was made, as far as the puts get. -/
def WindowFree (writer : WriterState κ γ) (items : List BulkPut) : Prop :=
  ∀ before item after, items = before ++ item :: after → before ≠ [] →
    ((before ++ [item]).map fun put => digest put.coll put.key).Nodup →
    Reaches writer before item → ¬writer.HoldsUncommitted item.coll item.key

end Bulk

end Valise
