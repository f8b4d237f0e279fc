import Valise.WriterCalls

/-!
What the rows, the index and the staged vectors hold of the records that were put: every entry of a
key leads to the rows of its record, and a vector is a row or is still staged.
-/

namespace Valise

open ByteLists Commands Command Outcomes

/-! ### Schemas -/

def Shape.vectorSpaces (shape : Shape) : List String := shape.vectorFields.map (·.2)

/-- What `validate` demands of a shape. -/
structure Shape.Valid (shape : Shape) : Prop where
  names : (shape.fields.map (·.1)).Nodup
  spaces : shape.vectorSpaces.Nodup
  text : (shape.fields.filter fun item =>
    match item.2 with
    | .text _ => true
    | .vector _ _ => false).length ≤ 1

namespace SchemaRegistry

variable {κ γ : Type}

/-- The id and the shape of a collection that has one in this process. -/
def bound (schema : SchemaRegistry γ) (coll : String) : Option (Nat × Shape) := do
  let record ← schema.collections.lookup coll
  let shape ← record.shape
  return (record.collectionId, shape)

/-- What holds of every registry over an engine with so many embedding spaces. -/
structure Sound (schema : SchemaRegistry γ) (spaceCount : Nat) : Prop where
  ready : ∀ name spaceId, schema.vectorSpaceId name = some spaceId → spaceId < spaceCount
  distinct : ∀ first second spaceId, schema.vectorSpaceId first = some spaceId →
    schema.vectorSpaceId second = some spaceId → first = second
  sampled : ∀ name dim sampleTarget codec,
    schema.vectorSpaces.lookup name = some ⟨dim, .deferred sampleTarget codec⟩ → 0 < sampleTarget
  shaped : ∀ coll collectionId shape, schema.bound coll = some (collectionId, shape) → shape.Valid
  apart : ∀ first second firstRecord secondRecord,
    schema.collections.lookup first = some firstRecord →
    schema.collections.lookup second = some secondRecord →
    firstRecord.collectionId = secondRecord.collectionId → first = second

theorem Sound.more {schema : SchemaRegistry γ} {spaceCount more : Nat} (sound : schema.Sound spaceCount)
    (grows : spaceCount ≤ more) : schema.Sound more :=
  { sound with ready := fun name spaceId found => (sound.ready name spaceId found).trans_le grows }

theorem vectorSpaceId_eq_some {schema : SchemaRegistry γ} {name : String} {spaceId : Nat} :
    schema.vectorSpaceId name = some spaceId ↔
      ∃ dim, schema.vectorSpaces.lookup name = some ⟨dim, .ready spaceId⟩ := by
  unfold vectorSpaceId
  rcases schema.vectorSpaces.lookup name with _ | ⟨dim, _ | _⟩ <;> simp

theorem bound_eq_some {schema : SchemaRegistry γ} {coll : String} {collectionId : Nat}
    {shape : Shape} : schema.bound coll = some (collectionId, shape) ↔
      schema.collections.lookup coll = some ⟨collectionId, some shape⟩ := by
  unfold bound
  rcases schema.collections.lookup coll with _ | ⟨_, _ | _⟩ <;> simp

theorem lookup_map (items : List (String × VectorSpaceEntry γ))
    (change : String → VectorSpaceEntry γ → VectorSpaceEntry γ) (name : String) :
    (items.map fun (name, entry) => (name, change name entry)).lookup name =
      (items.lookup name).map (change name) := by
  induction items with
  | nil => rfl
  | cons item rest ih =>
    rw [List.map_cons, List.lookup_cons, List.lookup_cons, ih]
    cases same : name == item.1 with
    | true => simp [eq_of_beq same]
    | false => rfl

theorem lookup_promote (schema : SchemaRegistry γ) (newlyReady : List (String × Nat))
    (name : String) : (schema.promote newlyReady).vectorSpaces.lookup name =
      (schema.vectorSpaces.lookup name).map fun entry =>
        match newlyReady.lookup name with
        | some spaceId => { entry with state := .ready spaceId }
        | none => entry := by
  rw [← lookup_map schema.vectorSpaces (fun name entry =>
    match newlyReady.lookup name with
    | some spaceId => { entry with state := .ready spaceId }
    | none => entry)]
  refine congrArg (List.lookup name) (List.map_congr_left fun item _ => ?_)
  obtain ⟨first, entry⟩ := item
  dsimp only
  cases newlyReady.lookup first <;> rfl

theorem vectorSpaceId_promote (schema : SchemaRegistry γ) (newlyReady : List (String × Nat))
    (name : String) : (schema.promote newlyReady).vectorSpaceId name =
      match newlyReady.lookup name with
      | some spaceId => (schema.vectorSpaces.lookup name).map fun _ => spaceId
      | none => schema.vectorSpaceId name := by
  unfold vectorSpaceId
  rw [lookup_promote]
  cases newlyReady.lookup name with
  | none => cases schema.vectorSpaces.lookup name <;> rfl
  | some spaceId => cases schema.vectorSpaces.lookup name <;> rfl

end SchemaRegistry

/-! ### What is held of a record -/

/-- A record as it was given to a put that succeeded. -/
structure Given where
  coll : String
  record : Record
deriving DecidableEq

/-- The vectors of a record, each with the space that its field is bound to. -/
def Shape.bind (shape : Shape) (record : Record) : List (String × List F32) :=
  record.vectorValues.filterMap fun item =>
    match shape.field item.1 with
    | some (.vector space _) => some (space, item.2)
    | _ => none

/-- The vectors of a frame that are still staged. -/
def waiting (staged : List StagedVector) (frameId : Nat) : List (String × List F32) :=
  (staged.filter (·.ownerFrame = frameId)).map fun item => (item.spaceName, item.values)

section Held

variable {κ γ : Type}

/-- A vector of a space is a row of that space's id. -/
def HoldsVector (schema : SchemaRegistry γ) (tables : StoreTables κ) (item : Nat × Nat)
    (vector : String × List F32) : Prop :=
  schema.vectorSpaceId vector.1 = some item.1 ∧
    ∃ row, tables.vectors[item.2]? = some row ∧ row.spaceId = item.1 ∧ row.values = vector.2

structure HoldsFrame (schema : SchemaRegistry γ) (tables : StoreTables κ) (frameId : Nat)
    (shape : Shape) (record : Record) : Prop where
  row : ∃ row, tables.frames[frameId]? = some row ∧
    (∀ time, record.createdAt = some time → row.createdAt = time) ∧
    row.payload = (record.textValue.map utf8).getD []
  posting : ∀ field space text, shape.textField = some (field, space) →
    record.textValue = some text → ∃ textSpaceId, schema.textSpaceId space = some textSpaceId ∧
      (frameId, textSpaceId) ∈ tables.postings

/-- The entry of a key leads to everything the record was given. -/
structure Describes (state : WriterState κ γ) (id : RecordId) (entry : Entry) (given : Given) :
    Prop where
  frame : ∃ shape, state.schema.bound given.coll = some (id.1, shape) ∧
    checkFields given.coll shape given.record.fields = .ok () ∧
    HoldsFrame state.schema state.engine.tables entry.frameId shape given.record ∧
    ∃ held, List.Forall₂ (HoldsVector state.schema state.engine.tables) entry.vectors held ∧
      (held ++ waiting state.staged entry.frameId).Perm (shape.bind given.record)

/-- The row of an entry's frame has the key of the entry. -/
def KeyedBy (tables : StoreTables κ) (id : RecordId) (frameId : Nat) : Prop :=
  ∃ row, tables.frames[frameId]? = some row ∧ row.collectionId = id.1 ∧ row.uri = some id.2

structure TracksRecords (state : WriterState κ γ) (given : RecordId → Option Given) : Prop where
  schema : state.schema.Sound state.engine.tables.spaces.length
  keyed : ∀ id entry, state.identity.entryAt id = some entry →
    KeyedBy state.engine.tables id entry.frameId
  described : ∀ id record, given id = some record →
    ∃ entry, state.identity.entryAt id = some entry ∧ Describes state id entry record
  staged : ∀ item ∈ state.staged, ∃ entry,
    state.identity.entryAt (item.collection, item.keyBytes) = some entry ∧
      entry.frameId = item.ownerFrame

theorem KeyedBy.grow {before after : StoreTables κ} {id : RecordId} {frameId : Nat}
    (grows : before.Grows after) (keyed : KeyedBy before id frameId) : KeyedBy after id frameId := by
  obtain ⟨row, found, same⟩ := keyed
  obtain ⟨active, there⟩ := grows.frames frameId row found
  exact ⟨_, there, same⟩

theorem KeyedBy.unique {tables : StoreTables κ} {first second : RecordId} {frameId : Nat}
    (one : KeyedBy tables first frameId) (other : KeyedBy tables second frameId) :
    first = second := by
  obtain ⟨row, found, collection, uri⟩ := one
  obtain ⟨_, again, collection', uri'⟩ := other
  obtain rfl := Option.some.inj (found.symm.trans again)
  exact Prod.ext (collection.symm.trans collection') (Option.some.inj (uri.symm.trans uri'))

theorem KeyedBy.lt {tables : StoreTables κ} {id : RecordId} {frameId : Nat}
    (keyed : KeyedBy tables id frameId) : frameId < tables.frames.length := by
  obtain ⟨row, found, _⟩ := keyed
  exact (List.getElem?_eq_some_iff.mp found).1

/-- A schema in which some spaces became ready. -/
structure SchemaRegistry.Ripens (before after : SchemaRegistry γ) : Prop where
  ready : ∀ name spaceId, before.vectorSpaceId name = some spaceId →
    after.vectorSpaceId name = some spaceId
  collections : after.collections = before.collections
  textSpaces : after.textSpaces = before.textSpaces

theorem SchemaRegistry.Ripens.refl (schema : SchemaRegistry γ) : schema.Ripens schema :=
  ⟨fun _ _ found => found, rfl, rfl⟩

theorem HoldsVector.grow {before after : StoreTables κ} {schema ripe : SchemaRegistry γ}
    {item : Nat × Nat} {vector : String × List F32} (grows : before.Grows after)
    (ripens : schema.Ripens ripe) (holds : HoldsVector schema before item vector) :
    HoldsVector ripe after item vector := by
  obtain ⟨ready, row, found, space, values⟩ := holds
  obtain ⟨_, _, there⟩ := grows.vectors item.2 row found
  exact ⟨ripens.ready _ _ ready, _, there, space, values⟩

theorem HoldsFrame.grow {before after : StoreTables κ} {schema ripe : SchemaRegistry γ}
    {frameId : Nat} {shape : Shape} {record : Record} (grows : before.Grows after)
    (ripens : schema.Ripens ripe) (holds : HoldsFrame schema before frameId shape record) :
    HoldsFrame ripe after frameId shape record where
  row := by
    obtain ⟨row, found, same⟩ := holds.row
    obtain ⟨active, there⟩ := grows.frames frameId row found
    exact ⟨_, there, same⟩
  posting := by
    intro field space text inShape set
    obtain ⟨textSpaceId, registered, posted⟩ := holds.posting field space text inShape set
    refine ⟨textSpaceId, ?_, grows.postings.subset posted⟩
    rwa [SchemaRegistry.textSpaceId, ripens.textSpaces]

/-- What is held stays so when rows are added and the staged vectors of the frame are the same. -/
theorem Describes.grow {before after : WriterState κ γ} {id : RecordId} {entry : Entry}
    {given : Given} (describes : Describes before id entry given)
    (grows : before.engine.tables.Grows after.engine.tables)
    (ripens : before.schema.Ripens after.schema)
    (staged : waiting after.staged entry.frameId = waiting before.staged entry.frameId) :
    Describes after id entry given := by
  obtain ⟨shape, bound, checked, frame, held, rows, whole⟩ := describes.frame
  refine ⟨shape, ?_, checked, frame.grow grows ripens, held, ?_, ?_⟩
  · rwa [SchemaRegistry.bound, ripens.collections]
  · exact rows.imp fun _ _ holds => holds.grow grows ripens
  · rwa [staged]

/-- Calls that fail touch rows only. -/
theorem TracksRecords.grow {before after : WriterState κ γ} {given : RecordId → Option Given}
    (tracks : TracksRecords before given) (untouched : before.Untouched after) :
    TracksRecords after given where
  schema := by
    rw [untouched.schema]
    exact tracks.schema.more untouched.grows.spaces.length_le
  keyed := by
    rw [untouched.identity]
    exact fun id entry found => (tracks.keyed id entry found).grow untouched.grows
  described := by
    intro id record was
    obtain ⟨entry, found, describes⟩ := tracks.described id record was
    refine ⟨entry, untouched.identity ▸ found, describes.grow untouched.grows ?_ ?_⟩
    · rw [untouched.schema]
      exact .refl _
    · rw [untouched.staged]
  staged := by
    rw [untouched.staged, untouched.identity]
    exact tracks.staged

end Held

/-! ### The plan of a put -/

section Plan

variable {κ γ : Type} {schema : SchemaRegistry γ} {shape : Shape} {coll : String} {record : Record}

/-- The space is calibrated. -/
def SchemaRegistry.isReady (schema : SchemaRegistry γ) (vector : String × List F32) : Bool :=
  (schema.vectorSpaceId vector.1).isSome

theorem planVectors_ok {plan planned : PutPlan} {items : List (String × List F32)}
    (done : planVectors schema shape plan items = .ok planned) :
    ∃ ready deferred bound, planned = { plan with
        ready := plan.ready ++ ready, deferred := plan.deferred ++ deferred } ∧
      bound = (items.filterMap fun item =>
        match shape.field item.1 with
        | some (.vector space _) => some (space, item.2)
        | _ => none) ∧
      List.Forall₂ (fun vector (bound : String × List F32) =>
        schema.vectorSpaceId bound.1 = some vector.1 ∧ bound.2 = vector.2) ready
          (bound.filter schema.isReady) ∧
      deferred = bound.filter fun vector => !schema.isReady vector := by
  induction items generalizing plan with
  | nil =>
    cases done
    exact ⟨[], [], [], by simp, rfl, .nil, rfl⟩
  | cons item rest ih =>
    obtain ⟨middle, first, others⟩ := Outcome.bind_eq_ok.mp done
    obtain ⟨ready, deferred, bound, rfl, rfl, rows, rest⟩ := ih others
    unfold planVector at first
    split at first
    · rename_i space dim found
      obtain ⟨entry, known, placed⟩ := Outcome.bind_eq_ok.mp first
      have known := Writer.required_eq_ok.mp known
      rw [List.filterMap_cons]
      simp only [found]
      rcases entry with ⟨entryDim, spaceId | ⟨sampleTarget, codec⟩⟩
      · cases placed
        have registered := SchemaRegistry.vectorSpaceId_eq_some.mpr ⟨entryDim, known⟩
        have calibrated : schema.isReady (space, item.2) = true := by
          simp [SchemaRegistry.isReady, registered]
        refine ⟨(spaceId, item.2) :: ready, deferred, _, by simp, rfl, ?_, ?_⟩
        · rw [List.filter_cons_of_pos calibrated]
          exact .cons ⟨registered, rfl⟩ rows
        · rw [List.filter_cons_of_neg (by simpa using calibrated)]
          exact rest
      · cases placed
        have uncalibrated : schema.isReady (space, item.2) = false := by
          simp [SchemaRegistry.isReady, SchemaRegistry.vectorSpaceId, known]
        refine ⟨ready, (space, item.2) :: deferred, _, by simp, rfl, ?_, ?_⟩
        · rw [List.filter_cons_of_neg (by simpa using uncalibrated)]
          exact rows
        · rw [List.filter_cons_of_pos (by simpa using uncalibrated)]
          exact congrArg _ rest
    · cases first

/-- Vectors of ready spaces and vectors that are staged are in the order of the record. -/
theorem resolvePlan_split {plan : PutPlan} (done : resolvePlan schema coll record = .ok plan) :
    ∃ shape, schema.bound coll = some (plan.collectionId, shape) ∧
      List.Forall₂ (fun vector (bound : String × List F32) =>
        schema.vectorSpaceId bound.1 = some vector.1 ∧ bound.2 = vector.2) plan.ready
          ((shape.bind record).filter schema.isReady) ∧
      plan.deferred = (shape.bind record).filter fun vector => !schema.isReady vector := by
  simp only [resolvePlan, Outcome.bind_eq_ok, Writer.required_eq_ok] at done
  obtain ⟨⟨collectionId, shape?⟩, known, shape, rfl, ⟨⟩, checked, textSpaceId, text, vectors⟩ := done
  obtain ⟨ready, deferred, bound, rfl, rfl, rows, rest⟩ := planVectors_ok vectors
  exact ⟨shape, SchemaRegistry.bound_eq_some.mpr known, rows, rest⟩

/-- What a plan that was resolved says of the schema and of the record. -/
structure Plans (schema : SchemaRegistry γ) (coll : String) (record : Record) (shape : Shape)
    (plan : PutPlan) : Prop where
  bound : schema.bound coll = some (plan.collectionId, shape)
  checked : checkFields coll shape record.fields = .ok ()
  text : ∀ field space text, shape.textField = some (field, space) →
    record.textValue = some text → ∃ textSpaceId, schema.textSpaceId space = some textSpaceId ∧
      plan.textSpaceId = some textSpaceId
  vectors : ∃ held, List.Forall₂ (fun vector (bound : String × List F32) =>
      schema.vectorSpaceId bound.1 = some vector.1 ∧ bound.2 = vector.2) plan.ready held ∧
    (held ++ plan.deferred).Perm (shape.bind record)

theorem resolvePlan_ok {plan : PutPlan} (done : resolvePlan schema coll record = .ok plan) :
    ∃ shape, Plans schema coll record shape plan := by
  simp only [resolvePlan, Outcome.bind_eq_ok, Writer.required_eq_ok] at done
  obtain ⟨⟨collectionId, shape?⟩, known, shape, rfl, ⟨⟩, checked, textSpaceId, text, vectors⟩ := done
  obtain ⟨ready, deferred, bound, rfl, rfl, rows, rest⟩ := planVectors_ok vectors
  refine ⟨shape, SchemaRegistry.bound_eq_some.mpr known, checked, ?_, _, rows, ?_⟩
  rotate_left
  · rw [List.nil_append, rest]
    exact List.filter_append_perm schema.isReady _
  intro field space value inShape set
  simp only [planText, inShape, set, Outcome.bind_eq_ok, Writer.required_eq_ok] at text
  obtain ⟨id, registered, same⟩ := text
  cases same
  exact ⟨id, registered, rfl⟩

end Plan

/-! ### Puts and deletes -/

section Calls

variable {κ γ : Type} {before after : WriterState κ γ} {given : RecordId → Option Given}

open Writer

theorem Writer.withdraw_grows (entry : Entry) (tables : StoreTables κ) :
    tables.Grows (withdraw entry tables) := by
  have vectors (items : List (Nat × Nat)) (tables : StoreTables κ) :
      tables.Grows (items.foldl (fun tables item => tables.tombstoneVector item.2) tables) := by
    induction items generalizing tables with
    | nil => exact .refl _
    | cons item rest ih => exact (StoreTables.Grows.tombstoneVector _ _).trans (ih _)
  unfold withdraw
  split
  · exact (vectors _ _).trans (.tombstoneFrame _ _)
  · exact .tombstoneFrame _ _

theorem Writer.withdrawPrior_grows (existing : Option Entry) (tables : StoreTables κ) :
    tables.Grows (withdrawPrior existing tables) := by
  cases existing with
  | none => exact .refl _
  | some entry => exact withdraw_grows entry tables

theorem Writer.enter_grows (row : FrameRow) (plan : PutPlan) (tables : StoreTables κ) :
    tables.Grows (enter row plan tables) where
  frames _ found := (StoreTables.Grows.addFrames tables [row]).frames _ found
  vectors _ found := (StoreTables.Grows.addVectors tables _).vectors _ found
  codecs := List.prefix_refl _
  spaces := List.prefix_refl _
  postings := List.prefix_append _ _

theorem Writer.enter_frame (row : FrameRow) (plan : PutPlan) (tables : StoreTables κ) :
    (enter row plan tables).frames[tables.frames.length]? = some row := by
  simp [enter]

/-- The vectors that a put hands to ready spaces are rows of those spaces. -/
theorem holds_readyIds {schema : SchemaRegistry γ} {tables : StoreTables κ} {base : Nat}
    (frameId : Nat) {ready : List (Nat × List F32)} {held : List (String × List F32)}
    (places : ∀ place row, (readyRows frameId ready)[place]? = some row →
      ∃ active stored, tables.vectors[base + place]? = some { row with active, stored })
    (rows : List.Forall₂ (fun vector (bound : String × List F32) =>
      schema.vectorSpaceId bound.1 = some vector.1 ∧ bound.2 = vector.2) ready held) :
    List.Forall₂ (HoldsVector schema tables) (readyIds base ready) held := by
  induction rows generalizing base with
  | nil => exact .nil
  | @cons vector bound rest held same _ ih =>
    obtain ⟨registered, values⟩ := same
    refine .cons ⟨registered, ?_⟩ (ih ?_)
    · obtain ⟨active, stored, found⟩ := places 0 _ rfl
      exact ⟨_, found, rfl, values.symm⟩
    · intro place row found
      have there := places (place + 1) row found
      rwa [Nat.add_comm place 1, ← Nat.add_assoc] at there

theorem waiting_keepStaged {existing : Option Entry} {staged : List StagedVector} {frameId : Nat}
    (apart : ∀ entry, existing = some entry → entry.frameId ≠ frameId) :
    waiting (keepStaged existing staged) frameId = waiting staged frameId := by
  cases existing with
  | none => rfl
  | some entry =>
    unfold waiting keepStaged
    rw [List.filter_filter]
    refine congrArg _ (List.filter_congr fun item _ => ?_)
    have different := apart entry rfl
    simp only [decide_eq_true_eq, Bool.and_eq_left_iff_imp]
    intro same
    simpa [same] using different.symm

theorem mem_keepStaged {existing : Option Entry} {staged : List StagedVector} {item : StagedVector}
    (member : item ∈ keepStaged existing staged) :
    item ∈ staged ∧ ∀ entry, existing = some entry → item.ownerFrame ≠ entry.frameId := by
  cases existing with
  | none => exact ⟨member, by simp⟩
  | some entry =>
    obtain ⟨there, apart⟩ := List.mem_filter.mp member
    refine ⟨there, ?_⟩
    rintro _ ⟨⟩
    simpa using apart

theorem waiting_append (first second : List StagedVector) (frameId : Nat) :
    waiting (first ++ second) frameId = waiting first frameId ++ waiting second frameId := by
  simp [waiting]

theorem waiting_eq_nil {staged : List StagedVector} {frameId : Nat}
    (apart : ∀ item ∈ staged, item.ownerFrame ≠ frameId) : waiting staged frameId = [] := by
  unfold waiting
  rw [List.filter_eq_nil_iff.mpr, List.map_nil]
  simpa using apart

/-- The frame and the ready vectors of a put are new rows. -/
theorem Writer.PutDone.entered {coll : String} {key : Key} {record : Record} {now : Int64}
    {plan : PutPlan} (done : PutDone coll key record now plan before after) :
    before.engine.tables.Grows after.engine.tables ∧
      (∃ parent active, after.engine.tables.frames[before.engine.tables.frames.length]? =
        some { recordRow record plan.collectionId key.encode parent now with active }) ∧
      (∀ textSpaceId, plan.textSpaceId = some textSpaceId →
        (before.engine.tables.frames.length, textSpaceId) ∈ after.engine.tables.postings) ∧
      ∀ held, List.Forall₂ (fun vector (bound : String × List F32) =>
        before.schema.vectorSpaceId bound.1 = some vector.1 ∧ bound.2 = vector.2) plan.ready held →
          List.Forall₂ (HoldsVector before.schema after.engine.tables)
            (readyIds before.engine.tables.vectors.length plan.ready) held := by
  obtain ⟨parent, rows⟩ := done.tables
  have entered := enter_grows
    (recordRow record plan.collectionId key.encode parent now) plan before.engine.tables
  have withdrawn := withdrawPrior_grows
    (before.identity.get plan.collectionId key.encode)
    (enter (recordRow record plan.collectionId key.encode parent now) plan before.engine.tables)
  have grows : before.engine.tables.Grows after.engine.tables := rows ▸ entered.trans withdrawn
  rw [← rows] at withdrawn
  obtain ⟨active, frame⟩ := withdrawn.frames _ _ (enter_frame _ _ _)
  refine ⟨grows, ⟨parent, active, frame⟩, fun textSpaceId planned => ?_, fun held spaces => ?_⟩
  · refine withdrawn.postings.subset ?_
    simp [enter, planned]
  · refine holds_readyIds before.engine.tables.frames.length ?_ spaces
    intro place row found
    refine withdrawn.vectors _ row ?_
    rw [← found]
    exact List.getElem?_append_right (Nat.le_add_right _ _) |>.trans (by simp)

/-- The deferred vectors of a put are staged for its frame, and those of other frames stay. -/
theorem TracksRecords.put_waiting {coll : String} {key : Key} {record : Record} {now : Int64}
    {plan : PutPlan} (tracks : TracksRecords before given)
    (done : PutDone coll key record now plan before after) :
    waiting after.staged before.engine.tables.frames.length = plan.deferred ∧
      ∀ id entry, id ≠ (plan.collectionId, key.encode) →
        before.identity.entryAt id = some entry →
          waiting after.staged entry.frameId = waiting before.staged entry.frameId := by
  -- Staged vectors belong to frames that were there before.
  have old : ∀ item ∈ keepStaged (before.identity.get plan.collectionId key.encode) before.staged,
      item.ownerFrame < before.engine.tables.frames.length := by
    intro item member
    obtain ⟨entry, found, same⟩ := tracks.staged item (mem_keepStaged member).1
    exact same ▸ (tracks.keyed _ entry found).lt
  constructor
  · rw [done.staged, waiting_append, waiting_eq_nil fun item member => (old item member).ne]
    simp [waiting, List.filter_map, Function.comp_def]
  · intro id entry same found
    have keyed := tracks.keyed id entry found
    have others : ∀ prior,
        before.identity.get plan.collectionId key.encode = some prior →
          prior.frameId ≠ entry.frameId := by
      intro prior existing sameFrame
      exact same (keyed.unique (sameFrame ▸ tracks.keyed _ prior existing))
    have fresh : waiting (plan.deferred.map fun item => (⟨item.1, plan.collectionId, key.encode,
        before.engine.tables.frames.length, item.2⟩ : StagedVector)) entry.frameId = [] := by
      refine waiting_eq_nil fun item member => ?_
      obtain ⟨vector, _, rfl⟩ := List.mem_map.mp member
      exact keyed.lt.ne'
    rw [done.staged, waiting_append, waiting_keepStaged others, fresh, List.append_nil]

theorem TracksRecords.put {coll : String} {key : Key} {record : Record} {now : Int64}
    {plan : PutPlan} (tracks : TracksRecords before given)
    (done : PutDone coll key record now plan before after) :
    TracksRecords after (Function.update given (plan.collectionId, key.encode)
      (some ⟨coll, record⟩)) := by
  obtain ⟨shape, plans⟩ := resolvePlan_ok done.planned
  obtain ⟨grows, ⟨parent, active, frame⟩, posted, placed⟩ := done.entered
  obtain ⟨staged, kept⟩ := tracks.put_waiting done
  constructor
  · rw [done.schema]
    exact tracks.schema.more grows.spaces.length_le
  · intro id entry found
    rw [done.identity, IdentityIndex.entryAt_insert] at found
    split at found
    · rename_i same
      obtain rfl := Option.some.inj found
      exact ⟨_, frame, same ▸ rfl, same ▸ rfl⟩
    · exact (tracks.keyed id entry found).grow grows
  · intro id record was
    rw [done.identity, IdentityIndex.entryAt_insert]
    by_cases same : id = (plan.collectionId, key.encode)
    · rw [same, Function.update_self] at was
      obtain rfl := Option.some.inj was
      refine ⟨_, if_pos same, shape, ?_, plans.checked, ⟨⟨_, frame, ?_, rfl⟩, ?_⟩, ?_⟩
      · rw [done.schema, same]
        exact plans.bound
      · intro time set
        have given : record.createdAt = some time := set
        simp [recordRow, given]
      · intro field space text inShape set
        obtain ⟨textSpaceId, registered, planned⟩ := plans.text field space text inShape set
        exact ⟨textSpaceId, done.schema ▸ registered, posted textSpaceId planned⟩
      · obtain ⟨held, spaces, whole⟩ := plans.vectors
        refine ⟨held, ?_, ?_⟩
        · rw [done.schema]
          exact placed held spaces
        · rw [staged]
          exact whole
    · rw [Function.update_of_ne same] at was
      obtain ⟨entry, found, describes⟩ := tracks.described id record was
      refine ⟨entry, (if_neg same).trans found, describes.grow grows ?_ (kept id entry same found)⟩
      rw [done.schema]
      exact .refl _
  · intro item member
    rw [done.staged] at member
    rw [done.identity, IdentityIndex.entryAt_insert]
    rcases List.mem_append.mp member with kept | fresh
    · obtain ⟨there, apart⟩ := mem_keepStaged kept
      obtain ⟨entry, found, sameFrame⟩ := tracks.staged item there
      by_cases same : (item.collection, item.keyBytes) = (plan.collectionId, key.encode)
      · rw [same] at found
        exact absurd sameFrame.symm (apart entry found)
      · exact ⟨entry, (if_neg same).trans found, sameFrame⟩
    · obtain ⟨vector, _, rfl⟩ := List.mem_map.mp fresh
      exact ⟨_, if_pos rfl, rfl⟩

/-- A delete leaves the staged vectors of other keys. -/
theorem TracksRecords.delete_waiting {id other : RecordId} {prior entry : Entry}
    (tracks : TracksRecords before given) (existing : before.identity.entryAt other = some prior)
    (apart : id ≠ other) (found : before.identity.entryAt id = some entry) :
    waiting (keepStaged (some prior) before.staged) entry.frameId =
      waiting before.staged entry.frameId := by
  refine waiting_keepStaged ?_
  rintro _ ⟨⟩ sameFrame
  exact apart ((tracks.keyed id entry found).unique (sameFrame ▸ tracks.keyed _ prior existing))

theorem TracksRecords.delete {coll : String} {key : Key} {found : Bool}
    (tracks : TracksRecords before given) (done : DeleteDone coll key before after found) :
    ∃ record, before.schema.collections.lookup coll = some record ∧ TracksRecords after
      (Function.update given (record.collectionId, key.encode) none) := by
  rcases done with @⟨collection, known, missing, rfl⟩ | @⟨collection, prior, known, existing, _, rfl⟩
  · refine ⟨_, known, { tracks with described := ?_ }⟩
    intro id record was
    by_cases same : id = (collection.collectionId, key.encode)
    · rw [same, Function.update_self] at was
      cases was
    · rw [Function.update_of_ne same] at was
      exact tracks.described id record was
  · have grows := withdraw_grows prior before.engine.tables
    refine ⟨_, known, tracks.schema.more grows.spaces.length_le, ?_, ?_, ?_⟩
    · intro id entry found
      rw [IdentityIndex.entryAt_remove] at found
      split at found
      · cases found
      · exact (tracks.keyed id entry found).grow grows
    · intro id record was
      by_cases same : id = (collection.collectionId, key.encode)
      · rw [same, Function.update_self] at was
        cases was
      · rw [Function.update_of_ne same] at was
        obtain ⟨entry, found, describes⟩ := tracks.described id record was
        rw [IdentityIndex.entryAt_remove]
        exact ⟨entry, (if_neg same).trans found,
          describes.grow grows (.refl _) (tracks.delete_waiting existing same found)⟩
    · intro item member
      have kept : item ∈ keepStaged (some prior) before.staged := member
      obtain ⟨there, apart⟩ := mem_keepStaged kept
      obtain ⟨entry, found, sameFrame⟩ := tracks.staged item there
      rw [IdentityIndex.entryAt_remove]
      refine ⟨entry, (if_neg ?_).trans found, sameFrame⟩
      intro same
      rw [same] at found
      obtain rfl := Option.some.inj (found.symm.trans existing)
      exact apart _ rfl sameFrame.symm

end Calls

end Valise
