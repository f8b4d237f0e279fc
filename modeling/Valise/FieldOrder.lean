import Valise.KeyedRuns

/-!
The order in which the vectors of a record come back. An entry lists the fields of ready spaces as
they were put and then those that waited for a commit; a rebuilt index lists them by space.
-/

namespace Valise

open ByteLists Commands Command Outcomes Writer

/-! ### Fields in the order of a shape -/

/-- The vectors of a record, each with the space that its field is bound to, as the shape lists the
fields. -/
def Shape.arrange (shape : Shape) (record : Record) : List (String × List F32) :=
  shape.vectorFields.filterMap fun field =>
    (record.vectorValues.lookup field.1).map fun values => (field.2, values)

/-- The same vectors with the names of their fields. -/
def Shape.populated (shape : Shape) (record : Record) : List (String × List F32) :=
  shape.vectorFields.filterMap fun field =>
    (record.vectorValues.lookup field.1).map fun values => (field.1, values)

namespace SchemaRegistry

variable {γ : Type} (schema : SchemaRegistry γ)

/-- The fields of ready spaces in the order of the record, and then the others, are in the order of
the shape. -/
def PutsInOrder (coll : String) (record : Record) : Prop :=
  ∀ collectionId shape, schema.bound coll = some (collectionId, shape) →
    (shape.bind record).filter schema.isReady ++
      (shape.bind record).filter (fun vector => !schema.isReady vector) = shape.arrange record

/-- The spaces of the fields that a record sets were registered in the order of the fields. -/
def Ascends (shape : Shape) (record : Record) : Prop :=
  (shape.arrange record).Pairwise fun first second => ∀ one two,
    schema.vectorSpaceId first.1 = some one → schema.vectorSpaceId second.1 = some two → one < two

end SchemaRegistry

/-- What is left of values that were encoded and decoded, once or again and again. -/
def Derives {κ : Type} (lossy : κ → List F32 → List F32) : List F32 → List F32 → Prop :=
  Relation.ReflTransGen fun values read => ∃ codec, read = lossy codec values

theorem Shape.arrange_spaces (shape : Shape) (record : Record) :
    ((shape.arrange record).map (·.1)).Sublist shape.vectorSpaces := by
  unfold arrange vectorSpaces
  induction shape.vectorFields with
  | nil => exact .slnil
  | cons field rest ih =>
      rw [List.filterMap_cons, List.map_cons]
      cases record.vectorValues.lookup field.1 with
      | none => exact ih.cons _
      | some values => exact ih.cons_cons _

theorem Shape.populated_arrange (shape : Shape) (record : Record) :
    List.Forall₂ (fun field (vector : String × List F32) =>
        (field.1, vector.1) ∈ shape.vectorFields ∧ vector.2 = field.2)
      (shape.populated record) (shape.arrange record) := by
  unfold populated arrange
  have within : ∀ field ∈ shape.vectorFields, field ∈ shape.vectorFields := fun _ member => member
  revert within
  generalize shape.vectorFields = all
  suffices general : ∀ fields : List (String × String), (∀ field ∈ fields, field ∈ all) →
      List.Forall₂ (fun field (vector : String × List F32) =>
          (field.1, vector.1) ∈ all ∧ vector.2 = field.2)
        (fields.filterMap fun field =>
          (record.vectorValues.lookup field.1).map fun values => (field.1, values))
        (fields.filterMap fun field =>
          (record.vectorValues.lookup field.1).map fun values => (field.2, values)) from
    fun within => general all within
  intro fields within
  induction fields with
  | nil => exact .nil
  | cons field rest ih =>
      obtain ⟨first, others⟩ := List.forall_mem_cons.mp within
      rw [List.filterMap_cons, List.filterMap_cons]
      cases record.vectorValues.lookup field.1 with
      | none => exact ih others
      | some values => exact .cons ⟨first, rfl⟩ (ih others)

/-! ### What is held in order -/

section Order

variable {κ γ : Type} {lossy : κ → List F32 → List F32} {codecs : StoreCodecs κ γ}
  {before after state : WriterState κ γ} {given : RecordId → Option Given}

/-- A vector of a space is a row with what is left of its values. -/
structure HoldsDerived (lossy : κ → List F32 → List F32) (schema : SchemaRegistry γ)
    (tables : StoreTables κ) (item : Nat × Nat) (vector : String × List F32) : Prop where
  ready : schema.vectorSpaceId vector.1 = some item.1
  row : ∃ row, tables.vectors[item.2]? = some row ∧ Derives lossy vector.2 row.values

/-- The entry of a record lists its vectors in the order of the shape, and `waits` are those that are
still staged. -/
structure Recorded (lossy : κ → List F32 → List F32) (schema : SchemaRegistry γ)
    (tables : StoreTables κ) (waits : List (String × List F32)) (id : RecordId) (entry : Entry)
    (given : Given) : Prop where
  once : given.record.SetsOnce
  listed : ∃ shape, schema.bound given.coll = some (id.1, shape) ∧
    (∃ row, tables.frames[entry.frameId]? = some row ∧
      row.payload = (given.record.textValue.map utf8).getD []) ∧
    ∃ held, List.Forall₂ (HoldsDerived lossy schema tables) entry.vectors held ∧
      held ++ waits = shape.arrange given.record

structure Arranged (lossy : κ → List F32 → List F32) (state : WriterState κ γ)
    (given : RecordId → Option Given) : Prop where
  indexed : Indexed state
  known : ∀ id entry, state.identity.entryAt id = some entry → (given id).isSome = true
  recorded : ∀ id record, given id = some record →
    ∃ entry, state.identity.entryAt id = some entry ∧ Recorded lossy state.schema
      state.engine.tables (waiting state.staged entry.frameId) id entry record

theorem HoldsVector.derived {schema : SchemaRegistry γ} {tables : StoreTables κ} {item : Nat × Nat}
    {vector : String × List F32} (holds : HoldsVector schema tables item vector) :
    HoldsDerived lossy schema tables item vector := by
  obtain ⟨ready, row, found, _, values⟩ := holds
  exact ⟨ready, row, found, values ▸ .refl⟩

theorem HoldsDerived.grow {first later : StoreTables κ} {schema ripe : SchemaRegistry γ}
    {item : Nat × Nat} {vector : String × List F32} (grows : first.Grows later)
    (ripens : schema.Ripens ripe) (holds : HoldsDerived lossy schema first item vector) :
    HoldsDerived lossy ripe later item vector := by
  obtain ⟨ready, row, found, derives⟩ := holds
  obtain ⟨_, _, there⟩ := grows.vectors item.2 row found
  exact ⟨ripens.ready _ _ ready, _, there, derives⟩

theorem Recorded.grow {first later : StoreTables κ} {schema ripe : SchemaRegistry γ}
    {waits : List (String × List F32)} {id : RecordId} {entry : Entry} {record : Given}
    (grows : first.Grows later) (ripens : schema.Ripens ripe)
    (recorded : Recorded lossy schema first waits id entry record) :
    Recorded lossy ripe later waits id entry record := by
  obtain ⟨shape, bound, ⟨row, found, payload⟩, held, holds, whole⟩ := recorded.listed
  obtain ⟨active, there⟩ := grows.frames _ row found
  refine ⟨recorded.once, shape, ?_, ⟨_, there, payload⟩, held, ?_, whole⟩
  · rwa [SchemaRegistry.bound, ripens.collections]
  · exact holds.imp fun _ _ holds => holds.grow grows ripens

theorem known_update {coll : RecordId} {entry : Option Entry} {record : Option Given}
    {entries : RecordId → Option Entry}
    (known : ∀ id entry, entries id = some entry → (given id).isSome = true)
    (new : entry.isSome = true → record.isSome = true) :
    ∀ id held, Function.update entries coll entry id = some held →
      (Function.update given coll record id).isSome = true := by
  intro id held found
  by_cases same : id = coll
  · rw [same, Function.update_self] at found ⊢
    exact new (found ▸ rfl)
  · rw [Function.update_of_ne same] at found ⊢
    exact known id held found

theorem Arranged.put {coll : String} {key : Key} {record : Record} {now : Int64} {plan : PutPlan}
    (arranged : Arranged lossy before given) (done : PutDone coll key record now plan before after)
    (once : record.SetsOnce) (order : before.schema.PutsInOrder coll record) :
    Arranged lossy after (Function.update given (plan.collectionId, key.encode)
      (some ⟨coll, record⟩)) := by
  obtain ⟨shape, bound, spaces, deferred⟩ := resolvePlan_split done.planned
  obtain ⟨grows, ⟨parent, active, frame⟩, _, placed⟩ := done.entered
  obtain ⟨staged, kept⟩ := arranged.indexed.tracks.put_waiting done
  refine ⟨arranged.indexed.put done, ?_, ?_⟩
  · rw [done.entries]
    exact known_update arranged.known fun _ => rfl
  · intro id held was
    rw [done.entries]
    by_cases same : id = (plan.collectionId, key.encode)
    · rw [same, Function.update_self] at was ⊢
      obtain rfl := Option.some.inj was
      refine ⟨_, rfl, once, shape, ?_, ⟨_, frame, rfl⟩,
        (shape.bind record).filter before.schema.isReady, ?_, ?_⟩
      · rw [done.schema]
        exact bound
      · rw [done.schema]
        exact (placed _ spaces).imp fun _ _ holds => holds.derived
      · rw [staged, deferred]
        exact order _ shape bound
    · rw [Function.update_of_ne same] at was ⊢
      obtain ⟨entry, found, recorded⟩ := arranged.recorded id held was
      refine ⟨entry, found, ?_⟩
      rw [kept id entry same found, done.schema]
      exact recorded.grow grows (.refl _)

theorem Arranged.delete {coll : String} {key : Key} {found : Bool}
    (arranged : Arranged lossy before given) (done : DeleteDone coll key before after found) :
    ∃ record, before.schema.collections.lookup coll = some record ∧ Arranged lossy after
      (Function.update given (record.collectionId, key.encode) none) := by
  have indexed := arranged.indexed.delete done
  rcases done with @⟨collection, known, missing, rfl⟩ | @⟨collection, prior, known, existing, _, rfl⟩
  · refine ⟨collection, known, indexed, ?_, ?_⟩
    · intro id entry there
      rw [Function.update_of_ne, arranged.known id entry there]
      rintro rfl
      rw [IdentityIndex.get_eq, there] at missing
      cases missing
    · intro id held was
      by_cases same : id = (collection.collectionId, key.encode)
      · rw [same, Function.update_self] at was
        cases was
      · rw [Function.update_of_ne same] at was
        exact arranged.recorded id held was
  · have grows := withdraw_grows prior before.engine.tables
    refine ⟨collection, known, indexed, ?_, ?_⟩
    · rw [entryAt_remove_eq]
      exact known_update arranged.known nofun
    · intro id held was
      by_cases same : id = (collection.collectionId, key.encode)
      · rw [same, Function.update_self] at was
        cases was
      · rw [Function.update_of_ne same] at was
        obtain ⟨entry, there, recorded⟩ := arranged.recorded id held was
        refine ⟨entry, ?_, ?_⟩
        · rw [entryAt_remove_eq, Function.update_of_ne same]
          exact there
        · have waits := arranged.indexed.tracks.delete_waiting existing same there
          dsimp only
          rw [waits]
          exact recorded.grow grows (.refl _)

theorem Arranged.flush (arranged : Arranged lossy before given)
    (done : FlushDone codecs before after) : Arranged lossy after given := by
  obtain ⟨ripens, grows⟩ := done.grows
  have landed := (arranged.indexed.tracks.flush done).2.1
  refine ⟨arranged.indexed.flush done, ?_, ?_⟩
  · obtain ⟨_, _, _, _, _, _, rfl⟩ := done.flushed
    intro id entry attached
    rw [entryAt_attach] at attached
    obtain ⟨prior, was, rfl⟩ := Option.map_eq_some_iff.mp attached
    exact arranged.known id prior was
  · intro id record was
    obtain ⟨entry, there, recorded⟩ := arranged.recorded id record was
    obtain ⟨pushed, attached, rows⟩ := arranged.indexed.tracks.pushed done there
    obtain ⟨shape, bound, frame, held, holds, whole⟩ := (recorded.grow grows ripens).listed
    refine ⟨_, attached, recorded.once, shape, bound, frame,
      held ++ waiting before.staged entry.frameId, ?_, ?_⟩
    · exact List.rel_append holds (rows.imp fun _ _ holds => holds.derived)
    · rw [landed]
      exact (List.append_nil _).trans whole

theorem Arranged.commit (arranged : Arranged lossy before given)
    (done : CommitDone codecs before after) : Arranged lossy after given ∧ AllCommitted after := by
  have empty := done.staged_nil
  obtain ⟨middle, engine, flushed, committed, rfl⟩ := done.committed
  have reached : Arranged lossy middle given := by
    rcases flushed with ⟨_, rfl⟩ | ⟨_, flushed⟩
    · exact arranged
    · exact arranged.flush flushed
  obtain ⟨indexed, settled⟩ := reached.indexed.commit empty committed
  refine ⟨⟨indexed, ?_, ?_⟩, settled⟩
  · intro id entry found
    obtain ⟨prior, was, _⟩ := reached.indexed.marked found
    exact reached.known id prior was
  · intro id record was
    obtain ⟨entry, there, recorded⟩ := reached.recorded id record was
    refine ⟨_, (IdentityIndex.entryAt_markAllCommitted _ id).trans (congrArg _ there), ?_⟩
    have same := recorded.grow (committed.tables ▸ .refl _ :
      middle.engine.tables.Grows engine.tables) (.refl _)
    split
    · exact ⟨same.once, same.listed⟩
    · exact same

/-- What was committed is held by its durable rows. -/
theorem Arranged.settle (arranged : Arranged lossy state given) (settled : AllCommitted state) :
    Arranged lossy ⟨state.engine.reopen, state.schema, state.identity, []⟩ given := by
  have tables : (state.engine.reopen).tables = state.engine.tables := settled.durable
  refine ⟨arranged.indexed.settle settled, arranged.known, fun id record was => ?_⟩
  obtain ⟨entry, there, recorded⟩ := arranged.recorded id record was
  rw [settled.staged] at recorded
  exact ⟨entry, there, recorded.grow (tables ▸ .refl _) (.refl _)⟩

/-! ### An index that is rebuilt -/

theorem IdentityIndex.rebuild_sorted {engine : StoreEngine κ} {id : RecordId} {entry : Entry}
    (found : (rebuild engine).entryAt id = some entry) :
    entry.vectors.Pairwise fun first second => first.1 ≤ second.1 := by
  rw [entryAt_rebuild] at found
  obtain ⟨first, was, rfl⟩ := Option.map_eq_some_iff.mp found
  obtain ⟨frameId, _, _, rfl⟩ := rebuiltFrames_sound was
  have spaces {spaceId : Nat} {item : Nat × Nat}
      (member : item ∈ ownedVectors engine id spaceId
        (List.range engine.tables.vectors.length)) : item.1 = spaceId :=
    (mem_ownedVectors.mp member).2.1
  refine List.pairwise_flatMap.mpr ⟨fun spaceId _ => ?_, ?_⟩
  · refine List.Pairwise.imp_of_mem (R := fun _ _ => True) ?_ (List.pairwise_of_forall fun _ _ => trivial)
    intro first second one two _
    rw [spaces one, spaces two]
  · refine List.pairwise_lt_range.imp fun less first one second two => ?_
    rw [spaces one, spaces two]
    exact less.le

theorem pairwise_related {α β : Type} {relates : α → β → Prop} {ranks : α → α → Prop}
    {onward : β → β → Prop} {first : List α} {second : List β}
    (carries : ∀ one two three four, relates one three → relates two four → ranks one two →
      onward three four)
    (related : List.Forall₂ relates first second) (ranked : first.Pairwise ranks) :
    second.Pairwise onward := by
  induction related with
  | nil => exact .nil
  | cons one rest ih =>
      obtain ⟨least, others⟩ := List.pairwise_cons.mp ranked
      refine List.pairwise_cons.mpr ⟨fun later member => ?_, ih others⟩
      obtain ⟨two, there, same⟩ := related_right rest member
      exact carries _ _ _ _ one same (least two there)

/-- Vectors that a rebuild lists by space are in the order of the fields when the spaces were
registered in that order. -/
theorem Recorded.rebuild {schema : SchemaRegistry γ} {engine : StoreEngine κ}
    {entries : RecordId → Option Entry} (mirrors : MirrorsRows engine.tables entries)
    (flushed : engine.unflushed = []) {spaceCount : Nat} (sound : schema.Sound spaceCount)
    {id : RecordId} {entry : Entry} {record : Given} (there : entries id = some entry)
    (recorded : Recorded lossy schema engine.tables [] id entry record)
    (ascends : ∀ shape, schema.bound record.coll = some (id.1, shape) →
      schema.Ascends shape record.record) :
    ∃ rebuilt, (IdentityIndex.rebuild engine).entryAt id = some rebuilt ∧
      Recorded lossy schema engine.tables [] id rebuilt record := by
  obtain ⟨rebuilt, found, sameFrame, sameVectors⟩ := mirrors.agree (mirrors.rebuild flushed).1 there
  obtain ⟨shape, bound, frame, held, holds, whole⟩ := recorded.listed
  obtain ⟨listed, rows, permuted⟩ := List.perm_comp_forall₂ sameVectors holds
  rw [List.append_nil] at whole
  rw [whole] at permuted
  have registered {vector : String × List F32} (member : vector ∈ listed) :
      ∃ spaceId, schema.vectorSpaceId vector.1 = some spaceId := by
    obtain ⟨item, _, holds⟩ := related_right rows member
    exact ⟨_, holds.ready⟩
  have ordered : listed = shape.arrange record.record := by
    refine @List.Perm.eq_of_pairwise _ (fun first second : String × List F32 => ∀ one two,
      schema.vectorSpaceId first.1 = some one → schema.vectorSpaceId second.1 = some two →
        one ≤ two) _ _ ?_ ?_ ?_ permuted
    · intro first second one two forward backward
      obtain ⟨place, ready⟩ := registered one
      obtain ⟨place', ready'⟩ := registered (permuted.mem_iff.mpr two)
      have same : place = place' :=
        Nat.le_antisymm (forward _ _ ready ready') (backward _ _ ready' ready)
      have names := sound.distinct _ _ _ ready (same ▸ ready')
      have nodup := ((sound.shaped _ _ _ bound).spaces).sublist
        (shape.arrange_spaces record.record)
      exact List.inj_on_of_nodup_map nodup (permuted.mem_iff.mp one) two names
    · refine pairwise_related ?_ rows (IdentityIndex.rebuild_sorted found)
      intro first second vector other one two ranked place place' ready ready'
      obtain rfl := Option.some.inj (one.ready.symm.trans ready)
      obtain rfl := Option.some.inj (two.ready.symm.trans ready')
      exact ranked
    · exact (ascends shape bound).imp fun less one two ready ready' => (less one two ready ready').le
  refine ⟨rebuilt, found, recorded.once, shape, bound, sameFrame ▸ frame, listed, rows, ?_⟩
  rw [List.append_nil, ordered]

/-! ### What a get lists -/

/-- What is read of a field has its name, and comes from the values that were put. -/
def ReadsDerived (lossy : κ → List F32 → List F32) (field read : String × List F32) : Prop :=
  read.1 = field.1 ∧ Derives lossy field.2 read.2

theorem readVectors_derived {schema : SchemaRegistry γ} {shape : Shape} {engine : StoreEngine κ}
    {spaceCount : Nat} {items : List (Nat × Nat)} {held vectors : List (String × List F32)}
    (sound : schema.Sound spaceCount) (valid : shape.Valid)
    (holds : List.Forall₂ (HoldsDerived lossy schema engine.tables) items held)
    (bound : ∀ vector ∈ held, ∃ name, (name, vector.1) ∈ shape.vectorFields)
    (done : Reader.readVectors lossy engine (vecFieldsOf schema shape) items = .ok vectors) :
    List.Forall₂ (fun vector (read : String × List F32) =>
      (read.1, vector.1) ∈ shape.vectorFields ∧ Derives lossy vector.2 read.2) held vectors := by
  induction holds generalizing vectors with
  | nil =>
      cases done
      exact .nil
  | @cons item vector rest others holds _ ih =>
      obtain ⟨row, found, derives⟩ := holds.row
      obtain ⟨name, member⟩ := bound vector List.mem_cons_self
      simp only [Reader.readVectors, lookup_vecFields sound valid member holds.ready,
        Outcome.bind_eq_ok] at done
      obtain ⟨read, first, more, remaining, ⟨⟩⟩ := done
      refine .cons ⟨member, ?_⟩ (ih (fun other later => bound other (List.mem_cons_of_mem _ later))
        remaining)
      simp only [StoreEngine.readVector, found, Outcome.bind_eq_ok] at first
      obtain ⟨_, _, _, _, _, _, decoded⟩ := first
      split at decoded
      · cases decoded
      · rename_i codec _
        cases decoded
        exact derives.tail ⟨codec, rfl⟩

/-- A get lists one vector of each field that the record set, in the order of the shape. -/
theorem Arranged.get (arranged : Arranged lossy state given) (settled : AllCommitted state)
    {coll : String} {collectionId : Nat} {shape : Shape}
    (bound : state.schema.bound coll = some (collectionId, shape)) {key : Key} {record : Given}
    (was : given (collectionId, key.encode) = some record) :
    ∃ stored, Reader.get lossy state coll key = .ok (some stored) ∧ stored.key = key ∧
      stored.collection = coll ∧
      List.Forall₂ (ReadsDerived lossy) (shape.populated record.record) stored.vectors := by
  have sound := arranged.indexed.tracks.schema
  have resolved := Reader.resolveFields_ok.mpr ⟨collectionId, shape, bound, rfl⟩
  obtain ⟨entry, found, recorded⟩ := arranged.recorded _ _ was
  obtain ⟨described, bound', ⟨row, there, payload⟩, held, holds, whole⟩ := recorded.listed
  have same : record.coll = coll := sound.apart _ _ _ _ (SchemaRegistry.bound_eq_some.mp bound')
    (SchemaRegistry.bound_eq_some.mp bound) rfl
  obtain rfl : described = shape := by
    rw [same] at bound'
    exact (Prod.ext_iff.mp (Option.some.inj (bound'.symm.trans bound))).2
  rw [settled.staged] at whole
  obtain rfl : held = described.arrange record.record := (List.append_nil held).symm.trans whole
  have vectors : ∀ item ∈ entry.vectors, ∃ values,
      state.engine.readVector lossy item.2 = .ok values := by
    intro item member
    obtain ⟨_, _, _, read⟩ := arranged.indexed.readVector settled.pending lossy found member
    exact ⟨_, read⟩
  obtain ⟨text, textRead⟩ := readText_total record.record described.textField.isSome
  obtain ⟨read, vectorsRead⟩ := readVectors_total (vecFieldsOf state.schema described) vectors
  have materialized : Reader.materialize lossy state.engine key coll entry
      ⟨collectionId, described.textField.isSome, vecFieldsOf state.schema described⟩ =
        .ok ⟨key, coll, row.createdAt, text, read⟩ := by
    rw [← payload] at textRead
    simp [Reader.materialize, required, there, textRead, vectorsRead]
  refine ⟨⟨key, coll, row.createdAt, text, read⟩, ?_, rfl, rfl, ?_⟩
  · have present : state.identity.get collectionId key.encode = some entry := found
    simp [Reader.get, resolved, present, materialized]
  · have valid := sound.shaped _ _ _ bound
    have fields := described.populated_arrange record.record
    refine related_trans ?_ fields (readVectors_derived sound valid holds ?_ vectorsRead)
    · rintro field vector read ⟨named, values⟩ ⟨named', derives⟩
      exact ⟨(valid.field_of_space named named').symm, values ▸ derives⟩
    · intro vector member
      obtain ⟨field, _, named, _⟩ := related_right fields member
      exact ⟨field.1, named⟩

end Order

end Valise
