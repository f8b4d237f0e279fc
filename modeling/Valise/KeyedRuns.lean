import Valise.KeyedStore
import Valise.WholeRecords

/-!
Runs of a store whose calls all succeed: writers put, delete and commit, and the store is closed and
opened again. After a commit it is the keyed map of what was put and not deleted.
-/

namespace Valise

open Commands Command Outcomes Runs Writer

/-- Each field of the record is set at most once. -/
def Record.SetsOnce (record : Record) : Prop := (record.fields.map (·.1)).Nodup

instance (record : Record) : Decidable record.SetsOnce :=
  inferInstanceAs (Decidable (List.Nodup _))

structure KeyedStore (κ γ : Type) where
  /-- The spaces and collections as their schema docs declare them. -/
  declared : SchemaRegistry γ
  session : StoreSession κ γ
  /-- The records of the last commit. -/
  committed : RecordId → Option Given := fun _ => none

namespace KeyedStore

variable {κ γ : Type} (store : KeyedStore κ γ)

/-- A store whose schema was committed and that has no records. -/
def Created : Prop :=
  ∃ (declared : SchemaRegistry γ) (codecs : List κ) (spaces : List SpaceRow)
    (faults : StorePoint → Bool),
    (declared.restore spaces).Sound spaces.length ∧
    (∀ row ∈ spaces, row.codecId < codecs.length) ∧
    store = {
      declared
      session := {
        engine := { tables := { codecs, spaces }, durable := { codecs, spaces }, faults }
        schema := declared.restore spaces
        identity := {} } }

/-- The store is closed, and opened on what is durable. -/
def reopen : KeyedStore κ γ :=
  { store with session := {
      engine := store.session.engine.reopen
      schema := store.declared.restore store.session.engine.durable.spaces
      identity := IdentityIndex.rebuild store.session.engine.reopen
      given := store.committed
      settled := true } }

/-- Every call returned `Ok`. `mayDrop` are the staged vectors that a writer may be dropped with. -/
inductive Step (codecs : StoreCodecs κ γ) (mayDrop : List StagedVector → Prop) :
    KeyedStore κ γ → KeyedStore κ γ → Prop where
  | openWriter {store : KeyedStore κ γ} : store.session.writer = none →
      Step codecs mayDrop store
        { store with session := { store.session with writer := some [] } }
  | put {store : KeyedStore κ γ} {coll key record now} : store.session.writer ≠ none →
      record.SetsOnce → (Writer.put coll key record now store.session.state).1 = .ok () →
      Step codecs mayDrop store { store with session := store.session.put coll key record now }
  | delete {store : KeyedStore κ γ} {coll key found} : store.session.writer ≠ none →
      (Writer.delete coll key store.session.state).1 = .ok found →
      Step codecs mayDrop store { store with session := store.session.delete coll key }
  | commit {store : KeyedStore κ γ} : store.session.writer ≠ none →
      (Writer.commit codecs store.session.state).1 = .ok () →
      Step codecs mayDrop store
        { store with session := store.session.commit codecs, committed := store.session.given }
  | dropWriter {store : KeyedStore κ γ} {staged} : store.session.writer = some staged →
      mayDrop staged →
      Step codecs mayDrop store { store with session := { store.session with writer := none } }
  | reopen {store : KeyedStore κ γ} : store.session.writer = none →
      Step codecs mayDrop store store.reopen

/-- What a get finds of a record: everything it was given, and one vector of each vector field. -/
structure Finds (lossy : κ → List F32 → List F32) (coll : String) (key : Key) (shape : Shape)
    (given : Given) (stored : StoredRecord) : Prop where
  key : stored.key = key
  collection : stored.collection = coll ∧ given.coll = coll
  carries : CarriesRecord lossy store.session.state shape given.record stored
  vectors : ∀ name values, (name, Value.vector values) ∈ given.record.fields →
    ∃ space dim codec, shape.field name = some (.vector space dim) ∧
      store.session.schema.codecOf store.session.engine.tables space = some codec ∧
      stored.vectors.filter (·.1 = name) = [(name, lossy codec values)]

/-- After a commit the store is the map of the committed records, under every key of every
collection. -/
def Refines (lossy : κ → List F32 → List F32) : Prop :=
  store.session.settled = true → ∀ coll collectionId shape,
    store.session.schema.bound coll = some (collectionId, shape) →
    (∀ key, match store.committed (collectionId, key.encode) with
      | none => Reader.get lossy store.session.state coll key = .ok none
      | some given => ∃ stored, Reader.get lossy store.session.state coll key = .ok (some stored) ∧
          store.Finds lossy coll key shape given stored) ∧
    ∃ keys, Reader.keys store.session.state coll = .ok keys ∧ keys.Nodup ∧
      ∀ key, key ∈ keys ↔ (store.committed (collectionId, key.encode)).isSome = true

structure Keeps : Prop where
  exact : Exact store.session.state store.session.given
  restored : store.session.schema = store.declared.restore store.session.engine.tables.spaces
  spaces : store.session.engine.durable.spaces = store.session.engine.tables.spaces
  once : ∀ id given, store.session.given id = some given ∨ store.committed id = some given →
    given.record.SetsOnce
  durable : ∃ identity,
    Exact ⟨store.session.engine.reopen, store.session.schema, identity, []⟩ store.committed
  settled : store.session.settled = true →
    AllCommitted store.session.state ∧ store.session.given = store.committed

end KeyedStore

/-- A field that was set once is read as one vector. -/
theorem CarriesRecord.vectors_once {κ γ : Type} {lossy : κ → List F32 → List F32}
    {state : WriterState κ γ} {shape : Shape} {record : Record} {stored : StoredRecord}
    (carries : CarriesRecord lossy state shape record stored) (once : record.SetsOnce)
    {name : String} {values : List F32} (set : (name, Value.vector values) ∈ record.fields) :
    ∃ space dim codec, shape.field name = some (.vector space dim) ∧
      state.schema.codecOf state.engine.tables space = some codec ∧
      stored.vectors.filter (·.1 = name) = [(name, lossy codec values)] := by
  obtain ⟨read, fields, same⟩ := carries.vectors
  have names : (record.vectorValues.map (·.1)).Nodup := by
    refine List.Nodup.sublist ?_ once
    unfold Record.vectorValues
    generalize record.fields = items
    induction items with
    | nil => exact List.nil_sublist _
    | cons item rest ih =>
      obtain ⟨field, _ | vector⟩ := item
      · exact ih.cons _
      · exact ih.cons_cons _
  have member := Record.mem_vectorValues.mpr set
  have found : ∃ space dim codec, shape.field name = some (.vector space dim) ∧
      state.schema.codecOf state.engine.tables space = some codec ∧
      read.filter (·.1 = name) = [(name, lossy codec values)] := by
    clear same
    generalize record.vectorValues = given at fields names member
    induction fields with
    | nil => cases member
    | @cons field out rest others first more ih =>
      obtain ⟨apart, names⟩ := List.nodup_cons.mp names
      obtain ⟨named, space, dim, codec, inShape, cached, decoded⟩ := first
      rcases List.mem_cons.mp member with rfl | later
      · refine ⟨space, dim, codec, inShape, cached, ?_⟩
        have none : others.filter (·.1 = name) = [] := by
          rw [List.filter_eq_nil_iff]
          intro other there
          obtain ⟨field, inRest, sameName, _⟩ := related_right more there
          simp only [decide_eq_true_eq]
          intro clash
          exact apart (List.mem_map.mpr ⟨field, inRest, sameName.symm.trans clash⟩)
        rw [List.filter_cons_of_pos (by simpa using named), none]
        exact congrArg (· :: []) (Prod.ext named decoded)
      · have different : out.1 ≠ name := by
          rw [named]
          rintro rfl
          exact apart (List.mem_map.mpr ⟨_, later, rfl⟩)
        rw [List.filter_cons_of_neg (by simpa using different)]
        exact ih names later
  obtain ⟨space, dim, codec, inShape, cached, one⟩ := found
  refine ⟨space, dim, codec, inShape, cached, ?_⟩
  have permuted := same.filter (fun item : String × List F32 => decide (item.1 = name))
  rw [one] at permuted
  exact List.perm_singleton.mp permuted

namespace KeyedStore

variable {κ γ : Type} {codecs : StoreCodecs κ γ} {store next : KeyedStore κ γ}

/-- What is kept over a run: `holds` of the live state and of what is durable. -/
structure KeepsWith (holds : WriterState κ γ → (RecordId → Option Given) → Prop)
    (store : KeyedStore κ γ) : Prop where
  live : holds store.session.state store.session.given
  restored : store.session.schema = store.declared.restore store.session.engine.tables.spaces
  spaces : store.session.engine.durable.spaces = store.session.engine.tables.spaces
  durable : ∃ identity,
    holds ⟨store.session.engine.reopen, store.session.schema, identity, []⟩ store.committed
  settled : store.session.settled = true →
    AllCommitted store.session.state ∧ store.session.given = store.committed

section KeepsWith

variable {holds : WriterState κ γ → (RecordId → Option Given) → Prop}

/-- Puts and deletes change neither the spaces nor what is durable. -/
theorem KeepsWith.write (keeps : KeepsWith holds store) {session : StoreSession κ γ}
    (live : holds session.state session.given)
    (schema : session.schema = store.session.schema)
    (spaces : session.engine.tables.spaces = store.session.engine.tables.spaces)
    (durable : session.engine.durable = store.session.engine.durable)
    (unsettled : session.settled = false) : KeepsWith holds { store with session } where
  live := live
  restored := by
    rw [schema, spaces]
    exact keeps.restored
  spaces := by
    rw [spaces, durable]
    exact keeps.spaces
  durable := by
    obtain ⟨identity, held⟩ := keeps.durable
    refine ⟨identity, ?_⟩
    have same : session.engine.reopen = store.session.engine.reopen := by
      unfold StoreEngine.reopen
      rw [durable]
    rwa [same, schema]
  settled := by
    intro settled
    have settled : session.settled = true := settled
    rw [unsettled] at settled
    cases settled

theorem KeepsWith.put (keeps : KeepsWith holds store) {coll : String} {key : Key} {record : Record}
    {now : Int64} (returned : (Writer.put coll key record now store.session.state).1 = .ok ())
    (step : ∀ plan after, PutDone coll key record now plan store.session.state after →
      holds after (Function.update store.session.given (plan.collectionId, key.encode)
        (some ⟨coll, record⟩))) :
    KeepsWith holds { store with session := store.session.put coll key record now } := by
  unfold StoreSession.put
  cases result : Writer.put coll key record now store.session.state with
  | mk outcome after =>
    obtain rfl : outcome = .ok () := by rwa [result] at returned
    obtain ⟨plan, done⟩ := put_ok result
    obtain ⟨shape, plans⟩ := resolvePlan_ok done.planned
    obtain ⟨parent, rows⟩ := done.tables
    have given := store.session.giving_of_bound key
      (SchemaRegistry.bound_eq_some.mp plans.bound) (some ⟨coll, record⟩)
    have spaces : after.engine.tables.spaces = store.session.state.engine.tables.spaces := by
      rw [rows]
      cases store.session.state.identity.get plan.collectionId key.encode with
      | none => rfl
      | some prior => exact (withdraw_rest prior _).1
    exact keeps.write (given ▸ step plan after done) done.schema spaces done.durable rfl

theorem KeepsWith.delete (keeps : KeepsWith holds store) {coll : String} {key : Key} {found : Bool}
    (returned : (Writer.delete coll key store.session.state).1 = .ok found)
    (step : ∀ after, DeleteDone coll key store.session.state after found →
      ∃ record, store.session.state.schema.collections.lookup coll = some record ∧
        holds after (Function.update store.session.given (record.collectionId, key.encode) none)) :
    KeepsWith holds { store with session := store.session.delete coll key } := by
  unfold StoreSession.delete
  cases result : Writer.delete coll key store.session.state with
  | mk outcome after =>
    obtain rfl : outcome = .ok found := by rwa [result] at returned
    have done := delete_ok result
    obtain ⟨record, known, live⟩ := step after done
    have given := store.session.giving_of_bound key known none
    have same : after.schema = store.session.state.schema ∧
        after.engine.tables.spaces = store.session.state.engine.tables.spaces ∧
        after.engine.durable = store.session.state.engine.durable := by
      rcases done with ⟨_, _, rfl⟩ | @⟨_, prior, _, _, _, rfl⟩
      · exact ⟨rfl, rfl, rfl⟩
      · exact ⟨rfl, (withdraw_rest prior _).1, rfl⟩
    exact keeps.write (given ▸ live) same.1 same.2.1 same.2.2 rfl

theorem KeepsWith.commit (keeps : KeepsWith holds store)
    (returned : (Writer.commit codecs store.session.state).1 = .ok ())
    (step : ∀ after, CommitDone codecs store.session.state after →
      holds after store.session.given ∧ AllCommitted after)
    (settle : ∀ state given, holds state given → AllCommitted state →
      holds ⟨state.engine.reopen, state.schema, state.identity, []⟩ given) :
    KeepsWith holds
      { store with session := store.session.commit codecs, committed := store.session.given } := by
  unfold StoreSession.commit
  cases result : Writer.commit codecs store.session.state with
  | mk outcome after =>
    obtain rfl : outcome = .ok () := by rwa [result] at returned
    have done := commit_ok result
    obtain ⟨live, settled⟩ := step after done
    exact ⟨live, done.restored keeps.restored, congrArg StoreTables.spaces settled.durable,
      ⟨after.identity, settle after _ live settled⟩, fun _ => ⟨settled, rfl⟩⟩

theorem KeepsWith.reopen (keeps : KeepsWith holds store)
    (rebuild : ∀ identity,
      holds ⟨store.session.engine.reopen, store.session.schema, identity, []⟩ store.committed →
        holds ⟨store.session.engine.reopen, store.session.schema,
            IdentityIndex.rebuild store.session.engine.reopen, []⟩ store.committed ∧
          ∀ id entry, (IdentityIndex.rebuild store.session.engine.reopen).entryAt id = some entry →
            entry.committed = true) : KeepsWith holds store.reopen := by
  obtain ⟨identity, held⟩ := keeps.durable
  have schema : store.declared.restore store.session.engine.durable.spaces =
      store.session.schema := by
    rw [keeps.spaces, keeps.restored]
  obtain ⟨rebuilt, committed⟩ := rebuild identity held
  have reopened : holds ⟨store.session.engine.reopen,
      store.declared.restore store.session.engine.durable.spaces,
      IdentityIndex.rebuild store.session.engine.reopen, []⟩ store.committed := by
    rw [schema]
    exact rebuilt
  exact ⟨reopened, rfl, rfl, ⟨_, reopened⟩, fun _ => ⟨⟨rfl, rfl, rfl, rfl, committed⟩, rfl⟩⟩

/-- Opening a writer, and dropping one with nothing staged, change nothing. -/
theorem KeepsWith.writer (keeps : KeepsWith holds store) (writer : Option (List StagedVector))
    (same : writer.getD [] = store.session.writer.getD []) :
    KeepsWith holds { store with session := { store.session with writer } } := by
  have state : ({ store.session with writer } : StoreSession κ γ).state = store.session.state := by
    unfold StoreSession.state
    rw [same]
  exact ⟨state ▸ keeps.live, keeps.restored, keeps.spaces, keeps.durable,
    fun settled => state ▸ keeps.settled settled⟩

end KeepsWith

/-- What a run of calls that succeed keeps. -/
def OnceExact (state : WriterState κ γ) (given : RecordId → Option Given) : Prop :=
  Exact state given ∧ ∀ id record, given id = some record → record.record.SetsOnce

theorem keeps_iff : store.Keeps ↔ KeepsWith OnceExact store := by
  constructor
  · intro keeps
    obtain ⟨identity, held⟩ := keeps.durable
    exact ⟨⟨keeps.exact, fun id given found => keeps.once id given (.inl found)⟩, keeps.restored,
      keeps.spaces, ⟨identity, held, fun id given found => keeps.once id given (.inr found)⟩,
      keeps.settled⟩
  · intro keeps
    obtain ⟨identity, held, once⟩ := keeps.durable
    refine ⟨keeps.live.1, keeps.restored, keeps.spaces, ?_, ⟨identity, held⟩, keeps.settled⟩
    rintro id given (current | committed)
    · exact keeps.live.2 id given current
    · exact once id given committed

/-- Nothing was put into a store that was just created. -/
theorem Created.keepsWith {holds : WriterState κ γ → (RecordId → Option Given) → Prop}
    (created : store.Created)
    (empty : ∀ (engine : StoreEngine κ) (schema : SchemaRegistry γ),
      engine.tables = { codecs := engine.tables.codecs, spaces := engine.tables.spaces } →
      engine.pending = [] → schema.Sound engine.tables.spaces.length →
      (∀ row ∈ engine.tables.spaces, row.codecId < engine.tables.codecs.length) →
      holds ⟨engine, schema, {}, []⟩ fun _ => none) : KeepsWith holds store := by
  obtain ⟨declared, codecs, spaces, faults, sound, coded, rfl⟩ := created
  exact ⟨empty _ _ rfl rfl sound coded, rfl, rfl, ⟨{}, empty _ _ rfl rfl sound coded⟩, nofun⟩

theorem indexed_empty {engine : StoreEngine κ} {schema : SchemaRegistry γ}
    (tables : engine.tables = { codecs := engine.tables.codecs, spaces := engine.tables.spaces })
    (pending : engine.pending = []) (sound : schema.Sound engine.tables.spaces.length)
    (coded : ∀ row ∈ engine.tables.spaces, row.codecId < engine.tables.codecs.length) :
    Indexed (⟨engine, schema, {}, []⟩ : WriterState κ γ) := by
  have vectors (vectorId : Nat) (row : VectorRow)
      (found : engine.tables.vectors[vectorId]? = some row) : False := by
    rw [tables] at found
    cases found
  have frames (frameId : Nat) (row : FrameRow)
      (found : engine.tables.frames[frameId]? = some row) : False := by
    rw [tables] at found
    cases found
  refine ⟨⟨sound, nofun, nofun, nofun⟩, ⟨nofun, ?_, nofun, ?_, ?_, coded⟩, nofun, ?_⟩
  · exact fun frameId row found _ => (frames frameId row found).elim
  · exact fun vectorId row found _ => (vectors vectorId row found).elim
  · exact fun vectorId row found => (vectors vectorId row found).elim
  · intro vectorId waits
    have waits : vectorId ∈ engine.pending := waits
    rw [pending] at waits
    cases waits

theorem Created.keeps (created : store.Created) : store.Keeps := by
  refine keeps_iff.mpr (created.keepsWith fun engine schema tables pending sound coded => ?_)
  exact ⟨(indexed_empty tables pending sound coded).exact ⟨sound, nofun, nofun, nofun⟩ nofun, nofun⟩

theorem once_update {given : RecordId → Option Given} {id : RecordId} {record : Option Given}
    (once : ∀ other record, given other = some record → record.record.SetsOnce)
    (new : ∀ held, record = some held → held.record.SetsOnce) :
    ∀ other held, Function.update given id record other = some held → held.record.SetsOnce := by
  intro other held found
  by_cases same : other = id
  · rw [same, Function.update_self] at found
    exact new held found
  · rw [Function.update_of_ne same] at found
    exact once other held found

theorem Keeps.put (keeps : store.Keeps) {coll : String} {key : Key} {record : Record}
    {now : Int64} (once : record.SetsOnce)
    (returned : (Writer.put coll key record now store.session.state).1 = .ok ()) :
    ({ store with session := store.session.put coll key record now } : KeyedStore κ γ).Keeps := by
  have kept := keeps_iff.mp keeps
  refine keeps_iff.mpr (kept.put returned fun plan after done => ?_)
  refine ⟨kept.live.1.put done, once_update kept.live.2 ?_⟩
  rintro _ ⟨⟩
  exact once

theorem Keeps.delete (keeps : store.Keeps) {coll : String} {key : Key} {found : Bool}
    (returned : (Writer.delete coll key store.session.state).1 = .ok found) :
    ({ store with session := store.session.delete coll key } : KeyedStore κ γ).Keeps := by
  have kept := keeps_iff.mp keeps
  refine keeps_iff.mpr (kept.delete returned fun after done => ?_)
  obtain ⟨record, known, exact⟩ := kept.live.1.delete done
  exact ⟨record, known, exact, once_update kept.live.2 nofun⟩

theorem Keeps.commit (keeps : store.Keeps)
    (returned : (Writer.commit codecs store.session.state).1 = .ok ()) :
    ({ store with session := store.session.commit codecs, committed := store.session.given } :
      KeyedStore κ γ).Keeps := by
  have kept := keeps_iff.mp keeps
  refine keeps_iff.mpr (kept.commit returned (fun after done => ?_) fun state given held settled => ?_)
  · obtain ⟨exact, settled⟩ := kept.live.1.commit done
    exact ⟨⟨exact, kept.live.2⟩, settled⟩
  · exact ⟨held.1.settle settled, held.2⟩

theorem Keeps.reopen (keeps : store.Keeps) : store.reopen.Keeps := by
  refine keeps_iff.mpr ((keeps_iff.mp keeps).reopen fun identity held => ?_)
  obtain ⟨exact, committed⟩ := held.1.rebuild rfl rfl
  exact ⟨⟨exact, held.2⟩, committed⟩

theorem Keeps.writer (keeps : store.Keeps) (writer : Option (List StagedVector))
    (same : writer.getD [] = store.session.writer.getD []) :
    ({ store with session := { store.session with writer } } : KeyedStore κ γ).Keeps :=
  keeps_iff.mpr ((keeps_iff.mp keeps).writer writer same)

/-- What the engine has besides its rows does not matter when nothing waits. -/
theorem Keeps.sameRows (keeps : store.Keeps) (settled : store.session.settled = true)
    {engine : StoreEngine κ} (tables : engine.tables = store.session.engine.tables)
    (durable : engine.durable = store.session.engine.durable) (pending : engine.pending = [])
    (unflushed : engine.unflushed = []) :
    ({ store with session := { store.session with engine } } : KeyedStore κ γ).Keeps := by
  obtain ⟨landed, same⟩ := keeps.settled settled
  refine ⟨⟨?_, ?_, keeps.exact.known, keeps.exact.listed, ?_⟩, ?_, ?_, keeps.once, ?_,
    fun _ => ⟨⟨landed.staged, pending, unflushed, ?_, landed.committed⟩, same⟩⟩
  · exact keeps.exact.tracks.grow ⟨tables ▸ .refl _, rfl, rfl, rfl⟩
  · change MirrorsRows engine.tables store.session.identity.entryAt
    rw [tables]
    exact keeps.exact.mirrors
  · intro vectorId waits
    have waits : vectorId ∈ engine.pending := waits
    rw [pending] at waits
    cases waits
  · change store.session.schema = store.declared.restore engine.tables.spaces
    rw [tables]
    exact keeps.restored
  · change engine.durable.spaces = engine.tables.spaces
    rw [tables, durable]
    exact keeps.spaces
  · have reopened : engine.reopen = store.session.engine.reopen := by
      unfold StoreEngine.reopen
      rw [durable]
    change ∃ identity, Exact ⟨engine.reopen, store.session.schema, identity, []⟩ store.committed
    rw [reopened]
    exact keeps.durable
  · exact durable.trans (landed.durable.trans tables.symm)

theorem Keeps.step (keeps : store.Keeps) (step : Step codecs (· = []) store next) : next.Keeps := by
  cases step with
  | openWriter closed => exact keeps.writer _ (by rw [closed]; rfl)
  | put _ once returned => exact keeps.put once returned
  | delete _ returned => exact keeps.delete returned
  | commit _ returned => exact keeps.commit returned
  | dropWriter opened empty => exact keeps.writer _ (by rw [opened, empty]; rfl)
  | reopen _ => exact keeps.reopen

theorem Keeps.refines (keeps : store.Keeps) (lossy : κ → List F32 → List F32) :
    store.Refines lossy := by
  intro settled coll collectionId shape bound
  obtain ⟨landed, same⟩ := keeps.settled settled
  refine ⟨fun key => ?_, ?_⟩
  · have found := keeps.exact.get landed lossy bound key
    rw [same] at found
    cases was : store.committed (collectionId, key.encode) with
    | none =>
      rw [was] at found
      exact found
    | some given =>
      rw [was] at found
      obtain ⟨sameColl, stored, read, sameKey, collection, carries⟩ := found
      refine ⟨stored, read, sameKey, ⟨collection, sameColl⟩, carries, ?_⟩
      exact fun name values set =>
        carries.vectors_once (keeps.once _ given (.inr was)) set
  · have listed := keeps.exact.keys landed bound
    rwa [same] at listed

/-- A store of calls that succeed is a keyed map of its committed records, across closing and
opening, so long as no writer is dropped with vectors that are still staged. -/
theorem attended_refines (codecs : StoreCodecs κ γ)
    (reachable : Reachable Created (Step codecs (· = [])) store) :
    store.Refines codecs.lossy := by
  have keeps : store.Keeps := reachable.invariant (fun _ created => Created.keeps created)
    fun _ _ keeps step => keeps.step step
  exact keeps.refines codecs.lossy

section Examples

open StoreSession

def notesKeyed : KeyedStore Unit Unit where
  declared := notesSchema
  session := { engine := {}, schema := notesSchema.restore [], identity := {} }

theorem notesKeyed_created : notesKeyed.Created :=
  ⟨notesSchema, [], [], fun _ => false, notesSchema_sound 0, nofun, rfl⟩

def writing (store : KeyedStore κ γ) (writer : Option (List StagedVector)) : KeyedStore κ γ :=
  { store with session := { store.session with writer } }

def notePut (store : KeyedStore Unit Unit) : KeyedStore Unit Unit :=
  { store with session := store.session.put "notes" noteKey note 5 }

def noteCommit (store : KeyedStore Unit Unit) : KeyedStore Unit Unit :=
  { store with session := store.session.commit exactCodecs, committed := store.session.given }

/-- A note is put and committed, and read after the store was closed and opened. -/
theorem keptNote_refines :
    (noteCommit (notePut (notesKeyed.writing (some [])))).writing none |>.reopen.Refines
      exactCodecs.lossy := by
  have opened : Reachable Created (Step exactCodecs (· = [])) (notesKeyed.writing (some [])) :=
    .step (.start notesKeyed_created) (.openWriter rfl)
  have put := opened.step (@Step.put _ _ _ _ _ "notes" noteKey note 5 nofun (by decide)
    (by decide +kernel))
  have committed := put.step (.commit (by decide +kernel) (by decide +kernel))
  have closed := committed.step (.dropWriter (by decide +kernel) rfl)
  exact attended_refines exactCodecs (closed.step (.reopen rfl))

/-- The note's writer is dropped, and another writer commits. -/
def lostNote : KeyedStore Unit Unit :=
  noteCommit (((notePut (notesKeyed.writing (some []))).writing none).writing (some []))

theorem refines_fails : ¬∀ store : KeyedStore Unit Unit,
    Reachable Created (Step exactCodecs fun _ => True) store →
      store.Refines exactCodecs.lossy := by
  intro always
  have opened : Reachable Created (Step exactCodecs fun _ => True)
      (notesKeyed.writing (some [])) := .step (.start notesKeyed_created) (.openWriter rfl)
  have put := opened.step (@Step.put _ _ _ _ _ "notes" noteKey note 5 nofun (by decide)
    (by decide +kernel))
  have dropped := put.step (.dropWriter (Option.some_get (by decide +kernel)).symm trivial)
  have again := dropped.step (.openWriter rfl)
  have committed : Reachable Created (Step exactCodecs fun _ => True) lostNote :=
    again.step (.commit (by decide +kernel) (by decide +kernel))
  have read : noteRead lostNote.session = .ok (some ⟨noteKey, "notes", 5, some "a", []⟩) := by
    decide +kernel
  have was : lostNote.committed (0, noteKey.encode) = some ⟨"notes", note⟩ := by decide +kernel
  obtain ⟨finds, _⟩ := always lostNote committed (by decide +kernel) "notes" 0
    ⟨[("body", .text "words"), ("embedding", .vector "meaning" 1)]⟩ (by decide +kernel)
  have found := finds noteKey
  rw [was] at found
  obtain ⟨stored, again, holds⟩ := found
  have same : some stored = some _ := Outcome.ok.inj (again.symm.trans read)
  obtain ⟨_, _, _, _, _, one⟩ := holds.vectors "embedding" [⟨0⟩] (by decide)
  rw [Option.some.inj same] at one
  cases one

end Examples

end KeyedStore

end Valise
