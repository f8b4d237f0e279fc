import Valise.KeyedRuns

/-!
Runs of a store whose calls succeed, with writers that may be dropped at any time: what the index
has is still described, by records without the vectors that were lost with a writer.
-/

namespace Valise

open Commands Command Outcomes Runs Writer

/-! ### Records that say when they were created -/

def Record.dated (record : Record) (now : Int64) : Record :=
  { record with createdAt := some (record.createdAt.getD now) }

section Dated

variable {κ γ : Type}

/-- Once the date is in the record, the clock is not looked at. -/
theorem Writer.put_dated (coll : String) (key : Key) (record : Record) (now later : Int64) :
    (Writer.put coll key (record.dated now) later : WriterCall κ γ Unit) =
      Writer.put coll key record now := rfl

def AllDated (given : RecordId → Option Given) : Prop :=
  ∀ id record, given id = some record → record.record.createdAt.isSome = true

theorem AllDated.update {given : RecordId → Option Given} (dated : AllDated given) (id : RecordId)
    {record : Option Given} (new : ∀ held, record = some held → held.record.createdAt.isSome = true) :
    AllDated (Function.update given id record) := by
  intro other held found
  by_cases same : other = id
  · rw [same, Function.update_self] at found
    exact new held found
  · rw [Function.update_of_ne same] at found
    exact dated other held found

end Dated

/-! ### Records without what a writer lost -/

section Sublists

variable {α β δ : Type}

/-- Fields that yield a part of the values, among all that yield none. -/
theorem exists_sublist_filterMap {value : α → Option β} {items : List α} {part : List β}
    (among : part.Sublist (items.filterMap value)) :
    ∃ kept : List α, kept.Sublist items ∧ kept.filterMap value = part ∧
      ∀ other : α → Option δ, (∀ item, (other item).isSome = true → value item = none) →
        kept.findSome? other = items.findSome? other := by
  induction items generalizing part with
  | nil =>
      obtain rfl := List.sublist_nil.mp among
      exact ⟨[], .slnil, rfl, fun _ _ => rfl⟩
  | cons item rest ih =>
      cases here : value item with
      | none =>
          rw [List.filterMap_cons_none here] at among
          obtain ⟨kept, sub, same, found⟩ := ih among
          refine ⟨item :: kept, sub.cons_cons item, ?_, fun other apart => ?_⟩
          · rw [List.filterMap_cons_none here, same]
          · rw [List.findSome?_cons, List.findSome?_cons, found other apart]
      | some one =>
          rw [List.filterMap_cons_some here] at among
          cases among with
          | cons _ later =>
              obtain ⟨kept, sub, same, found⟩ := ih later
              refine ⟨kept, sub.cons item, same, fun other apart => ?_⟩
              have blank : other item = none := by
                cases result : other item with
                | none => rfl
                | some _ =>
                    have clash := apart item (by rw [result]; rfl)
                    rw [here] at clash
                    cases clash
              rw [found other apart, List.findSome?_cons, blank]
          | cons_cons _ later =>
              obtain ⟨kept, sub, same, found⟩ := ih later
              refine ⟨item :: kept, sub.cons_cons item, ?_, fun other apart => ?_⟩
              · rw [List.filterMap_cons_some here, same]
              · rw [List.findSome?_cons, List.findSome?_cons, found other apart]

end Sublists

section Strip

variable {κ γ : Type}

theorem checkFields_iff {coll : String} {shape : Shape} {fields : List (String × Value)} :
    checkFields coll shape fields = .ok () ↔ ∀ item ∈ fields, checkField coll shape item = .ok () := by
  induction fields with
  | nil => simp [checkFields]
  | cons item rest ih =>
      unfold checkFields
      rw [Outcome.bind_eq_ok, List.forall_mem_cons, ← ih]
      constructor
      · rintro ⟨_, first, others⟩
        exact ⟨first, others⟩
      · rintro ⟨first, others⟩
        exact ⟨(), first, others⟩

/-- The vector of a field, with the space that the field is bound to. -/
def Shape.bound (shape : Shape) (item : String × Value) : Option (String × List F32) :=
  match item.2 with
  | .text _ => none
  | .vector values =>
      match shape.field item.1 with
      | some (.vector space _) => some (space, values)
      | _ => none

theorem Shape.bind_eq (shape : Shape) (record : Record) :
    shape.bind record = record.fields.filterMap shape.bound := by
  unfold Shape.bind Record.vectorValues
  rw [List.filterMap_filterMap]
  refine List.filterMap_congr fun item _ => ?_
  obtain ⟨name, text | values⟩ := item
  · rfl
  · rfl

/-- When the staged vectors are gone, the entry is that of a record without them. -/
theorem Describes.strip {state : WriterState κ γ} {id : RecordId} {entry : Entry} {given : Given}
    (describes : Describes state id entry given) :
    ∃ stripped, stripped.record.createdAt = given.record.createdAt ∧
      Describes { state with staged := [] } id entry stripped := by
  obtain ⟨shape, bound, checked, ⟨row, posting⟩, held, holds, whole⟩ := describes.frame
  have among : held.Subperm (shape.bind given.record) :=
    (List.sublist_append_left held _).subperm.trans whole.subperm
  obtain ⟨part, permuted, sub⟩ := among
  rw [Shape.bind_eq] at sub
  obtain ⟨kept, fewer, same, found⟩ := @exists_sublist_filterMap _ _ String _ _ _ sub
  have text : ({ given.record with fields := kept } : Record).textValue =
      given.record.textValue := by
    refine found _ fun item set => ?_
    obtain ⟨name, text | values⟩ := item
    · rfl
    · cases set
  refine ⟨⟨given.coll, { given.record with fields := kept }⟩, rfl, shape, bound, ?_,
    ⟨?_, ?_⟩, held, holds, ?_⟩
  · exact checkFields_iff.mpr fun item member =>
      checkFields_iff.mp checked item (fewer.subset member)
  · rw [text]
    exact row
  · rw [text]
    exact posting
  · rw [Shape.bind_eq, same]
    simpa [waiting] using permuted.symm

theorem Exact.strip {state : WriterState κ γ} {given : RecordId → Option Given}
    (exact : Exact state given) (dated : AllDated given) :
    ∃ stripped, Exact { state with staged := [] } stripped ∧ AllDated stripped := by
  have choice (id : RecordId) : ∃ stripped : Option Given,
      (stripped = none ↔ given id = none) ∧ ∀ record, stripped = some record →
        record.record.createdAt.isSome = true ∧ ∃ entry,
          state.identity.entryAt id = some entry ∧
          Describes { state with staged := [] } id entry record := by
    cases was : given id with
    | none => exact ⟨none, Iff.rfl, nofun⟩
    | some record =>
        obtain ⟨entry, found, describes⟩ := exact.tracks.described id record was
        obtain ⟨stripped, created, holds⟩ := describes.strip
        refine ⟨some stripped, by simp, ?_⟩
        rintro _ ⟨⟩
        exact ⟨created ▸ dated id record was, entry, found, holds⟩
  choose stripped none holds using choice
  refine ⟨stripped, ⟨⟨exact.tracks.schema, exact.tracks.keyed, fun id record was =>
    (holds id record was).2, nofun⟩, exact.mirrors, fun id entry found => ?_, exact.listed,
    exact.waits⟩, fun id record was => (holds id record was).1⟩
  have known := exact.known id entry found
  rw [Option.isSome_iff_ne_none] at known ⊢
  exact fun blank => known ((none id).mp blank)

end Strip

/-! ### Runs -/

structure OpenStore (κ γ : Type) where
  /-- The spaces and collections as their schema docs declare them. -/
  declared : SchemaRegistry γ
  engine : StoreEngine κ
  schema : SchemaRegistry γ
  identity : IdentityIndex
  writer : Option (List StagedVector) := none

namespace OpenStore

variable {κ γ : Type} (store : OpenStore κ γ)

def state : WriterState κ γ :=
  ⟨store.engine, store.schema, store.identity, store.writer.getD []⟩

def wrote (state : WriterState κ γ) : OpenStore κ γ where
  declared := store.declared
  engine := state.engine
  schema := state.schema
  identity := state.identity
  writer := some state.staged

/-- The store is closed, and opened on what is durable. -/
def reopen : OpenStore κ γ where
  declared := store.declared
  engine := store.engine.reopen
  schema := store.declared.restore store.engine.durable.spaces
  identity := IdentityIndex.rebuild store.engine.reopen

/-- A store whose schema was committed and that has no records. -/
def Created : Prop :=
  ∃ (declared : SchemaRegistry γ) (codecs : List κ) (spaces : List SpaceRow)
    (faults : StorePoint → Bool),
    (declared.restore spaces).Sound spaces.length ∧
    (∀ row ∈ spaces, row.codecId < codecs.length) ∧
    store = {
      declared
      engine := { tables := { codecs, spaces }, durable := { codecs, spaces }, faults }
      schema := declared.restore spaces
      identity := {} }

/-- The calls of a writer returned `Ok`; after any other it has to be dropped. -/
inductive Step (codecs : StoreCodecs κ γ) : OpenStore κ γ → OpenStore κ γ → Prop where
  | openWriter {store : OpenStore κ γ} : store.writer = none →
      Step codecs store { store with writer := some [] }
  | put {store : OpenStore κ γ} {coll key record now state} : store.writer ≠ none →
      Writer.put coll key record now store.state = (.ok (), state) →
      Step codecs store (store.wrote state)
  | delete {store : OpenStore κ γ} {coll key found state} : store.writer ≠ none →
      Writer.delete coll key store.state = (.ok found, state) →
      Step codecs store (store.wrote state)
  | commit {store : OpenStore κ γ} {state} : store.writer ≠ none →
      Writer.commit codecs store.state = (.ok (), state) →
      Step codecs store (store.wrote state)
  | dropWriter {store : OpenStore κ γ} : Step codecs store { store with writer := none }
  | fail {store : OpenStore κ γ} (faults : StorePoint → Bool) :
      Step codecs store { store with engine := { store.engine with faults } }
  | reopen {store : OpenStore κ γ} : store.writer = none → Step codecs store store.reopen

/-- The index and the rows hold some records, and so do the durable rows. -/
structure Held : Prop where
  exact : ∃ given, Exact store.state given ∧ AllDated given
  restored : store.schema = store.declared.restore store.engine.tables.spaces
  spaces : store.engine.durable.spaces = store.engine.tables.spaces
  durable : ∃ identity given,
    Exact ⟨store.engine.reopen, store.schema, identity, []⟩ given ∧ AllDated given

variable {codecs : StoreCodecs κ γ} {store} {next : OpenStore κ γ}

theorem Created.held (created : store.Created) : store.Held := by
  obtain ⟨declared, codecs, spaces, faults, sound, coded, rfl⟩ := created
  have exact (engine : StoreEngine κ) (tables : engine.tables = { codecs, spaces })
      (pending : engine.pending = []) :
      Exact (⟨engine, declared.restore spaces, {}, []⟩ : WriterState κ γ) fun _ => none := by
    obtain ⟨_, _, _, _, _, _⟩ := engine
    obtain rfl := tables
    obtain rfl := pending
    exact ⟨⟨sound, nofun, nofun, nofun⟩, ⟨nofun, nofun, nofun, nofun, nofun, coded⟩, nofun, nofun,
      nofun⟩
  exact ⟨⟨_, exact _ rfl rfl, nofun⟩, rfl, rfl, ⟨{}, _, exact _ rfl rfl, nofun⟩⟩

/-- A put or a delete changes neither the schema nor what is durable. -/
theorem Held.wrote (held : store.Held) {state : WriterState κ γ}
    (exact : ∃ given, Exact state given ∧ AllDated given) (schema : state.schema = store.schema)
    (spaces : state.engine.tables.spaces = store.engine.tables.spaces)
    (durable : state.engine.durable = store.engine.durable) : (store.wrote state).Held where
  exact := exact
  restored := by
    change state.schema = store.declared.restore state.engine.tables.spaces
    rw [schema, spaces]
    exact held.restored
  spaces := by
    change state.engine.durable.spaces = state.engine.tables.spaces
    rw [spaces, durable]
    exact held.spaces
  durable := by
    obtain ⟨identity, given, exact, dated⟩ := held.durable
    refine ⟨identity, given, ?_, dated⟩
    have same : state.engine.reopen = store.engine.reopen := by
      unfold StoreEngine.reopen
      rw [durable]
    change Exact ⟨state.engine.reopen, state.schema, identity, []⟩ given
    rwa [same, schema]

theorem Held.put (held : store.Held) {coll : String} {key : Key} {record : Record} {now : Int64}
    {state : WriterState κ γ} (done : Writer.put coll key record now store.state = (.ok (), state)) :
    (store.wrote state).Held := by
  rw [← put_dated coll key record now now] at done
  obtain ⟨plan, done⟩ := put_ok done
  obtain ⟨parent, rows⟩ := done.tables
  obtain ⟨given, exact, dated⟩ := held.exact
  refine held.wrote ⟨_, exact.put done, dated.update _ ?_⟩ done.schema ?_ done.durable
  · rintro _ ⟨⟩
    rfl
  · rw [rows]
    cases store.state.identity.get plan.collectionId key.encode with
    | none => rfl
    | some prior => exact (withdraw_rest prior _).1

theorem Held.delete (held : store.Held) {coll : String} {key : Key} {found : Bool}
    {state : WriterState κ γ} (done : Writer.delete coll key store.state = (.ok found, state)) :
    (store.wrote state).Held := by
  have done := delete_ok done
  obtain ⟨given, exact, dated⟩ := held.exact
  obtain ⟨record, _, exact⟩ := exact.delete done
  refine held.wrote ⟨_, exact, dated.update _ nofun⟩ ?_ ?_ ?_
  all_goals rcases done with ⟨_, _, rfl⟩ | @⟨_, prior, _, _, _, rfl⟩
  · rfl
  · rfl
  · rfl
  · exact (withdraw_rest prior _).1
  · rfl
  · rfl

theorem Held.commit (held : store.Held) {state : WriterState κ γ}
    (done : Writer.commit codecs store.state = (.ok (), state)) : (store.wrote state).Held := by
  have done := commit_ok done
  obtain ⟨given, exact, dated⟩ := held.exact
  obtain ⟨exact, settled⟩ := exact.commit done
  exact ⟨⟨given, exact, dated⟩, done.restored held.restored,
    congrArg StoreTables.spaces settled.durable, ⟨_, given, exact.settle settled, dated⟩⟩

theorem Held.reopen (held : store.Held) : store.reopen.Held := by
  obtain ⟨identity, given, exact, dated⟩ := held.durable
  have schema : store.declared.restore store.engine.durable.spaces = store.schema := by
    rw [held.spaces, held.restored]
  obtain ⟨rebuilt, _⟩ := exact.rebuild rfl rfl
  have reopened : Exact ⟨store.engine.reopen, store.declared.restore store.engine.durable.spaces,
      IdentityIndex.rebuild store.engine.reopen, []⟩ given := by
    rw [schema]
    exact rebuilt
  exact ⟨⟨given, reopened, dated⟩, rfl, rfl, ⟨_, given, reopened, dated⟩⟩

theorem Held.step (held : store.Held) (step : Step codecs store next) : next.Held := by
  cases step with
  | openWriter closed =>
      obtain ⟨given, exact, dated⟩ := held.exact
      rw [state, closed] at exact
      exact ⟨⟨given, exact, dated⟩, held.restored, held.spaces, held.durable⟩
  | put _ done => exact held.put done
  | delete _ done => exact held.delete done
  | commit _ done => exact held.commit done
  | dropWriter =>
      obtain ⟨given, exact, dated⟩ := held.exact
      exact ⟨exact.strip dated, held.restored, held.spaces, held.durable⟩
  | fail faults =>
      obtain ⟨given, exact, dated⟩ := held.exact
      refine ⟨⟨given, ⟨?_, exact.mirrors, exact.known, exact.listed, exact.waits⟩, dated⟩,
        held.restored, held.spaces, held.durable⟩
      exact exact.tracks.grow ⟨.refl _, rfl, rfl, rfl⟩
  | reopen _ => exact held.reopen

theorem reachable_held (reachable : Reachable Created (Step codecs) store) : store.Held := by
  induction reachable with
  | start created => exact Created.held created
  | step _ step held => exact held.step step

end OpenStore

end Valise
