import Valise.StoreCompaction

/-!
Runs of a store that is also compacted: when the vectors of its records come back in the order of
the fields, on the live handle, after it was opened again and after a compaction.
-/

namespace Valise

open ByteLists Commands Command Outcomes Runs Writer

deriving instance DecidableEq for CollectionRecord

/-- The text space that the schema doc of a collection binds. -/
def SchemaRegistry.textSpaceOf {γ : Type} (schema : SchemaRegistry γ) (collectionId : Nat) :
    Option Nat := do
  let item ← schema.collections.find? (·.2.collectionId = collectionId)
  let shape ← item.2.shape
  let field ← shape.textField
  schema.textSpaceId field.2

theorem SchemaRegistry.restore_congr {γ : Type} (schema : SchemaRegistry γ)
    {first second : List SpaceRow} (same : first.map (·.model) = second.map (·.model)) :
    schema.restore first = schema.restore second := by
  have ids (base : Nat) : freshIds base first = freshIds base second := by
    unfold freshIds
    have names (rows : List SpaceRow) : ((rows.zipIdx base).map fun item => (item.1.model, item.2)) =
        (rows.map (·.model)).zipIdx base := by
      rw [List.zipIdx_map]
      rfl
    rw [names, names, same]
  unfold restore
  rw [ids]

namespace KeyedStore

variable {κ γ : Type}

/-- Without tombstones the file is left as it is. A compaction that fails leaves it too. -/
def compact (lossy : κ → List F32 → List F32) (refit : Nat → κ → List (List F32) → Result κ)
    (recalibrate : Bool) (faults : StorePoint → Bool) (store : KeyedStore κ γ) :
    Result Unit × KeyedStore κ γ :=
  let src := store.session.engine
  if src.tombstones = false then (.ok (), store)
  else
    match StoreEngine.buildCompactedFile lossy refit recalibrate store.session.schema.textSpaceOf
        src { faults } with
    | (.ok (), built) => (.ok (), { store with session := {
        engine := built.reopen
        schema := store.declared.restore built.reopen.tables.spaces
        identity := IdentityIndex.rebuild built.reopen
        given := store.committed
        settled := true } })
    | (outcome, _) => (outcome, store)

/-- What a run may do besides what returns `Ok`. -/
structure Allows (κ γ : Type) where
  put : KeyedStore κ γ → String → Record → Prop
  drop : List StagedVector → Prop
  reopen : KeyedStore κ γ → Prop
  compact : KeyedStore κ γ → Prop

def anything : Allows κ γ := ⟨fun _ _ _ => True, fun _ => True, fun _ => True, fun _ => True⟩

/-- The spaces of every record that was committed were registered in the order of its fields. -/
def CommittedAscend (store : KeyedStore κ γ) : Prop :=
  ∀ id given, store.committed id = some given → ∀ shape,
    store.session.schema.bound given.coll = some (id.1, shape) →
      store.session.schema.Ascends shape given.record

/-- What keeps the fields in their order. -/
def inOrder : Allows κ γ where
  put store coll record := store.session.schema.PutsInOrder coll record
  drop staged := staged = []
  reopen store := store.CommittedAscend
  compact store := store.session.settled = true ∧ store.CommittedAscend

/-- Every call returned `Ok`. -/
inductive StepAllowed (codecs : StoreCodecs κ γ) (refit : Nat → κ → List (List F32) → Result κ)
    (allows : Allows κ γ) : KeyedStore κ γ → KeyedStore κ γ → Prop where
  | openWriter {store : KeyedStore κ γ} : store.session.writer = none →
      StepAllowed codecs refit allows store
        { store with session := { store.session with writer := some [] } }
  | put {store : KeyedStore κ γ} {coll key record now} : store.session.writer ≠ none →
      record.SetsOnce → allows.put store coll record →
      (Writer.put coll key record now store.session.state).1 = .ok () →
      StepAllowed codecs refit allows store
        { store with session := store.session.put coll key record now }
  | delete {store : KeyedStore κ γ} {coll key found} : store.session.writer ≠ none →
      (Writer.delete coll key store.session.state).1 = .ok found →
      StepAllowed codecs refit allows store
        { store with session := store.session.delete coll key }
  | commit {store : KeyedStore κ γ} : store.session.writer ≠ none →
      (Writer.commit codecs store.session.state).1 = .ok () →
      StepAllowed codecs refit allows store
        { store with session := store.session.commit codecs, committed := store.session.given }
  | dropWriter {store : KeyedStore κ γ} {staged} : store.session.writer = some staged →
      allows.drop staged →
      StepAllowed codecs refit allows store
        { store with session := { store.session with writer := none } }
  | reopen {store : KeyedStore κ γ} : store.session.writer = none → allows.reopen store →
      StepAllowed codecs refit allows store store.reopen
  | compact {store : KeyedStore κ γ} {recalibrate faults} : store.session.writer = none →
      allows.compact store →
      (store.compact codecs.lossy refit recalibrate faults).1 = .ok () →
      StepAllowed codecs refit allows store
        (store.compact codecs.lossy refit recalibrate faults).2

/-- After a commit a get lists one vector of each field that the record set, under the name of the
field and in the order of the shape. -/
def ListsInOrder (lossy : κ → List F32 → List F32) (store : KeyedStore κ γ) : Prop :=
  store.session.settled = true → ∀ coll collectionId shape,
    store.session.schema.bound coll = some (collectionId, shape) →
    ∀ key given, store.committed (collectionId, key.encode) = some given →
      ∃ stored, Reader.get lossy store.session.state coll key = .ok (some stored) ∧
        stored.key = key ∧ stored.collection = coll ∧
        List.Forall₂ (ReadsDerived lossy) (shape.populated given.record) stored.vectors

section Runs

variable {codecs : StoreCodecs κ γ} {refit : Nat → κ → List (List F32) → Result κ}
  {store next : KeyedStore κ γ}

theorem Created.keepsOrder (created : store.Created) (lossy : κ → List F32 → List F32) :
    KeepsWith (Arranged lossy) store := by
  refine created.keepsWith fun engine schema tables pending sound coded => ?_
  exact ⟨indexed_empty tables pending sound coded, nofun, nofun⟩

theorem KeepsWith.reopenInOrder {lossy : κ → List F32 → List F32}
    (keeps : KeepsWith (Arranged lossy) store) (ascends : store.CommittedAscend) :
    KeepsWith (Arranged lossy) store.reopen := by
  refine keeps.reopen fun identity held => ?_
  obtain ⟨indexed, committed⟩ := held.indexed.rebuild rfl rfl
  refine ⟨⟨indexed, ?_, ?_⟩, committed⟩
  · intro id entry found
    obtain ⟨first, there, _⟩ := indexed.mirrors.agree held.indexed.mirrors found
    exact held.known id first there
  · intro id record was
    obtain ⟨entry, found, recorded⟩ := held.recorded id record was
    exact recorded.rebuild held.indexed.mirrors rfl held.indexed.tracks.schema found
      (ascends id record was)

theorem KeepsWith.compactInOrder {lossy : κ → List F32 → List F32}
    (keeps : KeepsWith (Arranged lossy) store) (settled : store.session.settled = true)
    (ascends : store.CommittedAscend) {recalibrate : Bool} {faults : StorePoint → Bool}
    (returned : (store.compact lossy refit recalibrate faults).1 = .ok ()) :
    KeepsWith (Arranged lossy) (store.compact lossy refit recalibrate faults).2 := by
  obtain ⟨landed, same⟩ := keeps.settled settled
  unfold compact at returned ⊢
  dsimp only at returned ⊢
  split
  · exact keeps
  · rename_i tombstones
    rw [if_neg tombstones] at returned
    cases built : StoreEngine.buildCompactedFile lossy refit recalibrate
        store.session.schema.textSpaceOf store.session.engine { faults } with
    | mk outcome final =>
      rw [built] at returned
      cases outcome with
      | err error => cases returned
      | panic => cases returned
      | ok value =>
        have compacted := buildCompactedFile_ok keeps.live.indexed.mirrors built
        have schema : store.declared.restore final.reopen.tables.spaces = store.session.schema := by
          rw [keeps.restored]
          exact store.declared.restore_congr compacted.spaces
        obtain ⟨arranged, committed⟩ := keeps.live.compact landed.staged landed.unflushed built
          (same ▸ ascends)
        rw [same] at arranged
        have live : Arranged lossy ⟨final.reopen,
            store.declared.restore final.reopen.tables.spaces,
            IdentityIndex.rebuild final.reopen, []⟩ store.committed := by
          rw [schema]
          exact arranged
        exact ⟨live, rfl, rfl, ⟨_, live⟩, fun _ => ⟨⟨rfl, rfl, rfl, rfl, committed⟩, rfl⟩⟩

theorem KeepsWith.stepInOrder (keeps : KeepsWith (Arranged codecs.lossy) store)
    (step : StepAllowed codecs refit inOrder store next) :
    KeepsWith (Arranged codecs.lossy) next := by
  cases step with
  | openWriter closed => exact keeps.writer _ (by rw [closed]; rfl)
  | put _ once order returned =>
      exact keeps.put returned fun plan after done => keeps.live.put done once order
  | delete _ returned => exact keeps.delete returned fun after done => keeps.live.delete done
  | commit _ returned =>
      exact keeps.commit returned (fun after done => keeps.live.commit done)
        fun state given held settled => held.settle settled
  | dropWriter opened empty => exact keeps.writer _ (by rw [opened, empty]; rfl)
  | reopen _ ascends => exact keeps.reopenInOrder ascends
  | compact _ allowed returned => exact keeps.compactInOrder allowed.1 allowed.2 returned

/-- The vectors of every record come back one for each field, in the order of the shape, when they
are put in an order that the entry keeps and their spaces were registered in the order of the
fields. -/
theorem ordered_lists (codecs : StoreCodecs κ γ) (refit : Nat → κ → List (List F32) → Result κ)
    (reachable : Reachable Created (StepAllowed codecs refit inOrder) store) :
    store.ListsInOrder codecs.lossy := by
  have keeps : KeepsWith (Arranged codecs.lossy) store :=
    reachable.invariant (fun _ created => created.keepsOrder codecs.lossy)
      fun _ _ keeps step => keeps.stepInOrder step
  intro settled coll collectionId shape bound key given was
  obtain ⟨landed, same⟩ := keeps.settled settled
  exact keeps.live.get landed bound (same ▸ was)

/-- Spaces that were registered in the order of the fields suit every record. -/
theorem ascends_of_spaces {schema : SchemaRegistry γ} {shape : Shape} (record : Record)
    (spaces : shape.vectorSpaces.Pairwise fun first second => ∀ one two,
      schema.vectorSpaceId first = some one → schema.vectorSpaceId second = some two → one < two) :
    schema.Ascends shape record :=
  List.pairwise_map.mp (spaces.sublist (shape.arrange_spaces record))

end Runs

section Examples

open StoreSession (exactCodecs lookup_one)

/-- Two vector fields, whose spaces are calibrated at a commit. -/
def pairShape : Shape := ⟨[("title", .vector "titles" 1), ("body", .vector "bodies" 1)]⟩

def pairSchema : SchemaRegistry Unit where
  vectorSpaces := [("titles", ⟨1, .deferred 1 ()⟩), ("bodies", ⟨1, .deferred 1 ()⟩)]
  textSpaces := []
  collections := [("notes", ⟨0, some pairShape⟩)]

theorem pairSchema_deferred {name : String} {entry : VectorSpaceEntry Unit}
    (known : pairSchema.vectorSpaces.lookup name = some entry) : entry = ⟨1, .deferred 1 ()⟩ := by
  obtain ⟨before, after, split, _⟩ := List.lookup_eq_some_iff.mp known
  have member : (name, entry) ∈ pairSchema.vectorSpaces := by simp [split]
  simp only [pairSchema, List.mem_cons, Prod.mk.injEq, List.not_mem_nil, or_false] at member
  exact member.elim (·.2) (·.2)

theorem pairSchema_sound (spaceCount : Nat) : pairSchema.Sound spaceCount where
  ready := by
    intro name spaceId ready
    obtain ⟨dim, known⟩ := SchemaRegistry.vectorSpaceId_eq_some.mp ready
    cases pairSchema_deferred known
  distinct := by
    intro first second spaceId ready
    obtain ⟨dim, known⟩ := SchemaRegistry.vectorSpaceId_eq_some.mp ready
    cases pairSchema_deferred known
  sampled := by
    intro name dim sampleTarget codec known
    cases pairSchema_deferred known
    decide
  shaped := by
    intro coll collectionId shape bound
    cases (lookup_one (SchemaRegistry.bound_eq_some.mp bound)).2
    exact ⟨by decide, by decide, by decide⟩
  apart := by
    intro first second _ _ one other _
    rw [(lookup_one one).1, (lookup_one other).1]

def pairStore : KeyedStore Unit Unit where
  declared := pairSchema
  session := { engine := {}, schema := pairSchema.restore [], identity := {} }

theorem pairStore_created : pairStore.Created :=
  ⟨pairSchema, [], [], fun _ => false, pairSchema_sound 0, nofun, rfl⟩

def pairKey : Key := .u64 7

def titleFirst : Record where
  fields := [("title", .vector [⟨1⟩]), ("body", .vector [⟨2⟩])]

def bodyFirst : Record where
  fields := [("body", .vector [⟨2⟩]), ("title", .vector [⟨1⟩])]

def pairPut (record : Record) : KeyedStore Unit Unit :=
  { pairStore.writing (some []) with
    session := (pairStore.writing (some [])).session.put "notes" pairKey record 5 }

def pairCommit (record : Record) : KeyedStore Unit Unit :=
  { pairPut record with
    session := (pairPut record).session.commit exactCodecs
    committed := (pairPut record).session.given }

def sameCodec (_ : Nat) (codec : Unit) (_ : List (List F32)) : Result Unit := .ok codec

theorem titleFirst_ascends : (pairCommit titleFirst).CommittedAscend := by
  intro id given _ shape bound
  have titles : (pairCommit titleFirst).session.schema.vectorSpaceId "titles" = some 0 := by
    decide +kernel
  have bodies : (pairCommit titleFirst).session.schema.vectorSpaceId "bodies" = some 1 := by
    decide +kernel
  have collections : (pairCommit titleFirst).session.schema.collections = pairSchema.collections := by
    decide +kernel
  rw [SchemaRegistry.bound_eq_some, collections] at bound
  obtain rfl : shape = pairShape := by
    have same := (lookup_one bound).2
    exact Option.some.inj (CollectionRecord.mk.inj same).2
  refine ascends_of_spaces _ (List.pairwise_pair.mpr fun one two first second => ?_)
  obtain rfl := Option.some.inj (titles.symm.trans first)
  obtain rfl := Option.some.inj (bodies.symm.trans second)
  decide

/-- A record whose fields are put in the order of the shape is read, after the store was closed and
opened, as it was put. -/
theorem titleFirst_lists : ((pairCommit titleFirst).writing none).reopen.ListsInOrder
    exactCodecs.lossy := by
  have opened : Reachable Created (StepAllowed exactCodecs sameCodec inOrder)
      (pairStore.writing (some [])) := .step (.start pairStore_created) (.openWriter rfl)
  have order : (pairStore.writing (some [])).session.schema.PutsInOrder "notes" titleFirst := by
    intro collectionId shape bound
    cases (lookup_one (SchemaRegistry.bound_eq_some.mp bound)).2
    decide +kernel
  have put : Reachable Created (StepAllowed exactCodecs sameCodec inOrder) (pairPut titleFirst) :=
    opened.step (@StepAllowed.put _ _ _ _ _ _ "notes" pairKey titleFirst 5 nofun (by decide) order
      (by decide +kernel))
  have committed : Reachable Created (StepAllowed exactCodecs sameCodec inOrder)
      (pairCommit titleFirst) := put.step (.commit (by decide +kernel) (by decide +kernel))
  have closed : Reachable Created (StepAllowed exactCodecs sameCodec inOrder)
      ((pairCommit titleFirst).writing none) :=
    committed.step (@StepAllowed.dropWriter _ _ _ _ _ _ [] (by decide +kernel) rfl)
  exact ordered_lists exactCodecs sameCodec
    (closed.step (.reopen rfl titleFirst_ascends))

theorem lists_fails : ¬∀ store : KeyedStore Unit Unit,
    Reachable Created (StepAllowed exactCodecs sameCodec anything) store →
      store.ListsInOrder exactCodecs.lossy := by
  intro always
  have opened : Reachable Created (StepAllowed exactCodecs sameCodec anything)
      (pairStore.writing (some [])) := .step (.start pairStore_created) (.openWriter rfl)
  have put : Reachable Created (StepAllowed exactCodecs sameCodec anything) (pairPut bodyFirst) :=
    opened.step (@StepAllowed.put _ _ _ _ _ _ "notes" pairKey bodyFirst 5 nofun (by decide) trivial
      (by decide +kernel))
  have committed : Reachable Created (StepAllowed exactCodecs sameCodec anything)
      (pairCommit bodyFirst) := put.step (.commit (by decide +kernel) (by decide +kernel))
  have bound : (pairCommit bodyFirst).session.schema.bound "notes" = some (0, pairShape) := by
    decide +kernel
  have was : (pairCommit bodyFirst).committed (0, pairKey.encode) = some ⟨"notes", bodyFirst⟩ := by
    decide +kernel
  have read : Reader.get exactCodecs.lossy (pairCommit bodyFirst).session.state "notes" pairKey =
      .ok (some ⟨pairKey, "notes", 5, none, [("body", [⟨2⟩]), ("title", [⟨1⟩])]⟩) := by
    decide +kernel
  obtain ⟨stored, found, _, _, lists⟩ := always _ committed (by decide +kernel) "notes" 0 pairShape
    bound pairKey _ was
  obtain rfl := Option.some.inj (Outcome.ok.inj (read.symm.trans found))
  have fields : pairShape.populated bodyFirst = [("title", [⟨1⟩]), ("body", [⟨2⟩])] := by decide
  rw [fields] at lists
  cases lists with
  | cons first _ => exact absurd first.1 (by decide)

end Examples

end KeyedStore

end Valise
