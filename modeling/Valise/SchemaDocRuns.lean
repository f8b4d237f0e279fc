import Valise.SchemaDocs
import Valise.Library.Runs

/-!
Declarations of schemas over a whole run: while the doc of a collection still waits for a commit it
cannot be found, and a declaration then enters a second one. Without that there is one doc for each
collection, and every way to look it up selects it.
-/

namespace Valise

open ByteLists Commands Command Outcomes Runs

structure SchemaStore (κ ν : Type) where
  engine : StoreEngine κ := {}
  /-- The collections of this process, with the doc of each that has a schema. -/
  records : List (String × Option (SchemaDoc ν)) := []

abbrev SchemaCall (κ ν α : Type) := Command (SchemaStore κ ν) Error α

def rejectReservedName (what name : String) : Result Unit :=
  Outcome.ensure (name.toList.head? ≠ some '~') (.format
    s!"{what} name '{name}' is reserved: names starting with '~' are internal")

namespace SchemaStore

variable {κ ν : Type} [DecidableEq ν] (json : DocJson ν)

def onEngine {α : Type} (call : StoreEngine.Call κ α) : SchemaCall κ ν α := fun store =>
  let (outcome, engine) := call store.engine
  (outcome, { store with engine })

def docOf (store : SchemaStore κ ν) (name : String) : Option (SchemaDoc ν) :=
  (store.records.lookup name).join

def record (name : String) (doc : SchemaDoc ν) : SchemaCall κ ν Unit :=
  Command.modify fun store => { store with records := (name, some doc) :: store.records }

/-- The doc of this process is compared first; it may still wait for its commit. -/
def checkDeclared (store : SchemaStore κ ν) (name : String) (doc : SchemaDoc ν) : Result Unit :=
  match store.docOf name with
  | none => return ()
  | some prev => do
      let _ ← checkCompatible json name prev doc
      return ()

/-- A space of a field, with the codec it is registered with. -/
def bindSpace (space : κ × String × Nat) : StoreEngine.Call κ Unit := do
  let codecId ← StoreEngine.registerCodec space.1
  let _ ← StoreEngine.registerSpace space.2.1 space.2.2 codecId
  return ()

def collection (name : String) (fields : List (FieldDoc ν)) (spaces : List (κ × String × Nat)) :
    SchemaCall κ ν Unit := do
  lift (rejectReservedName "collection: collection" name)
  let store ← Command.get
  let doc : SchemaDoc ν := ⟨schemaDocVersion, fields⟩
  lift (store.checkDeclared json name doc)
  let plan ← lift (store.engine.planSync json name doc)
  onEngine (forEach spaces bindSpace)
  onEngine (StoreEngine.applySync json name doc plan)
  record name doc

/-- The lazy declaration of a partition. -/
def ensureCollectionWithShape (name : String) (fields : List (FieldDoc ν)) :
    SchemaCall κ ν Unit := do
  let store ← Command.get
  match store.docOf name with
  | some _ => return ()
  | none => do
      let doc : SchemaDoc ν := ⟨schemaDocVersion, fields⟩
      let plan ← lift (store.engine.planSync json name doc)
      onEngine (StoreEngine.applySync json name doc plan)
      record name doc

/-- An opened file: the newest doc of each name wins, where its spaces can be restored. -/
def rebuilt (engine : StoreEngine κ) (docs : List (String × SchemaDoc ν))
    (restored : String × SchemaDoc ν → Bool) : SchemaStore κ ν where
  engine := engine
  records := ((docs.filter restored).map fun item => (item.1, some item.2)).reverse

end SchemaStore

namespace StoreEngine

variable {κ : Type}

def activeFrames (engine : StoreEngine κ) : List Nat :=
  (List.range engine.tables.frames.length).filter engine.tables.activeFrame

/-- What still waits is lost, and a parent that is gone leaves its child at the root. -/
def compactedRow (engine : StoreEngine κ) (frameId : Nat) (row : FrameRow) : FrameRow :=
  { row with
    uri := engine.readFrameUri frameId
    payload := if frameId ∈ engine.unflushed then [] else row.payload
    parent := row.parent.bind fun parent =>
      (engine.activeFrames.filter (· < frameId)).idxOf? parent }

def compactedFrames (engine : StoreEngine κ) : List FrameRow :=
  (engine.tables.frames.zipIdx.filter fun item => item.1.active).map fun item =>
    engine.compactedRow item.2 item.1

def withFaults (engine : StoreEngine κ) (faults : StorePoint → Bool) : StoreEngine κ :=
  { engine with faults := faults }

end StoreEngine

namespace FrameRow

/-- The frame is a doc of the collection. -/
def DocOf (coll : String) (row : FrameRow) : Prop :=
  row.collectionId = StoreEngine.schemaCollectionId ∧ row.uri = some (docUri coll)

instance (coll : String) (row : FrameRow) : Decidable (row.DocOf coll) :=
  inferInstanceAs (Decidable (_ ∧ _))

end FrameRow

namespace StoreEngine

variable {κ : Type} (engine : StoreEngine κ)

/-- The active docs of the collection, the ones that wait included. -/
def docsOf (coll : String) : List Nat :=
  engine.docFrames.filter fun frameId => engine.tables.frames[frameId]?.any fun row => row.DocOf coll

/-- A doc of the collection waits for its flush. -/
def DocWaits (coll : String) : Prop := ∃ frameId ∈ engine.docsOf coll, frameId ∈ engine.unflushed

instance (coll : String) : Decidable (engine.DocWaits coll) :=
  inferInstanceAs (Decidable (∃ frameId ∈ engine.docsOf coll, frameId ∈ engine.unflushed))

end StoreEngine

section Runs

variable {κ ν : Type} [DecidableEq ν] (json : DocJson ν)

/-- The steps of a store: declarations and lazy partitions where they are allowed, frames of users,
whatever leaves the frames alone, commits, compactions and reopenings. -/
inductive DocStep (allowed : SchemaStore κ ν → String → Prop) :
    SchemaStore κ ν → SchemaStore κ ν → Prop where
  | collection {store} (faults : StorePoint → Bool) (name fields spaces) : allowed store name →
      DocStep allowed store
        (SchemaStore.collection json name fields spaces
          { store with engine := store.engine.withFaults faults }).2
  | partition {store} (faults : StorePoint → Bool) (name fields) :
      store.docOf name ≠ none ∨ allowed store name →
      DocStep allowed store
        (SchemaStore.ensureCollectionWithShape json name fields
          { store with engine := store.engine.withFaults faults }).2
  | putFrame {store} (faults : StorePoint → Bool) (row : FrameRow) :
      row.collectionId ≠ StoreEngine.schemaCollectionId →
      DocStep allowed store
        { store with engine := (StoreEngine.putFrame row (store.engine.withFaults faults)).2 }
  | deleteFrame {store} (faults : StorePoint → Bool) (frameId : Nat) :
      frameId ∉ store.engine.docFrames →
      DocStep allowed store
        { store with engine := (StoreEngine.deleteFrame frameId (store.engine.withFaults faults)).2 }
  | aside {store : SchemaStore κ ν} {engine : StoreEngine κ} :
      engine.tables.frames = store.engine.tables.frames →
      engine.durable.frames = store.engine.durable.frames →
      engine.unflushed = store.engine.unflushed → DocStep allowed store { store with engine }
  | commit {store} (faults : StorePoint → Bool) :
      DocStep allowed store
        { store with engine := (StoreEngine.commit (store.engine.withFaults faults)).2 }
  | compact {store : SchemaStore κ ν} {engine : StoreEngine κ} (docs restored) :
      engine.tables.frames = store.engine.compactedFrames → engine.durable = engine.tables →
      engine.unflushed = [] → engine.loadAll json = .ok docs →
      DocStep allowed store (SchemaStore.rebuilt engine docs restored)
  | reopen {store : SchemaStore κ ν} (docs restored) :
      store.engine.reopen.loadAll json = .ok docs →
      DocStep allowed store (SchemaStore.rebuilt store.engine.reopen docs restored)

end Runs

/-! ### What the steps keep -/

section Docs

variable {κ ν : Type} (json : DocJson ν)

/-- No doc of a collection is active when a later frame is a doc of it too. -/
def OnlyLatest (rows : List FrameRow) : Prop :=
  rows.Pairwise fun row later => row.active = true → ∀ coll, row.DocOf coll → ¬later.DocOf coll

/-- The frames of the docs hold docs of this version. -/
def HoldDocs (rows : List FrameRow) : Prop :=
  ∀ row ∈ rows, row.collectionId = StoreEngine.schemaCollectionId → row.uri = none ∨
    ∃ coll doc, row.uri = some (docUri coll) ∧ doc.valiseSchema = schemaDocVersion ∧
      json.toVec doc = .ok row.payload

structure GoodDocs (rows : List FrameRow) : Prop where
  latest : OnlyLatest rows
  held : HoldDocs json rows

def NoneActive (coll : String) (rows : List FrameRow) : Prop :=
  ∀ row ∈ rows, row.DocOf coll → row.active = false

structure GoodEngine (engine : StoreEngine κ) : Prop where
  live : GoodDocs json engine.tables.frames
  durable : GoodDocs json engine.durable.frames

variable {json} {rows : List FrameRow}

theorem GoodDocs.nil : GoodDocs json [] := ⟨List.Pairwise.nil, nofun⟩

/-- A frame that is no doc, or the doc of a collection that has none, may enter. -/
theorem GoodDocs.enter (good : GoodDocs json rows) {row : FrameRow}
    (free : ∀ coll, row.DocOf coll → NoneActive coll rows)
    (holds : row.collectionId = StoreEngine.schemaCollectionId → row.uri = none ∨
      ∃ coll doc, row.uri = some (docUri coll) ∧ doc.valiseSchema = schemaDocVersion ∧
        json.toVec doc = .ok row.payload) :
    GoodDocs json (rows ++ [row]) where
  latest := by
    refine List.pairwise_append.mpr ⟨good.latest, List.pairwise_singleton _ _, ?_⟩
    intro old member new single active coll isDoc newDoc
    obtain rfl := List.mem_singleton.mp single
    have inactive := free coll newDoc old member isDoc
    rw [active] at inactive
    cases inactive
  held other member := by
    rcases List.mem_append.mp member with old | new
    · exact good.held other old
    · obtain rfl := List.mem_singleton.mp new
      exact holds

theorem pairwise_modify {α : Type} {related : α → α → Prop} {change : α → α}
    (left : ∀ first second, related first second → related (change first) second)
    (right : ∀ first second, related first second → related first (change second))
    {items : List α} (pairwise : items.Pairwise related) (place : Nat) :
    (items.modify place change).Pairwise related := by
  induction items generalizing place with
  | nil => cases place <;> exact List.Pairwise.nil
  | cons item items ih =>
      obtain ⟨apart, rest⟩ := List.pairwise_cons.mp pairwise
      cases place with
      | zero =>
          rw [List.modify_zero_cons]
          exact List.pairwise_cons.mpr ⟨fun other member => left _ _ (apart other member), rest⟩
      | succ place =>
          rw [List.modify_succ_cons]
          refine List.pairwise_cons.mpr ⟨fun other member => ?_, ih rest place⟩
          obtain ⟨spot, bound, same⟩ := List.getElem_of_mem member
          rw [List.getElem_modify] at same
          have inside : spot < items.length := by simpa using bound
          have listed : items[spot] ∈ items := List.getElem_mem _
          split at same
          · exact same ▸ right _ _ (apart _ listed)
          · exact same ▸ apart _ listed

theorem mem_modify {α : Type} {change : α → α} {items : List α} {place : Nat} {item : α}
    (member : item ∈ items.modify place change) :
    item ∈ items ∨ ∃ old, items[place]? = some old ∧ item = change old := by
  obtain ⟨spot, bound, same⟩ := List.getElem_of_mem member
  have inside : spot < items.length := by simpa using bound
  rw [List.getElem_modify] at same
  split at same
  · rename_i here
    subst here
    exact .inr ⟨_, List.getElem?_eq_getElem inside, same.symm⟩
  · exact .inl (same ▸ List.getElem_mem _)

theorem GoodDocs.tombstone (good : GoodDocs json rows) (frameId : Nat) :
    GoodDocs json (rows.modify frameId fun row => { row with active := false }) where
  latest := by
    refine pairwise_modify ?_ ?_ good.latest frameId
    · intro first second _ active
      cases active
    · exact fun first second apart active coll isDoc => apart active coll isDoc
  held row member := by
    rcases mem_modify member with old | ⟨old, here, rfl⟩
    · exact good.held row old
    · exact good.held old (List.mem_of_getElem? here)

theorem GoodDocs.compacted {engine : StoreEngine κ} (good : GoodDocs json engine.tables.frames) :
    GoodDocs json engine.compactedFrames where
  latest := by
    have places : ((engine.tables.frames.zipIdx).map Prod.fst).Pairwise fun row later =>
        row.active = true → ∀ coll, row.DocOf coll → ¬FrameRow.DocOf coll later := by
      rw [List.zipIdx_map_fst]
      exact good.latest
    have readable : ∀ (item : FrameRow × Nat), item ∈ engine.tables.frames.zipIdx → ∀ coll,
        (engine.compactedRow item.2 item.1).DocOf coll → item.1.DocOf coll := by
      intro item member coll isDoc
      refine ⟨isDoc.1, ?_⟩
      have here := List.mem_zipIdx' member
      have read : engine.readFrameUri item.2 = some (docUri coll) := isDoc.2
      unfold StoreEngine.readFrameUri at read
      split at read
      · cases read
      · rw [List.getElem?_eq_getElem here.1, ← here.2] at read
        exact read
    refine List.pairwise_map.mpr (((List.pairwise_map.mp places).filter _).imp_of_mem ?_)
    intro item later itemListed laterListed apart active coll isDoc laterDoc
    have first := readable item (List.mem_filter.mp itemListed).1 coll isDoc
    have second := readable later (List.mem_filter.mp laterListed).1 coll laterDoc
    exact apart active coll first second
  held row member inSchema := by
    obtain ⟨item, listed, rfl⟩ := List.mem_map.mp member
    have here := List.mem_zipIdx' (List.mem_filter.mp listed).1
    by_cases waits : item.2 ∈ engine.unflushed
    · exact .inl (by simp [StoreEngine.compactedRow, StoreEngine.readFrameUri, waits])
    · have same : (engine.compactedRow item.2 item.1).uri = item.1.uri ∧
          (engine.compactedRow item.2 item.1).payload = item.1.payload := by
        simp [StoreEngine.compactedRow, StoreEngine.readFrameUri, waits,
          List.getElem?_eq_getElem here.1, ← here.2]
      rw [same.1, same.2]
      refine good.held item.1 ?_ inSchema
      rw [here.2]
      exact List.getElem_mem _

/-! ### The calls of the engine -/

section Engine

variable {engine : StoreEngine κ}

open StoreEngine

/-- A call that leaves the rows of the frames alone. -/
def SameFrames (start engine : StoreEngine κ) : Prop :=
  engine.tables.frames = start.tables.frames ∧ engine.durable.frames = start.durable.frames

theorem loseVectors_frames (taken : List Nat) (tables : StoreTables κ) :
    (taken.foldl StoreTables.loseVector tables).frames = tables.frames := by
  induction taken generalizing tables with
  | nil => rfl
  | cons vectorId rest ih => exact ih (tables.loseVector vectorId)

theorem commit_good : Keeps (GoodEngine json) (StoreEngine.commit (κ := κ)) := by
  have batches : ∀ spaceId, Keeps (GoodEngine json) (flushBatch (κ := κ) spaceId) := by
    intro spaceId
    refine keeps_bind keeps_get fun read => keeps_bind (keeps_modify fun _ good => ⟨good.1, good.2⟩)
      fun _ => keeps_ite (keeps_bind (keeps_modify fun engine good => ⟨?_, good.2⟩) fun _ =>
        keeps_lift _) (keeps_pure _)
    rw [loseVectors_frames]
    exact good.1
  exact keeps_bind (keeps_fallible _) fun _ =>
    keeps_bind (keeps_modify fun _ good => ⟨good.1, good.2⟩) fun _ => keeps_bind keeps_get fun _ =>
    keeps_bind (keeps_forEach batches _) fun _ => keeps_bind (keeps_fallible _) fun _ =>
    keeps_bind (keeps_modify fun _ good => ⟨good.1, good.1⟩) fun _ => keeps_fallible _

theorem flushFull_good : Keeps (GoodEngine json) (flushFull (κ := κ)) :=
  keeps_bind keeps_get fun _ => keeps_ite (keeps_bind (keeps_fallible _) fun _ =>
    keeps_modify fun _ good => ⟨good.1, good.2⟩) (keeps_pure _)

theorem putFrame_good {row : FrameRow}
    (holds : row.collectionId = schemaCollectionId → row.uri = none ∨
      ∃ coll doc, row.uri = some (docUri coll) ∧ doc.valiseSchema = schemaDocVersion ∧
        json.toVec doc = .ok row.payload) :
    Meets (fun engine : StoreEngine κ => GoodEngine json engine ∧
        ∀ coll, row.DocOf coll → NoneActive coll engine.tables.frames) (StoreEngine.putFrame row)
      (fun _ => GoodEngine json) (GoodEngine json) := by
  have weaker : ∀ engine : StoreEngine κ, (GoodEngine json engine ∧
      ∀ coll, row.DocOf coll → NoneActive coll engine.tables.frames) → GoodEngine json engine :=
    fun _ holds => holds.1
  refine meets_bind ((keeps_fallible _).meets.weaken (fun _ holds => holds) (fun _ _ holds => holds)
    weaker) fun _ => ?_
  refine meets_get_bind fun read free => meets_modify_bind ?_
  refine meets_bind (m := fun _ => GoodEngine json) ?_ fun _ => meets_pure _ fun _ good => good
  refine flushFull_good.meets.weaken ?_ (fun _ _ good => good) fun _ good => good
  rintro _ ⟨earlier, rfl, rfl⟩
  exact ⟨free.1.live.enter free.2 holds, free.1.durable⟩

theorem deleteFrame_good (frameId : Nat) :
    Keeps (GoodEngine json) (StoreEngine.deleteFrame frameId : Call κ Unit) :=
  keeps_bind keeps_get fun _ => keeps_bind (keeps_lift _) fun _ => keeps_bind (keeps_fallible _)
    fun _ => keeps_modify fun _ good => ⟨good.live.tombstone frameId, good.durable⟩

theorem bindSpace_same {start : StoreEngine κ} (space : κ × String × Nat) :
    Keeps (SameFrames start) (SchemaStore.bindSpace space) := by
  refine keeps_bind ?_ fun codecId => keeps_bind ?_ fun _ => keeps_pure _
  · exact keeps_bind (keeps_fallible _) fun _ => keeps_bind keeps_get fun _ =>
      keeps_bind (keeps_modify fun _ same => same) fun _ => keeps_bind (keeps_fallible _) fun _ =>
      keeps_pure _
  · exact keeps_bind (keeps_fallible _) fun _ => keeps_bind keeps_get fun _ =>
      keeps_bind (keeps_modify fun _ same => same) fun _ => keeps_pure _

/-! ### Plans -/

theorem mem_docsOf {coll : String} {frameId : Nat} : frameId ∈ engine.docsOf coll ↔
    ∃ row, engine.tables.frames[frameId]? = some row ∧ row.active = true ∧ row.DocOf coll := by
  simp only [docsOf, docFrames, List.mem_filter, List.mem_range, Option.any_eq_true,
    Bool.and_eq_true, decide_eq_true_eq]
  constructor
  · rintro ⟨⟨_, row, found, active, _⟩, other, same, isDoc⟩
    rw [found] at same
    obtain rfl := Option.some.inj same
    exact ⟨row, found, active, isDoc⟩
  · rintro ⟨row, found, active, isDoc⟩
    have bound := (List.getElem?_eq_some_iff.mp found).1
    exact ⟨⟨bound, row, found, active, isDoc.1⟩, row, found, isDoc⟩

/-- Only the last doc of a collection can be active. -/
theorem GoodDocs.last (good : GoodDocs json rows) {coll : String} {place later : Nat}
    {row other : FrameRow} (here : rows[place]? = some row) (there : rows[later]? = some other)
    (active : row.active = true) (isDoc : row.DocOf coll) (otherDoc : other.DocOf coll) :
    later ≤ place := by
  by_contra after
  obtain ⟨bound, rfl⟩ := List.getElem?_eq_some_iff.mp here
  obtain ⟨laterBound, rfl⟩ := List.getElem?_eq_some_iff.mp there
  have apart := List.pairwise_iff_getElem.mp good.latest place later bound laterBound (by omega)
  exact apart active coll isDoc otherDoc

theorem docsOf_unique (good : GoodEngine json engine) {coll : String} {first second : Nat}
    (firstDoc : first ∈ engine.docsOf coll) (secondDoc : second ∈ engine.docsOf coll) :
    first = second := by
  obtain ⟨row, here, active, isDoc⟩ := mem_docsOf.mp firstDoc
  obtain ⟨other, there, otherActive, otherDoc⟩ := mem_docsOf.mp secondDoc
  have after := good.live.last here there active isDoc otherDoc
  have before := good.live.last there here otherActive otherDoc isDoc
  omega

theorem decode_held (reads : json.ReadsBack) (good : GoodEngine json engine) {coll : String}
    {frameId : Nat} (isDoc : frameId ∈ engine.docsOf coll) :
    ∃ doc, SchemaDoc.decode json (engine.readPayload frameId) = .ok (some doc) := by
  obtain ⟨row, here, active, inSchema, named⟩ := mem_docsOf.mp isDoc
  rcases good.live.held row (List.mem_of_getElem? here) inSchema with none | held
  · rw [none] at named
    cases named
  · obtain ⟨_, doc, _, version, printed⟩ := held
    obtain ⟨probed, parsed⟩ := reads doc row.payload printed
    refine ⟨doc, ?_⟩
    simp [SchemaDoc.decode, readPayload, here, probed, version, parsed]

theorem readFrameUri_doc {coll : String} {frameId : Nat} (isDoc : frameId ∈ engine.docsOf coll)
    (settled : frameId ∉ engine.unflushed) : engine.readFrameUri frameId = some (docUri coll) := by
  obtain ⟨row, here, _, _, named⟩ := mem_docsOf.mp isDoc
  simp [readFrameUri, settled, here, named]

/-- A frame that is found under the collection's key is an active doc of it. -/
theorem docsOf_of_read {coll : String} {frameId : Nat} (listed : frameId ∈ engine.docFrames)
    (read : engine.readFrameUri frameId = some (docUri coll)) : frameId ∈ engine.docsOf coll := by
  simp only [docFrames, List.mem_filter, List.mem_range, Option.any_eq_true, Bool.and_eq_true,
    decide_eq_true_eq] at listed
  obtain ⟨_, row, here, active, inSchema⟩ := listed
  refine mem_docsOf.mpr ⟨row, here, active, inSchema, ?_⟩
  unfold readFrameUri at read
  split at read
  · cases read
  · rw [here] at read
    exact read

/-- What is found is the collection's doc; when nothing is, there is none or it waits. -/
theorem findDoc_finds (reads : json.ReadsBack) (good : GoodEngine json engine) (coll : String) :
    (engine.findDoc json coll = .ok none ∧
      ∀ frameId ∈ engine.docsOf coll, frameId ∈ engine.unflushed) ∨
    ∃ frameId doc, engine.findDoc json coll = .ok (some (frameId, doc)) ∧
      frameId ∈ engine.docsOf coll ∧ frameId ∉ engine.unflushed ∧
      SchemaDoc.decode json (engine.readPayload frameId) = .ok (some doc) := by
  cases found : engine.docFrames.find? fun frameId =>
      engine.readFrameUri frameId = some (docUri coll) with
  | none =>
      refine .inl ⟨by simp [findDoc, found], fun frameId isDoc => ?_⟩
      by_contra settled
      have listed := (List.mem_filter.mp isDoc).1
      have missed := List.find?_eq_none.mp found frameId listed
      exact missed (decide_eq_true (readFrameUri_doc isDoc settled))
  | some frameId =>
      have read : engine.readFrameUri frameId = some (docUri coll) := by
        simpa using List.find?_some found
      have isDoc := docsOf_of_read (List.mem_of_find?_eq_some found) read
      obtain ⟨doc, decoded⟩ := decode_held reads good isDoc
      refine .inr ⟨frameId, doc, by simp [findDoc, found, decoded], isDoc, fun waits => ?_, decoded⟩
      simp [readFrameUri, waits] at read

/-- The plan replaces the collection's only doc, or there is none. -/
def PlanFits (coll : String) (plan : DocSync Nat) (rows : List FrameRow) : Prop :=
  match plan with
  | .upToDate => True
  | .write none => NoneActive coll rows
  | .write (some frameId) => ∃ row, rows[frameId]? = some row ∧ row.active = true ∧ row.DocOf coll

theorem noneActive_of_docsOf {coll : String} (none : ∀ frameId, frameId ∉ engine.docsOf coll) :
    NoneActive coll engine.tables.frames := by
  intro row member isDoc
  obtain ⟨place, bound, rfl⟩ := List.getElem_of_mem member
  by_contra active
  refine none place (mem_docsOf.mpr ⟨_, List.getElem?_eq_getElem bound, ?_, isDoc⟩)
  simpa using active

theorem planSync_fits [DecidableEq ν] (reads : json.ReadsBack) (good : GoodEngine json engine)
    {coll : String} (settled : ¬engine.DocWaits coll) {newDoc : SchemaDoc ν} {plan : DocSync Nat}
    (planned : engine.planSync json coll newDoc = .ok plan) :
    PlanFits coll plan engine.tables.frames := by
  rcases findDoc_finds reads good coll with ⟨found, waits⟩ | ⟨frameId, doc, found, isDoc, _, _⟩
  · simp only [planSync, found, Outcome.ok_bind, Outcome.pure_eq, Outcome.ok.injEq] at planned
    subst planned
    exact noneActive_of_docsOf fun frameId isDoc => settled ⟨frameId, isDoc, waits frameId isDoc⟩
  · simp only [planSync, found, Outcome.ok_bind, Outcome.bind_eq_ok, Outcome.pure_eq,
      Outcome.ok.injEq] at planned
    obtain ⟨same, _, rfl⟩ := planned
    split
    · trivial
    · exact mem_docsOf.mp isDoc

theorem NoneActive.of_tombstone (good : GoodDocs json rows) {coll : String} {frameId : Nat}
    {row : FrameRow} (here : rows[frameId]? = some row) (active : row.active = true)
    (isDoc : row.DocOf coll) :
    NoneActive coll (rows.modify frameId fun row => { row with active := false }) := by
  intro other member otherDoc
  obtain ⟨place, bound, same⟩ := List.getElem_of_mem member
  rw [List.getElem_modify] at same
  have inside : place < rows.length := by simpa using bound
  split at same
  · rw [← same]
  · rename_i apart
    subst same
    by_contra otherActive
    have there : rows[place]? = some rows[place] := List.getElem?_eq_getElem inside
    have after := good.last here there active isDoc otherDoc
    have before := good.last there here (by simpa using otherActive) otherDoc isDoc
    omega

theorem applySync_good {coll : String} {newDoc : SchemaDoc ν}
    (version : newDoc.valiseSchema = schemaDocVersion) (plan : DocSync Nat) :
    Meets (fun engine : StoreEngine κ => GoodEngine json engine ∧
        PlanFits coll plan engine.tables.frames) (StoreEngine.applySync json coll newDoc plan)
      (fun _ => GoodEngine json) (GoodEngine json) := by
  have enter : Meets (fun engine : StoreEngine κ => GoodEngine json engine ∧
      NoneActive coll engine.tables.frames) (do
        let payload ← lift (json.toVec newDoc)
        let engine ← Command.get
        let _ ← StoreEngine.putFrame {
          collectionId := schemaCollectionId
          createdAt := engine.watermark
          uri := some (docUri coll)
          payload := payload
          parent := none }
        return ()) (fun _ => GoodEngine json) (GoodEngine json) := by
    refine meets_bind (m := fun payload (engine : StoreEngine κ) => (GoodEngine json engine ∧
      NoneActive coll engine.tables.frames) ∧ json.toVec newDoc = .ok payload)
      (meets_lift (fun _ _ done holds => ⟨holds, done⟩) fun _ holds => holds.1) fun payload => ?_
    refine meets_get_bind fun read holds => ?_
    obtain ⟨⟨good, free⟩, printed⟩ := holds
    refine meets_bind (m := fun _ => GoodEngine json) ?_ fun _ => meets_pure _ fun _ good => good
    refine (putFrame_good fun _ => .inr ⟨coll, newDoc, rfl, version, printed⟩).weaken ?_
      (fun _ _ good => good) fun _ good => good
    rintro _ rfl
    refine ⟨good, fun other isDoc => ?_⟩
    rw [← docUri_inj (Option.some.inj isDoc.2)]
    exact free
  cases plan with
  | upToDate => exact meets_pure _ fun _ holds => holds.1
  | write replace =>
      cases replace with
      | none =>
          refine meets_bind (m := fun _ (engine : StoreEngine κ) => GoodEngine json engine ∧
            NoneActive coll engine.tables.frames) (meets_pure _ fun _ holds => holds) fun _ => enter
      | some frameId =>
          refine meets_bind (m := fun _ (engine : StoreEngine κ) => GoodEngine json engine ∧
            NoneActive coll engine.tables.frames) ?_ fun _ => enter
          refine meets_get_bind fun read holds => ?_
          obtain ⟨good, row, here, active, isDoc⟩ := holds
          have kept : ∀ engine, engine = read → GoodEngine json engine := by
            rintro _ rfl
            exact good
          refine meets_bind (meets_lift (fun _ _ _ same => same) kept) fun _ =>
            meets_bind ((keeps_fallible _).meets.weaken (fun _ same => same) (fun _ _ same => same)
              kept) fun _ => meets_modify ?_
          rintro _ rfl
          exact ⟨⟨good.live.tombstone frameId, good.durable⟩,
            .of_tombstone good.live here active isDoc⟩

end Engine

end Docs

/-! ### Every run -/

namespace SchemaStore

variable {κ ν : Type} {json : DocJson ν}

def Starts (store : SchemaStore κ ν) : Prop :=
  store.engine.tables.frames = [] ∧ store.engine.durable.frames = [] ∧
    store.engine.unflushed = [] ∧ store.records = []

/-- A call of the engine that meets a postcondition also does so from the store. -/
theorem meets_onEngine {α : Type} {before failed : StoreEngine κ → Prop}
    {after : α → StoreEngine κ → Prop} {call : StoreEngine.Call κ α}
    (met : Meets before call after failed) :
    Meets (fun store : SchemaStore κ ν => before store.engine) (onEngine call)
      (fun value store => after value store.engine) (fun store => failed store.engine) := by
  intro store holds
  have reached := met store.engine holds
  unfold onEngine
  revert reached
  rcases call store.engine with ⟨_ | _ | _, final⟩
  · exact id
  · exact id
  · exact id

variable [DecidableEq ν]

theorem collection_good (reads : json.ReadsBack) (store : SchemaStore κ ν)
    (good : GoodEngine json store.engine) {name : String}
    (settled : ¬store.engine.DocWaits name) (fields : List (FieldDoc ν))
    (spaces : List (κ × String × Nat)) :
    GoodEngine json (collection json name fields spaces store).2.engine := by
  let Good := fun store : SchemaStore κ ν => GoodEngine json store.engine
  have keeps : Meets (fun read => read = store) (collection json name fields spaces)
      (fun _ => Good) Good := by
    have here : ∀ read, read = store → Good read := by
      rintro _ rfl
      exact good
    refine meets_bind (meets_lift (fun _ _ _ same => same) here) fun _ =>
      meets_get_bind fun read same => ?_
    subst same
    refine meets_bind (meets_lift (fun _ _ _ same => same) here) fun _ =>
      meets_bind (m := fun plan state => state = read ∧
        read.engine.planSync json name ⟨schemaDocVersion, fields⟩ = .ok plan)
        (meets_lift (fun _ _ planned same => ⟨same, planned⟩) here) fun plan => ?_
    refine meets_bind (m := fun _ state => GoodEngine json state.engine ∧
      PlanFits name plan state.engine.tables.frames) ?_ fun _ => meets_bind
      (m := fun _ => Good) (meets_onEngine (applySync_good rfl plan)) fun _ =>
      meets_modify fun _ holds => holds
    intro state holds
    obtain ⟨rfl, planned⟩ := holds
    have fits := planSync_fits reads good settled planned
    have kept : Keeps (SameFrames state.engine) (forEach spaces bindSpace) :=
      keeps_forEach bindSpace_same spaces
    have carried : ∀ engine : StoreEngine κ, SameFrames state.engine engine →
        GoodEngine json engine ∧ PlanFits name plan engine.tables.frames := by
      rintro engine ⟨live, durable⟩
      exact ⟨⟨live ▸ good.live, durable ▸ good.durable⟩, live ▸ fits⟩
    exact meets_onEngine (kept.meets.weaken (fun _ holds => holds) (fun _ => carried)
      fun engine holds => (carried engine holds).1) state ⟨rfl, rfl⟩
  exact keeps.final rfl

theorem partition_good (reads : json.ReadsBack) (store : SchemaStore κ ν)
    (good : GoodEngine json store.engine) {name : String}
    (settled : store.docOf name ≠ none ∨ ¬store.engine.DocWaits name)
    (fields : List (FieldDoc ν)) :
    GoodEngine json (ensureCollectionWithShape json name fields store).2.engine := by
  let Good := fun store : SchemaStore κ ν => GoodEngine json store.engine
  have keeps : Meets (fun read => read = store) (ensureCollectionWithShape json name fields)
      (fun _ => Good) Good := by
    have here : ∀ read, read = store → Good read := by
      rintro _ rfl
      exact good
    refine meets_get_bind fun read same => ?_
    subst same
    split
    · exact meets_pure _ here
    · rename_i unknown
      have free : ¬read.engine.DocWaits name := settled.resolve_left (not_not.mpr unknown)
      refine meets_bind (m := fun plan state => state = read ∧
        read.engine.planSync json name ⟨schemaDocVersion, fields⟩ = .ok plan)
        (meets_lift (fun _ _ planned same => ⟨same, planned⟩) here) fun plan => ?_
      refine meets_bind (m := fun _ => Good) ?_ fun _ => meets_modify fun _ holds => holds
      intro state holds
      obtain ⟨rfl, planned⟩ := holds
      exact meets_onEngine (applySync_good rfl plan) state
        ⟨good, planSync_fits reads good free planned⟩
  exact keeps.final rfl

/-- No collection is declared while its doc still waits for a commit. -/
def Patient (store : SchemaStore κ ν) (name : String) : Prop := ¬store.engine.DocWaits name

theorem reachable_good (reads : json.ReadsBack) {store : SchemaStore κ ν}
    (reached : Reachable Starts (DocStep json Patient) store) : GoodEngine json store.engine := by
  induction reached with
  | start starts =>
    obtain ⟨live, durable, _⟩ := starts
    exact ⟨live ▸ .nil, durable ▸ .nil⟩
  | @step before after _ step good =>
    cases step with
    | collection faults name fields spaces settled =>
        have start : GoodEngine json (before.engine.withFaults faults) := ⟨good.1, good.2⟩
        exact collection_good reads ⟨_, before.records⟩ start settled fields spaces
    | partition faults name fields settled =>
        have start : GoodEngine json (before.engine.withFaults faults) := ⟨good.1, good.2⟩
        exact partition_good reads ⟨_, before.records⟩ start settled fields
    | putFrame faults row user =>
        refine (putFrame_good fun inSchema => absurd inSchema user).final ⟨⟨good.1, good.2⟩, ?_⟩
        exact fun _ isDoc => absurd isDoc.1 user
    | deleteFrame faults frameId _ => exact deleteFrame_good frameId _ ⟨good.1, good.2⟩
    | aside live durable _ => exact ⟨live ▸ good.1, durable ▸ good.2⟩
    | commit faults => exact commit_good _ ⟨good.1, good.2⟩
    | compact docs restored frames durable unflushed loaded =>
        have compacted := good.live.compacted
        exact ⟨frames ▸ compacted, durable ▸ frames ▸ compacted⟩
    | reopen docs restored loaded => exact ⟨good.2, good.2⟩

/-! ### One doc for each collection -/

omit [DecidableEq ν] in
/-- Every doc that can be read is loaded. -/
theorem loadDocs_loads (reads : json.ReadsBack) {engine : StoreEngine κ}
    (good : GoodEngine json engine) {frameIds : List Nat}
    (listed : ∀ frameId ∈ frameIds, frameId ∈ engine.docFrames) :
    ∃ docs, engine.loadDocs json frameIds = .ok docs ∧ ∀ coll doc, (coll, doc) ∈ docs ↔
      ∃ frameId ∈ frameIds, engine.readFrameUri frameId = some (docUri coll) ∧
        SchemaDoc.decode json (engine.readPayload frameId) = .ok (some doc) := by
  induction frameIds with
  | nil => exact ⟨[], rfl, by simp⟩
  | cons frameId rest ih =>
      obtain ⟨docs, loaded, member⟩ := ih fun other inRest => listed other (List.mem_cons_of_mem _ inRest)
      cases uri : (engine.readFrameUri frameId).bind decodeDocUri with
      | none =>
          refine ⟨docs, by simp [StoreEngine.loadDocs, uri, loaded], fun coll doc => ?_⟩
          rw [member, List.exists_mem_cons_iff]
          refine (or_iff_right ?_).symm
          rintro ⟨read, _⟩
          simp [read] at uri
      | some named =>
          obtain ⟨bytes, read, decodedUri⟩ := Option.bind_eq_some_iff.mp uri
          rw [docUri_of_decodeDocUri decodedUri] at read
          obtain ⟨found, decoded⟩ := decode_held reads good
            (docsOf_of_read (listed frameId List.mem_cons_self) read)
          refine ⟨(named, found) :: docs, by simp [StoreEngine.loadDocs, uri, loaded, decoded],
            fun coll doc => ?_⟩
          rw [List.mem_cons, member, List.exists_mem_cons_iff]
          refine or_congr_left ?_
          rw [read, decoded]
          constructor
          · intro same
            obtain ⟨rfl, rfl⟩ := Prod.mk.inj same
            exact ⟨rfl, rfl⟩
          · rintro ⟨sameUri, sameDoc⟩
            rw [docUri_inj (Option.some.inj sameUri), Option.some.inj (Outcome.ok.inj sameDoc)]

omit [DecidableEq ν] in
theorem docOf_rebuilt {engine : StoreEngine κ} {docs : List (String × SchemaDoc ν)} {coll : String}
    {found : Option (SchemaDoc ν)}
    (only : ∀ doc, (coll, doc) ∈ docs ↔ found = some doc) :
    (rebuilt engine docs fun _ => true).docOf coll = found := by
  have listed : ∀ doc, (coll, doc) ∈ (docs.map fun item => (item.1, some item.2)).reverse ↔
      ∃ inner, doc = some inner ∧ found = some inner := by
    intro doc
    rw [List.mem_reverse, List.mem_map]
    constructor
    · rintro ⟨⟨_, inner⟩, member, same⟩
      obtain ⟨rfl, rfl⟩ := Prod.mk.inj same
      exact ⟨inner, rfl, (only inner).mp member⟩
    · rintro ⟨inner, rfl, same⟩
      exact ⟨(coll, inner), (only inner).mpr same, rfl⟩
  rw [docOf, rebuilt, List.filter_true]
  cases looked : ((docs.map fun item => (item.1, some item.2)).reverse).lookup coll with
  | none =>
      cases found with
      | none => rfl
      | some doc =>
          have missing := List.lookup_eq_none_iff.mp looked (coll, some doc)
            ((listed _).mpr ⟨doc, rfl, rfl⟩)
          simp at missing
  | some doc =>
      obtain ⟨before, after, split, _⟩ := List.lookup_eq_some_iff.mp looked
      have member : (coll, doc) ∈ (docs.map fun item => (item.1, some item.2)).reverse :=
        split ▸ List.mem_append_right _ List.mem_cons_self
      obtain ⟨inner, rfl, rfl⟩ := (listed doc).mp member
      rfl

/-- Where no collection is declared while its doc waits, at most one doc of each collection is
active, the last that was declared; and a lookup, a load and a rebuild all select it once it can be
read. -/
theorem schemaDocs_agree (reads : json.ReadsBack) {store : SchemaStore κ ν}
    (reached : Reachable Starts (DocStep json Patient) store) (coll : String) :
    (∀ first ∈ store.engine.docsOf coll, ∀ second ∈ store.engine.docsOf coll, first = second) ∧
    (∀ frameId ∈ store.engine.docsOf coll, ∀ (later : Nat) row,
      store.engine.tables.frames[later]? = some row → row.DocOf coll → later ≤ frameId) ∧
    ∃ docs found, store.engine.loadAll json = .ok docs ∧ store.engine.findDoc json coll = .ok found ∧
      (∀ doc, (coll, doc) ∈ docs ↔ found.map Prod.snd = some doc) ∧
      (rebuilt store.engine docs fun _ => true).docOf coll = found.map Prod.snd ∧
      ∀ frameId, frameId ∈ store.engine.docsOf coll ∧ frameId ∉ store.engine.unflushed ↔
        found.map Prod.fst = some frameId := by
  have good := reachable_good reads reached
  refine ⟨fun first firstDoc second => docsOf_unique good firstDoc, ?_, ?_⟩
  · intro frameId isDoc later row there rowDoc
    obtain ⟨doc, here, active, docDoc⟩ := mem_docsOf.mp isDoc
    exact good.live.last here there active docDoc rowDoc
  obtain ⟨docs, loaded, member⟩ := loadDocs_loads reads good fun frameId listed => listed
  rcases findDoc_finds reads good coll with ⟨found, waits⟩ | ⟨frameId, doc, found, isDoc, settled,
    decoded⟩
  · have only : ∀ doc, (coll, doc) ∈ docs ↔
        (none : Option (Nat × SchemaDoc ν)).map Prod.snd = some doc := by
      intro doc
      rw [member]
      constructor
      · rintro ⟨frameId, listed, read, _⟩
        have waiting := waits frameId (docsOf_of_read listed read)
        simp [StoreEngine.readFrameUri, waiting] at read
      · exact fun same => nomatch same
    refine ⟨docs, none, loaded, found, only, docOf_rebuilt only, fun frameId => ?_⟩
    constructor
    · exact fun holds => absurd (waits frameId holds.1) holds.2
    · exact fun same => nomatch same
  · have only : ∀ other, (coll, other) ∈ docs ↔
        (some (frameId, doc)).map Prod.snd = some other := by
      intro other
      rw [member]
      constructor
      · rintro ⟨place, listed, read, otherDecoded⟩
        have same := docsOf_unique good (docsOf_of_read listed read) isDoc
        rw [same, decoded] at otherDecoded
        exact Outcome.ok.inj otherDecoded
      · intro same
        obtain rfl := Option.some.inj same
        exact ⟨frameId, (List.mem_filter.mp isDoc).1, readFrameUri_doc isDoc settled, decoded⟩
    refine ⟨docs, some (frameId, doc), loaded, found, only, docOf_rebuilt only, fun place => ?_⟩
    constructor
    · rintro ⟨placeDoc, _⟩
      exact congrArg some (docsOf_unique good isDoc placeDoc)
    · intro same
      obtain rfl := Option.some.inj same
      exact ⟨isDoc, settled⟩

end SchemaStore

/-! ### A schema that grows before its first commit -/

namespace Notes

def english : String := "\x7b\"lang\":\"english\"\x7d"

def bodyField : FieldDoc String := ⟨"body", kindText, "~auto/notes/body", some english⟩

def titleField : FieldDoc String := ⟨"title", kindText, "~auto/notes/title", some english⟩

def fieldText (field : FieldDoc String) : String :=
  "\x7b\"name\":\"" ++ field.name ++ "\",\"kind\":\"" ++ field.kind ++ "\",\"space\":\"" ++
    field.space ++ "\",\"spec\":" ++ field.spec.getD "null" ++ "\x7d"

def docBytes (doc : SchemaDoc String) : Bytes :=
  utf8 ("\x7b\"valise_schema\":1,\"fields\":[" ++
    String.intercalate "," (doc.fields.map fieldText) ++ "]\x7d")

def bodyDoc : SchemaDoc String := ⟨schemaDocVersion, [bodyField]⟩

def titledDoc : SchemaDoc String := ⟨schemaDocVersion, [bodyField, titleField]⟩

/-- The text of the two docs; no other occurs here. -/
def json : DocJson String where
  toVec doc := if doc = bodyDoc ∨ doc = titledDoc then .ok (docBytes doc)
    else .err (.format "schema doc encode")
  probe bytes := if bytes = docBytes bodyDoc ∨ bytes = docBytes titledDoc then .ok schemaDocVersion
    else .err (.format "schema doc: invalid JSON")
  fromSlice bytes := if bytes = docBytes bodyDoc then .ok bodyDoc
    else if bytes = docBytes titledDoc then .ok titledDoc
    else .err (.format "schema doc: malformed v1 doc")
  textSpec spec := if spec = english then some ⟨"english"⟩ else none
  vectorSpec _ := none
  toText := id

theorem json_readsBack : json.ReadsBack := by
  intro doc bytes printed
  by_cases known : doc = bodyDoc ∨ doc = titledDoc
  · have same : bytes = docBytes doc := by
      simpa [json, known] using printed.symm
    subst same
    rcases known with rfl | rfl
    · exact ⟨by decide +kernel, by decide +kernel⟩
    · exact ⟨by decide +kernel, by decide +kernel⟩
  · simp [json, known] at printed

def declare (store : SchemaStore Unit String) (fields : List (FieldDoc String)) :
    SchemaStore Unit String :=
  (SchemaStore.collection json "notes" fields []
    { store with engine := store.engine.withFaults fun _ => false }).2

def commit (store : SchemaStore Unit String) : SchemaStore Unit String :=
  { store with engine := (StoreEngine.commit (store.engine.withFaults fun _ => false)).2 }

section Reached

variable {allowed : SchemaStore Unit String → String → Prop} {store : SchemaStore Unit String}

theorem reached_empty :
    Reachable SchemaStore.Starts (DocStep json allowed) ({} : SchemaStore Unit String) :=
  .start ⟨rfl, rfl, rfl, rfl⟩

theorem reached_declare (fields : List (FieldDoc String)) (may : allowed store "notes")
    (reached : Reachable SchemaStore.Starts (DocStep json allowed) store) :
    Reachable SchemaStore.Starts (DocStep json allowed) (declare store fields) :=
  .step reached (.collection _ "notes" fields [] may)

theorem reached_commit (reached : Reachable SchemaStore.Starts (DocStep json allowed) store) :
    Reachable SchemaStore.Starts (DocStep json allowed) (commit store) :=
  .step reached (.commit _)

end Reached

/-- A field is added before the first declaration is committed. -/
def grown : SchemaStore Unit String :=
  commit (declare (declare {} [bodyField]) [bodyField, titleField])

/-- Two docs are active; a lookup finds the older one and a rebuild takes the newer one. -/
theorem grown_disagrees :
    json.ReadsBack ∧ Reachable SchemaStore.Starts (DocStep json fun _ _ => True) grown ∧
      grown.engine.docsOf "notes" = [0, 1] ∧
      grown.engine.findDoc json "notes" = .ok (some (0, bodyDoc)) ∧
      grown.engine.loadAll json = .ok [("notes", bodyDoc), ("notes", titledDoc)] ∧
      (SchemaStore.rebuilt grown.engine [("notes", bodyDoc), ("notes", titledDoc)]
        fun _ => true).docOf "notes" = some titledDoc := by
  refine ⟨json_readsBack, ?_, by decide +kernel, by decide +kernel, by decide +kernel,
    by decide +kernel⟩
  exact reached_commit (reached_declare _ trivial (reached_declare _ trivial reached_empty))

/-- The field is added after the commit. -/
def settled : SchemaStore Unit String :=
  declare (commit (declare {} [bodyField])) [bodyField, titleField]

theorem settled_agrees :
    ∃ docs found, settled.engine.loadAll json = .ok docs ∧
      settled.engine.findDoc json "notes" = .ok found ∧
      (SchemaStore.rebuilt settled.engine docs fun _ => true).docOf "notes" =
        found.map Prod.snd := by
  have reached : Reachable SchemaStore.Starts (DocStep json SchemaStore.Patient) settled := by
    refine reached_declare _ ?_ (reached_commit (reached_declare _ ?_ reached_empty))
    · unfold SchemaStore.Patient
      decide +kernel
    · unfold SchemaStore.Patient
      decide +kernel
  obtain ⟨_, _, docs, found, loaded, looked, _, rebuilt, _⟩ :=
    SchemaStore.schemaDocs_agree json_readsBack reached "notes"
  exact ⟨docs, found, loaded, looked, rebuilt⟩

end Notes

end Valise
