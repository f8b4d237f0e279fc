import Valise.SchemaDefinitions

/-!
Runs of declarations, calibrations and commits: the docs in the file are those of the collections of
the registry, and every field has its space as it was declared.
-/

namespace Valise

open ByteLists Commands Command Outcomes Runs

namespace Declarations

/-! ### Docs that are the same -/

section Lowered

variable {ν : Type} {library : SchemaLibrary ν}

/-- The spec of a doc field is the value of a spec of its kind. -/
def Lowers (library : SchemaLibrary ν) (field : FieldDoc ν) : Prop :=
  ∀ value, field.spec = some value →
    (field.kind = kindText ∧ ∃ spec, library.textValue spec = .ok value) ∨
      (field.kind = kindVector ∧ ∃ spec, library.vectorValue spec = .ok value)

theorem fieldDoc_eq {owner : String} {item : String × FieldSpec} {field : FieldDoc ν}
    (lowered : fieldDoc library owner item = .ok field) :
    ∃ spec, specValue library item.2 = .ok spec ∧
      field = ⟨item.1, item.2.kind, item.2.spaceName owner item.1, spec⟩ := by
  simp only [fieldDoc, Outcome.bind_eq_ok, Outcome.pure_eq, Outcome.ok.injEq] at lowered
  obtain ⟨spec, value, same⟩ := lowered
  exact ⟨spec, value, same.symm⟩

theorem lowers_of_fieldDoc {owner : String} {item : String × FieldSpec} {field : FieldDoc ν}
    (lowered : fieldDoc library owner item = .ok field) : Lowers library field := by
  obtain ⟨_, value, rfl⟩ := fieldDoc_eq lowered
  obtain ⟨name, spec⟩ := item
  rintro found rfl
  rcases spec with (lang | space) | ⟨spec | space, misuse⟩
  · simp only [specValue, Outcome.bind_eq_ok, Outcome.pure_eq, Outcome.ok.injEq,
      Option.some.injEq] at value
    obtain ⟨_, printed, rfl⟩ := value
    exact .inl ⟨rfl, _, printed⟩
  · cases value
  · simp only [specValue, Outcome.bind_eq_ok, Outcome.pure_eq, Outcome.ok.injEq,
      Option.some.injEq] at value
    obtain ⟨doc, _, _, printed, rfl⟩ := value
    exact .inr ⟨rfl, doc, printed⟩
  · cases value

theorem lowers_of_fieldDocs {owner : String} {items : List (String × FieldSpec)}
    {fields : List (FieldDoc ν)} (lowered : fieldDocs library owner items = .ok fields) :
    ∀ field ∈ fields, Lowers library field := by
  induction items generalizing fields with
  | nil =>
    obtain rfl := Outcome.ok.inj lowered
    exact nofun
  | cons item rest ih =>
    simp only [fieldDocs, Outcome.bind_eq_ok, Outcome.pure_eq, Outcome.ok.injEq] at lowered
    obtain ⟨field, first, others, loweredRest, rfl⟩ := lowered
    intro other member
    rcases List.mem_cons.mp member with rfl | inRest
    · exact lowers_of_fieldDoc first
    · exact ih loweredRest other inRest

variable [DecidableEq ν]

theorem fieldSame_self (json : DocJson ν) (field : FieldDoc ν) : fieldSame json field field = true := by
  obtain ⟨name, kind, space, spec⟩ := field
  cases spec with
  | none => simp [fieldSame]
  | some value =>
    cases text : json.textSpec value with
    | none =>
      cases vector : json.vectorSpec value with
      | none => simp [fieldSame, text, vector]
      | some spec => simp [fieldSame, text, vector]
    | some spec =>
      cases vector : json.vectorSpec value with
      | none => simp [fieldSame, text, vector]
      | some spec => simp [fieldSame, text, vector]

theorem checkFieldPairs_self (json : DocJson ν) (coll : String) (place : Nat)
    (fields : List (FieldDoc ν)) :
    checkFieldPairs json coll place (fields.zip fields) = .ok () := by
  induction fields generalizing place with
  | nil => rfl
  | cons field rest ih =>
    rw [List.zip_cons_cons, checkFieldPairs, Outcome.ensure_true _ (fieldSame_self json field),
      Outcome.ok_bind]
    exact ih (place + 1)

theorem checkCompatible_self (json : DocJson ν) (coll : String) (doc : SchemaDoc ν) :
    checkCompatible json coll doc doc = .ok true := by
  rw [checkCompatible, Outcome.ensure_true _ le_rfl, Outcome.ok_bind, checkFieldPairs_self]
  simp

/-- Fields whose parsed specs are equal have equal specs. -/
theorem eq_of_fieldSame (reads : library.ReadsBack) {first second : FieldDoc ν}
    (firstLowers : Lowers library first) (secondLowers : Lowers library second)
    (same : fieldSame library.toDocJson first second = true) : first = second := by
  obtain ⟨name, kind, space, spec⟩ := first
  obtain ⟨otherName, otherKind, otherSpace, otherSpec⟩ := second
  unfold fieldSame at same
  split at same
  · cases same
  · rename_i alike
    simp only [not_or, not_not, ne_eq] at alike
    obtain ⟨rfl, rfl, rfl⟩ := alike
    simp only [FieldDoc.mk.injEq, true_and]
    cases spec with
    | none =>
      cases otherSpec with
      | none => rfl
      | some value => simp at same
    | some value =>
      cases otherSpec with
      | none => simp at same
      | some other =>
        rcases firstLowers value rfl with ⟨text, spec, printed⟩ | ⟨vector, spec, printed⟩
        · rcases secondLowers other rfl with ⟨_, otherSpec, otherPrinted⟩ | ⟨vector, _⟩
          · simp only at text
            simp only [text, if_true, reads.text _ _ printed, reads.text _ _ otherPrinted,
              decide_eq_true_eq] at same
            subst same
            exact congrArg some (Outcome.ok.inj (printed.symm.trans otherPrinted))
          · exact absurd (text.symm.trans vector) (by decide)
        · rcases secondLowers other rfl with ⟨text, _⟩ | ⟨_, otherSpec, otherPrinted⟩
          · exact absurd (text.symm.trans vector) (by decide)
          · have notText : kind ≠ kindText := by
              simp only at vector
              rw [vector]
              decide
            simp only at vector
            simp only [if_neg notText, if_pos vector, reads.vector _ _ printed,
              reads.vector _ _ otherPrinted, decide_eq_true_eq] at same
            subst same
            exact congrArg some (Outcome.ok.inj (printed.symm.trans otherPrinted))

theorem eq_of_checkFieldPairs (reads : library.ReadsBack) {coll : String} {place : Nat}
    {old new : List (FieldDoc ν)} (oldLowers : ∀ field ∈ old, Lowers library field)
    (newLowers : ∀ field ∈ new, Lowers library field) (sameLength : new.length = old.length)
    (checked : checkFieldPairs library.toDocJson coll place (old.zip new) = .ok ()) :
    old = new := by
  induction old generalizing new place with
  | nil => exact (List.length_eq_zero_iff.mp sameLength).symm
  | cons field rest ih =>
    cases new with
    | nil => cases sameLength
    | cons other others =>
      simp only [List.zip_cons_cons, checkFieldPairs, Outcome.bind_eq_ok,
        Outcome.ensure_eq_ok] at checked
      obtain ⟨_, same, checked⟩ := checked
      have head := eq_of_fieldSame reads (oldLowers field List.mem_cons_self)
        (newLowers other List.mem_cons_self) same
      have tail := ih (fun field member => oldLowers field (List.mem_cons_of_mem _ member))
        (fun field member => newLowers field (List.mem_cons_of_mem _ member))
        (Nat.succ.inj sameLength) checked
      rw [head, tail]

/-- Docs of the same collection that a declaration finds no difference in are equal. -/
theorem eq_of_checkCompatible (reads : library.ReadsBack) {coll : String} {old new : SchemaDoc ν}
    {schema later : Schema} (oldLowered : docOfSchema library coll schema = .ok old)
    (newLowered : docOfSchema library coll later = .ok new)
    (checked : checkCompatible library.toDocJson coll old new = .ok true) : old = new := by
  obtain ⟨version, oldFields⟩ := docOfSchema_ok oldLowered
  obtain ⟨newVersion, newFields⟩ := docOfSchema_ok newLowered
  simp only [checkCompatible, Outcome.bind_eq_ok, Outcome.ensure_eq_ok, Outcome.pure_eq,
    Outcome.ok.injEq, decide_eq_true_eq] at checked
  obtain ⟨_, _, _, pairs, sameLength⟩ := checked
  have same := eq_of_checkFieldPairs reads (lowers_of_fieldDocs oldFields)
    (lowers_of_fieldDocs newFields) sameLength pairs
  obtain ⟨_, fields⟩ := old
  obtain ⟨_, others⟩ := new
  simp only at version newVersion same
  rw [version, newVersion, same]

end Lowered

/-! ### The docs of the collections -/

section Docs

variable {ν : Type}

def SchemaRegistry.docOf (registry : SchemaRegistry ν) (coll : String) : Option (SchemaDoc ν) :=
  (registry.collections coll).bind (·.doc)

/-- The active docs are those of the collections that have one. -/
structure DocsHold (json : DocJson ν) (docs : String → Option (SchemaDoc ν))
    (rows : List FrameRow) : Prop where
  held : ∀ row ∈ rows, row.active = true → ∀ coll, row.DocOf coll → ∃ doc,
    docs coll = some doc ∧ doc.valiseSchema = schemaDocVersion ∧ json.toVec doc = .ok row.payload
  there : ∀ coll doc, docs coll = some doc → ∃ row ∈ rows, row.active = true ∧ row.DocOf coll

variable {json : DocJson ν} {docs : String → Option (SchemaDoc ν)} {rows : List FrameRow}

theorem DocOf.unique {row : FrameRow} {first second : String} (isFirst : row.DocOf first)
    (isSecond : row.DocOf second) : first = second :=
  docUri_inj (Option.some.inj (isFirst.2.symm.trans isSecond.2))

theorem DocsHold.user (hold : DocsHold json docs rows) {row : FrameRow}
    (user : row.collectionId ≠ StoreEngine.schemaCollectionId) :
    DocsHold json docs (rows ++ [row]) where
  held other member active coll isDoc := by
    rcases List.mem_append.mp member with old | new
    · exact hold.held other old active coll isDoc
    · rw [List.mem_singleton.mp new] at isDoc
      exact absurd isDoc.1 user
  there coll doc found := by
    obtain ⟨row, member, isDoc⟩ := hold.there coll doc found
    exact ⟨row, List.mem_append_left _ member, isDoc⟩

theorem DocsHold.enter (hold : DocsHold json docs rows) {coll : String} {doc : SchemaDoc ν}
    {row : FrameRow} (free : NoneActive coll rows) (isDoc : row.DocOf coll)
    (active : row.active = true) (version : doc.valiseSchema = schemaDocVersion)
    (printed : json.toVec doc = .ok row.payload) :
    DocsHold json (Function.update docs coll (some doc)) (rows ++ [row]) where
  held other member otherActive named otherDoc := by
    rcases List.mem_append.mp member with old | new
    · have apart : named ≠ coll := by
        rintro rfl
        have gone := free other old otherDoc
        rw [otherActive] at gone
        cases gone
      rw [Function.update_of_ne apart]
      exact hold.held other old otherActive named otherDoc
    · rw [List.mem_singleton.mp new] at otherDoc ⊢
      obtain rfl := DocOf.unique otherDoc isDoc
      exact ⟨doc, Function.update_self .., version, printed⟩
  there named found stored := by
    by_cases same : named = coll
    · subst same
      exact ⟨row, List.mem_append_right _ (List.mem_singleton_self _), active, isDoc⟩
    · rw [Function.update_of_ne same] at stored
      obtain ⟨other, member, otherDoc⟩ := hold.there named found stored
      exact ⟨other, List.mem_append_left _ member, otherDoc⟩

theorem mem_modify_of_ne {place frameId : Nat} {row : FrameRow} (change : FrameRow → FrameRow)
    (here : rows[place]? = some row) (apart : place ≠ frameId) :
    row ∈ rows.modify frameId change := by
  refine List.mem_of_getElem? (i := place) ?_
  simp [here, apart.symm]

/-- Tombstoning a frame leaves the docs that are others as they were. -/
theorem DocsHold.tombstone (hold : DocsHold json docs rows) {frameId : Nat}
    (apart : ∀ coll doc, docs coll = some doc → ∀ row, rows[frameId]? = some row →
      row.active = true → ¬row.DocOf coll) :
    DocsHold json docs (rows.modify frameId fun row => { row with active := false }) where
  held other member active coll isDoc := by
    rcases mem_modify member with old | ⟨old, _, rfl⟩
    · exact hold.held other old active coll isDoc
    · cases active
  there coll doc found := by
    obtain ⟨row, member, active, isDoc⟩ := hold.there coll doc found
    obtain ⟨place, here⟩ := List.mem_iff_getElem?.mp member
    refine ⟨row, mem_modify_of_ne _ here ?_, active, isDoc⟩
    rintro rfl
    exact apart coll doc found row here active isDoc

/-- The doc of one collection is gone. -/
theorem DocsHold.replace (hold : DocsHold json docs rows) (good : GoodDocs json rows)
    {coll : String} {frameId : Nat} {row : FrameRow} (here : rows[frameId]? = some row)
    (active : row.active = true) (isDoc : row.DocOf coll) :
    DocsHold json (Function.update docs coll none)
      (rows.modify frameId fun row => { row with active := false }) := by
  have gone := NoneActive.of_tombstone good here active isDoc
  refine ⟨?_, ?_⟩
  · intro other member otherActive named otherDoc
    have apart : named ≠ coll := by
      rintro rfl
      have inactive := gone other member otherDoc
      rw [otherActive] at inactive
      cases inactive
    rw [Function.update_of_ne apart]
    rcases mem_modify member with old | ⟨old, _, rfl⟩
    · exact hold.held other old otherActive named otherDoc
    · cases otherActive
  · intro named doc stored
    have apart : named ≠ coll := by
      rintro rfl
      simp at stored
    rw [Function.update_of_ne apart] at stored
    obtain ⟨other, member, otherActive, otherDoc⟩ := hold.there named doc stored
    obtain ⟨place, there⟩ := List.mem_iff_getElem?.mp member
    refine ⟨other, mem_modify_of_ne _ there ?_, otherActive, otherDoc⟩
    rintro rfl
    obtain rfl := Option.some.inj (here.symm.trans there)
    exact apart (DocOf.unique otherDoc isDoc)

end Docs

/-! ### Declarations -/

section Declaring

variable {ν : Type} {library : SchemaLibrary ν}

def withoutDoc (rows : List FrameRow) : Option Nat → List FrameRow
  | none => rows
  | some frameId => rows.modify frameId fun row => { row with active := false }

theorem applySync_ok {json : DocJson ν} {coll : String} {newDoc : SchemaDoc ν} {plan : DocSync Nat}
    {engine final : StoreEngine CodecParams}
    (done : StoreEngine.applySync json coll newDoc plan engine = (.ok (), final)) :
    plan = .upToDate ∧ final = engine ∨ ∃ replace row, plan = .write replace ∧ row.DocOf coll ∧
      row.active = true ∧ json.toVec newDoc = .ok row.payload ∧
      final.tables.frames = withoutDoc engine.tables.frames replace ++ [row] := by
  cases plan with
  | upToDate => exact .inl ⟨rfl, (pure_eq_ok.mp done).2.symm⟩
  | write replace =>
    refine .inr ?_
    simp only [StoreEngine.applySync, bind_eq_ok, lift_eq_ok, get_eq_ok, pure_eq_ok] at done
    obtain ⟨_, middle, deleted, payload, _, ⟨printed, rfl⟩, _, _, ⟨rfl, rfl⟩, frameId, _, put,
      _, rfl⟩ := done
    obtain ⟨_, _, leaves⟩ := StoreEngine.putFrame_ok put
    have kept : middle.tables.frames = withoutDoc engine.tables.frames replace := by
      cases replace with
      | none =>
        obtain ⟨_, rfl⟩ := pure_eq_ok.mp deleted
        rfl
      | some old =>
        obtain rfl := StoreEngine.deleteFrame_ok deleted
        rfl
    refine ⟨replace, ⟨_, middle.watermark, _, payload, none, true⟩, rfl, ⟨rfl, rfl⟩, rfl, printed, ?_⟩
    rw [leaves.tables, ← kept]
    rfl

variable [DecidableEq ν] {engine final : StoreEngine CodecParams}

omit [DecidableEq ν] in
/-- A doc frame of a collection reads as the doc that the collection has. -/
theorem DocsHold.decodes (reads : library.ReadsBack) {coll : String}
    {docs : String → Option (SchemaDoc ν)}
    (hold : DocsHold library.toDocJson docs engine.tables.frames) {frameId : Nat}
    (isDoc : frameId ∈ engine.docsOf coll) :
    ∃ doc, docs coll = some doc ∧
      SchemaDoc.decode library.toDocJson (engine.readPayload frameId) = .ok (some doc) := by
  obtain ⟨row, here, active, rowDoc⟩ := mem_docsOf.mp isDoc
  obtain ⟨doc, stored, version, content⟩ :=
    hold.held row (List.mem_of_getElem? here) active coll rowDoc
  obtain ⟨probed, parsed⟩ := reads.docs doc row.payload content
  refine ⟨doc, stored, ?_⟩
  simp [SchemaDoc.decode, StoreEngine.readPayload, here, probed, version, parsed]

/-- After a declaration the doc of the collection is the one that was declared. -/
theorem DocsHold.declare (reads : library.ReadsBack) {coll : String} {doc : SchemaDoc ν}
    {docs : String → Option (SchemaDoc ν)} {plan : DocSync Nat}
    (good : GoodEngine library.toDocJson engine)
    (hold : DocsHold library.toDocJson docs engine.tables.frames)
    (settled : ¬engine.DocWaits coll) (version : doc.valiseSchema = schemaDocVersion)
    (unchanged : ∀ prev, docs coll = some prev →
      checkCompatible library.toDocJson coll prev doc = .ok true → prev = doc)
    (planned : engine.planSync library.toDocJson coll doc = .ok plan)
    {start : StoreEngine CodecParams} (same : start.tables.frames = engine.tables.frames)
    (applied : StoreEngine.applySync library.toDocJson coll doc plan start = (.ok (), final)) :
    DocsHold library.toDocJson (Function.update docs coll (some doc)) final.tables.frames := by
  have fits := planSync_fits reads.docs good settled planned
  rcases findDoc_finds reads.docs good coll with ⟨found, _⟩ | ⟨frameId, old, found, isDoc, _, decoded⟩
  · simp only [StoreEngine.planSync, found, Outcome.ok_bind, Outcome.pure_eq,
      Outcome.ok.injEq] at planned
    subst planned
    rcases applySync_ok applied with ⟨upToDate, _⟩ | ⟨_, row, write, isDoc, active, printed,
      frames⟩
    · cases upToDate
    · obtain rfl := DocSync.write.inj write
      rw [frames, same]
      exact hold.enter fits isDoc active version printed
  · obtain ⟨row, here, active, rowDoc⟩ := mem_docsOf.mp isDoc
    obtain ⟨prev, stored, read⟩ := hold.decodes reads isDoc
    obtain rfl := Option.some.inj (Outcome.ok.inj (decoded.symm.trans read))
    simp only [StoreEngine.planSync, found, Outcome.ok_bind, Outcome.bind_eq_ok, Outcome.pure_eq,
      Outcome.ok.injEq] at planned
    obtain ⟨alike, compared, rfl⟩ := planned
    cases alike with
    | true =>
      obtain rfl := unchanged old stored compared
      rcases applySync_ok applied with ⟨_, rfl⟩ | ⟨_, _, write, _⟩
      · rw [Function.update_eq_self_iff.mpr stored.symm, same]
        exact hold
      · cases write
    | false =>
      rcases applySync_ok applied with ⟨upToDate, _⟩ | ⟨_, newRow, write, newDoc, newActive, printed,
        frames⟩
      · cases upToDate
      · obtain rfl := DocSync.write.inj write
        have replaced := hold.replace good.live here active rowDoc
        have free := NoneActive.of_tombstone good.live here active rowDoc
        have entered := replaced.enter free newDoc newActive version printed
        rw [Function.update_idem] at entered
        rw [frames, same]
        exact entered

end Declaring

/-! ### Runs -/

def SchemaState.withFaults {ν : Type} (state : SchemaState ν) (faults : StorePoint → Bool) :
    SchemaState ν :=
  { state with engine := state.engine.withFaults faults }

/-- A store with the schemas that were declared, each collection's last. -/
structure SchemaRun (ν : Type) where
  state : SchemaState ν := {}
  declared : String → Option Schema := fun _ => none

/-- What calls for the records of users do to the frames. -/
inductive UserStep (engine : StoreEngine CodecParams) : StoreEngine CodecParams → Prop where
  | putFrame (faults : StorePoint → Bool) (row : FrameRow) :
      row.collectionId ≠ StoreEngine.schemaCollectionId →
      UserStep engine (StoreEngine.putFrame row (engine.withFaults faults)).2
  | deleteFrame (faults : StorePoint → Bool) (frameId : Nat) : frameId ∉ engine.docFrames →
      UserStep engine (StoreEngine.deleteFrame frameId (engine.withFaults faults)).2
  | aside {after : StoreEngine CodecParams} : SameDocs engine after → UserStep engine after

theorem putFrame_frames (row : FrameRow) (engine : StoreEngine CodecParams) :
    (StoreEngine.putFrame row engine).2.tables.frames = engine.tables.frames ∨
      (StoreEngine.putFrame row engine).2.tables.frames = engine.tables.frames ++ [row] := by
  let Entered := fun after : StoreEngine CodecParams =>
    after.tables.frames = engine.tables.frames ∨ after.tables.frames = engine.tables.frames ++ [row]
  have flushed : Keeps Entered (StoreEngine.flushFull (κ := CodecParams)) :=
    keeps_bind keeps_get fun _ => keeps_ite (keeps_bind (StoreEngine.keeps_fallible _) fun _ =>
      keeps_modify fun _ entered => entered) (keeps_pure _)
  have put : Meets (fun start => start = engine) (StoreEngine.putFrame row) (fun _ => Entered)
      Entered := by
    refine meets_bind ((StoreEngine.keeps_fallible _).meets.weaken (fun _ same => same)
      (fun _ _ same => same) ?_) fun _ => meets_get_bind fun read same => meets_modify_bind ?_
    · rintro _ rfl
      exact .inl rfl
    · refine meets_bind (m := fun _ => Entered) (flushed.meets.weaken ?_ (fun _ _ entered => entered)
        fun _ entered => entered) fun _ => meets_pure _ fun _ entered => entered
      rintro _ ⟨_, rfl, rfl⟩
      subst same
      exact .inr rfl
  exact put.final rfl

theorem deleteFrame_frames (frameId : Nat) (engine : StoreEngine CodecParams) :
    (StoreEngine.deleteFrame frameId engine).2.tables.frames = engine.tables.frames ∨
      (StoreEngine.deleteFrame frameId engine).2.tables.frames =
        engine.tables.frames.modify frameId fun row => { row with active := false } := by
  let Gone := fun after : StoreEngine CodecParams => after.tables.frames = engine.tables.frames ∨
    after.tables.frames = engine.tables.frames.modify frameId fun row => { row with active := false }
  have here : ∀ read, read = engine → Gone read := by
    rintro _ rfl
    exact .inl rfl
  have deleted : Meets (fun start => start = engine) (StoreEngine.deleteFrame frameId)
      (fun _ => Gone) Gone := by
    refine meets_get_bind fun read same => ?_
    subst same
    refine meets_bind (meets_lift (fun _ _ _ same => same) here) fun _ =>
      meets_bind ((StoreEngine.keeps_fallible _).meets.weaken (fun _ same => same)
        (fun _ _ same => same) here) fun _ => meets_modify ?_
    rintro _ rfl
    exact .inr rfl
  exact deleted.final rfl

section Runs

variable {ν : Type} [DecidableEq ν] (library : SchemaLibrary ν)

/-- Definitions, declarations and commits that succeed. The puts between them are the frames and the
staged vectors that they leave, in steps of their own. -/
inductive DeclareStep (allowed : SchemaState ν → String → Schema → Prop) :
    SchemaRun ν → SchemaRun ν → Prop where
  | defineSpace {run : SchemaRun ν} {space : Space} {state : SchemaState ν}
      (faults : StorePoint → Bool) (name : String) (spec : FieldSpec) :
      defineSpace library name spec (run.state.withFaults faults) = (.ok space, state) →
      DeclareStep allowed run { run with state }
  | collection {run : SchemaRun ν} {id : Nat} {state : SchemaState ν}
      (faults : StorePoint → Bool) (name : String) (schema : Schema) :
      allowed run.state name schema →
      collection library name schema (run.state.withFaults faults) = (.ok id, state) →
      DeclareStep allowed run ⟨state, Function.update run.declared name (some schema)⟩
  | user {run : SchemaRun ν} {engine : StoreEngine CodecParams} :
      UserStep run.state.engine engine →
      DeclareStep allowed run { run with state := { run.state with engine } }
  | stage {run : SchemaRun ν} (staged : List StagedVector) :
      DeclareStep allowed run { run with state := { run.state with staged } }
  | commit {run : SchemaRun ν} {state : SchemaState ν} (faults : StorePoint → Bool) :
      commit library (run.state.withFaults faults) = (.ok (), state) →
      DeclareStep allowed run { run with state }

/-- No collection is declared while its doc waits for a commit, and every field agrees with the
spaces that are there. -/
def Consistent (state : SchemaState ν) (name : String) (schema : Schema) : Prop :=
  ¬state.engine.DocWaits name ∧ ∀ item ∈ schema.fields, Agrees state.registry name item

end Runs

/-! ### What the steps keep -/

section Sound

variable {ν : Type} {library : SchemaLibrary ν}

/-- The registry has a collection as its schema was declared. -/
structure Declared (library : SchemaLibrary ν) (registry : SchemaRegistry ν) (coll : String)
    (schema : Schema) : Prop where
  user : coll.toList.head? ≠ some reservedPrefix
  valid : validateSchema coll schema = .ok ()
  checked : Shape.validate ⟨boundFields coll schema.fields⟩ = .ok ()
  recorded : ∃ id doc, docOfSchema library coll schema = .ok doc ∧
    registry.collections coll = some ⟨id, some ⟨boundFields coll schema.fields⟩, some doc⟩
  bound : ∀ item ∈ schema.fields, Bound registry coll item

theorem Declared.grow {before after : SchemaRegistry ν} {coll : String} {schema : Schema}
    (declared : Declared library before coll schema) (grows : before.Grows after)
    (same : after.collections coll = before.collections coll) :
    Declared library after coll schema where
  user := declared.user
  valid := declared.valid
  checked := declared.checked
  recorded := by
    obtain ⟨id, doc, lowered, stored⟩ := declared.recorded
    exact ⟨id, doc, lowered, same.trans stored⟩
  bound item member := (declared.bound item member).grow grows

structure Sound (library : SchemaLibrary ν) (run : SchemaRun ν) : Prop where
  engine : GoodEngine library.toDocJson run.state.engine
  docs : DocsHold library.toDocJson run.state.registry.docOf run.state.engine.tables.frames
  known : Matches run.state.rows run.state.registry
  fitted : Fitted run.state.registry
  declared : ∀ coll schema, run.declared coll = some schema →
    Declared library run.state.registry coll schema
  undeclared : ∀ coll, run.declared coll = none → run.state.registry.collections coll = none

variable {run : SchemaRun ν}

theorem Sound.start : Sound library {} where
  engine := ⟨.nil, .nil⟩
  docs := ⟨nofun, nofun⟩
  known := .empty
  fitted := nofun
  declared := nofun
  undeclared _ _ := rfl

theorem goodEngine_same {json : DocJson ν} {before after : StoreEngine CodecParams}
    (good : GoodEngine json before) (same : SameDocs before after) : GoodEngine json after :=
  ⟨same.live ▸ good.live, same.durable ▸ good.durable⟩

theorem Sound.withFaults (sound : Sound library run) (faults : StorePoint → Bool) :
    Sound library { run with state := run.state.withFaults faults } :=
  ⟨⟨sound.engine.live, sound.engine.durable⟩, sound.docs, sound.known, sound.fitted,
    sound.declared, sound.undeclared⟩

/-- The registry may grow without its collections, and the frames of the docs stay. -/
theorem Sound.grow (sound : Sound library run) {state : SchemaState ν}
    (good : GoodEngine library.toDocJson state.engine)
    (frames : state.engine.tables.frames = run.state.engine.tables.frames)
    (grows : run.state.registry.Grows state.registry)
    (collections : state.registry.collections = run.state.registry.collections)
    (known : Matches state.rows state.registry) (fitted : Fitted state.registry) :
    Sound library { run with state } where
  engine := good
  docs := by
    have same : state.registry.docOf = run.state.registry.docOf := by
      funext coll
      rw [SchemaRegistry.docOf, collections, SchemaRegistry.docOf]
    rw [same, frames]
    exact sound.docs
  known := known
  fitted := fitted
  declared coll schema found :=
    (sound.declared coll schema found).grow grows (congrFun collections coll)
  undeclared coll absent := (congrFun collections coll).trans (sound.undeclared coll absent)

theorem Sound.defines (sound : Sound library run) {state : SchemaState ν}
    (defines : Defines run.state state) : Sound library { run with state } :=
  sound.grow (goodEngine_same sound.engine defines.docs) defines.docs.live defines.grows defines.collections
    (defines.known sound.known) (defines.fitted sound.fitted)

theorem Sound.commit (sound : Sound library run) {state : SchemaState ν}
    (commits : Commits run.state state) : Sound library { run with state } := by
  refine sound.grow ?_ commits.frames commits.grows commits.collections
    (commits.known sound.known) (commits.fitted sound.fitted)
  have live : GoodDocs library.toDocJson state.engine.tables.frames :=
    commits.frames ▸ sound.engine.live
  exact ⟨live, commits.durable ▸ live⟩

/-- Users do not touch the docs. -/
theorem Sound.user (sound : Sound library run) {engine : StoreEngine CodecParams}
    (step : UserStep run.state.engine engine) :
    Sound library { run with state := { run.state with engine } } := by
  have held : ∀ engine : StoreEngine CodecParams, GoodEngine library.toDocJson engine →
      DocsHold library.toDocJson run.state.registry.docOf engine.tables.frames →
      Sound library { run with state := { run.state with engine } } := fun engine good docs =>
    ⟨good, docs, sound.known, sound.fitted, sound.declared, sound.undeclared⟩
  cases step with
  | putFrame faults row user =>
    have start : GoodEngine library.toDocJson (run.state.engine.withFaults faults) :=
      ⟨sound.engine.live, sound.engine.durable⟩
    refine held _ ((putFrame_good fun inSchema => absurd inSchema user).final
      ⟨start, fun _ isDoc => absurd isDoc.1 user⟩) ?_
    rcases putFrame_frames row (run.state.engine.withFaults faults) with same | entered
    · rw [same]
      exact sound.docs
    · rw [entered]
      exact sound.docs.user user
  | deleteFrame faults frameId notDoc =>
    have start : GoodEngine library.toDocJson (run.state.engine.withFaults faults) :=
      ⟨sound.engine.live, sound.engine.durable⟩
    refine held _ (deleteFrame_good frameId _ start) ?_
    rcases deleteFrame_frames frameId (run.state.engine.withFaults faults) with
      same | gone
    · rw [same]
      exact sound.docs
    · rw [gone]
      refine sound.docs.tombstone ?_
      intro coll doc _ row here active isDoc
      exact notDoc (List.mem_filter.mp (mem_docsOf.mpr ⟨row, here, active, isDoc⟩)).1
  | aside same => exact held _ (goodEngine_same sound.engine same) (same.live ▸ sound.docs)

theorem rejectReservedName_ok {what name : String} {value : Unit}
    (done : rejectReservedName what name = .ok value) :
    name.toList.head? ≠ some reservedPrefix :=
  Outcome.ensure_eq_ok.mp done

theorem ensureCollection_ok {state after : SchemaState ν} {name : String} {id : Nat}
    (done : ensureCollection name state = (.ok id, after)) :
    (∃ record, state.registry.collections name = some record ∧ id = record.collectionId ∧
        after = state) ∨
      (state.registry.collections name = none ∧ id = state.rows.collections.length ∧
        after = { state with
          rows := { state.rows with collections := state.rows.collections ++ [name] } }) := by
  unfold ensureCollection at done
  obtain ⟨_, _, read, done⟩ := bind_eq_ok.mp done
  obtain ⟨rfl, rfl⟩ := get_eq_ok.mp read
  cases found : state.registry.collections name with
  | some record =>
    rw [found] at done
    obtain ⟨rfl, rfl⟩ := pure_eq_ok.mp done
    exact .inl ⟨record, rfl, rfl, rfl⟩
  | none =>
    rw [found] at done
    simp only [createCollection, setRows, bind_eq_ok, get_eq_ok, modify_eq_ok, pure_eq_ok,
      onEngine_ok, StoreEngine.fallible_ok] at done
    obtain ⟨_, _, ⟨_, ⟨_, rfl⟩, rfl⟩, _, _, ⟨rfl, rfl⟩, _, _, rfl, rfl, rfl⟩ := done
    exact .inr ⟨rfl, rfl, rfl⟩

theorem docOf_insert (registry : SchemaRegistry ν) (name : String) (id : Nat)
    (shape : Option Shape) (doc : SchemaDoc ν) :
    (registry.insertCollection name ⟨id, shape, some doc⟩).docOf =
      Function.update registry.docOf name (some doc) := by
  funext coll
  by_cases same : coll = name
  · subst same
    simp [SchemaRegistry.docOf, SchemaRegistry.insertCollection]
  · simp [SchemaRegistry.docOf, SchemaRegistry.insertCollection, Function.update_of_ne same]

variable [DecidableEq ν]

omit [DecidableEq ν] in
/-- The doc that a collection has is the one of its last schema. -/
theorem Sound.lowered (sound : Sound library run) {coll : String} {doc : SchemaDoc ν}
    (stored : run.state.registry.docOf coll = some doc) :
    ∃ schema, docOfSchema library coll schema = .ok doc := by
  cases declared : run.declared coll with
  | none => simp [SchemaRegistry.docOf, sound.undeclared coll declared] at stored
  | some schema =>
    obtain ⟨id, other, lowered, found⟩ := (sound.declared coll schema declared).recorded
    simp only [SchemaRegistry.docOf, found, Option.bind_some, Option.some.injEq] at stored
    exact ⟨schema, stored ▸ lowered⟩

/-- The engine's side of a declaration. -/
theorem Sound.declareDoc (reads : library.ReadsBack) (sound : Sound library run) {name : String}
    {schema : Schema} {doc : SchemaDoc ν} (lowered : docOfSchema library name schema = .ok doc)
    (settled : ¬run.state.engine.DocWaits name) {plan : DocSync Nat}
    (planned : run.state.engine.planSync library.toDocJson name doc = .ok plan)
    {start engine : StoreEngine CodecParams} (same : SameDocs run.state.engine start)
    (applied : StoreEngine.applySync library.toDocJson name doc plan start = (.ok (), engine)) :
    GoodEngine library.toDocJson engine ∧ DocsHold library.toDocJson
      (Function.update run.state.registry.docOf name (some doc)) engine.tables.frames := by
  have version := (docOfSchema_ok lowered).1
  refine ⟨?_, ?_⟩
  · have fits := planSync_fits reads.docs sound.engine settled planned
    rw [← same.live] at fits
    exact (applySync_good version plan).ok ⟨goodEngine_same sound.engine same, fits⟩ applied
  · refine sound.docs.declare reads sound.engine settled version ?_ planned same.live applied
    intro prev stored compared
    obtain ⟨earlier, prevLowered⟩ := sound.lowered stored
    exact eq_of_checkCompatible reads prevLowered lowered compared

theorem Sound.collection (reads : library.ReadsBack) (sound : Sound library run) {name : String}
    {schema : Schema} (consistent : Consistent run.state name schema) {id : Nat}
    {state : SchemaState ν} (done : collection library name schema run.state = (.ok id, state)) :
    Sound library ⟨state, Function.update run.declared name (some schema)⟩ := by
  simp only [Declarations.collection, setRegistry, bind_eq_ok, lift_eq_ok, get_eq_ok, modify_eq_ok,
    pure_eq_ok, onEngine_ok] at done
  obtain ⟨_, _, ⟨allowed, rfl⟩, doc, _, ⟨lowered, rfl⟩, _, _, ⟨rfl, rfl⟩, _, _, ⟨_, rfl⟩, plan, _,
    ⟨planned, rfl⟩, shape, bound, bindDone, collectionId, ensured, ensureDone, _, _,
    ⟨engine, applied, rfl⟩, _, _, rfl, rfl, rfl⟩ := done
  have user := rejectReservedName_ok allowed
  obtain ⟨valid, rfl, checked, defines, fields⟩ := bindSchema_ok consistent.2 bindDone
  have defined := sound.defines defines
  have registered : ensured.engine = bound.engine ∧ ensured.registry = bound.registry ∧
      Matches ensured.rows (bound.registry.insertCollection name
        ⟨collectionId, some ⟨boundFields name schema.fields⟩, some doc⟩) := by
    rcases ensureCollection_ok ensureDone with ⟨record, found, rfl, rfl⟩ | ⟨_, rfl, rfl⟩
    · exact ⟨rfl, rfl, defined.known.redeclare found _ _⟩
    · exact ⟨rfl, rfl, defined.known.addCollection user _ _⟩
  obtain ⟨sameEngine, sameRegistry, known⟩ := registered
  rw [sameEngine] at applied
  obtain ⟨good, docs⟩ :=
    sound.declareDoc reads lowered consistent.1 planned defines.docs applied
  have sameDocs : bound.registry.docOf = run.state.registry.docOf := by
    funext coll
    rw [SchemaRegistry.docOf, defines.collections, SchemaRegistry.docOf]
  have entered : Function.update bound.registry.collections name (some ⟨collectionId,
      some ⟨boundFields name schema.fields⟩, some doc⟩) name = some ⟨collectionId,
      some ⟨boundFields name schema.fields⟩, some doc⟩ := Function.update_self ..
  refine ⟨good, ?_, ?_, ?_, ?_, ?_⟩
  · rw [sameRegistry, docOf_insert, sameDocs]
    exact docs
  · rw [sameRegistry]
    exact known
  · rw [sameRegistry]
    exact defined.fitted
  · intro coll declared (found : Function.update run.declared name (some schema) coll = some declared)
    rw [sameRegistry]
    by_cases same : coll = name
    · subst same
      rw [Function.update_self] at found
      obtain rfl := Option.some.inj found
      exact ⟨user, valid, checked, ⟨collectionId, doc, lowered, entered⟩, fields⟩
    · rw [Function.update_of_ne same] at found
      refine (defined.declared coll declared found).grow ?_ (Function.update_of_ne same ..)
      exact ⟨fun _ _ there => there, fun _ _ there => .inl there⟩
  · intro coll (absent : Function.update run.declared name (some schema) coll = none)
    by_cases same : coll = name
    · subst same
      rw [Function.update_self] at absent
      cases absent
    · rw [Function.update_of_ne same] at absent
      rw [sameRegistry]
      exact (Function.update_of_ne same ..).trans (defined.undeclared coll absent)

theorem Sound.reachable (reads : library.ReadsBack)
    (reached : Reachable (fun run => run = {}) (DeclareStep library Consistent) run) :
    Sound library run := by
  induction reached with
  | start starts =>
    subst starts
    exact .start
  | step _ taken sound =>
    cases taken with
    | defineSpace faults name spec done =>
      exact (sound.withFaults faults).defines (defineSpace_ok done)
    | collection faults name schema consistent done =>
      exact (sound.withFaults faults).collection reads consistent done
    | user step => exact sound.user step
    | stage staged =>
      exact ⟨sound.engine, sound.docs, sound.known, sound.fitted, sound.declared, sound.undeclared⟩
    | commit faults done => exact (sound.withFaults faults).commit (commit_ok done)

end Sound

end Declarations

end Valise
