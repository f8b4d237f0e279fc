import Valise.SchemaDeclarations

/-!
What an open rebuilds after a commit: every space and every collection as it was declared, and
declaring a schema again changes nothing.
-/

namespace Valise

open ByteLists Commands Command Outcomes Runs

namespace Declarations

/-! ### Restoring fields -/

section Fields

variable {ν : Type} {library : SchemaLibrary ν} {live restored : SchemaRegistry ν}

/-- What was restored so far is of the registry that is to be restored. -/
structure Restoring (live restored : SchemaRegistry ν) : Prop where
  textSpaces : restored.textSpaces = live.textSpaces
  vectorSpaces : ∀ name entry, restored.vectorSpaces name = some entry →
    live.vectorSpaces name = some entry
  ready : ∀ name entry, live.vectorSpaces name = some entry → entry.isReady = true →
    restored.vectorSpaces name = some entry

theorem Restoring.of_matches {rows : SchemaRows} (known : Matches rows live) :
    Restoring live (recover rows) where
  textSpaces := known.textSpaces
  vectorSpaces name entry found := by
    rw [known.vectorSpaces] at found
    exact (Option.filter_eq_some_iff.mp found).1
  ready name entry found ready := by
    rw [known.vectorSpaces]
    exact Option.filter_eq_some_iff.mpr ⟨found, ready⟩

theorem Restoring.insert (restoring : Restoring live restored) {name : String}
    {entry : VectorSpaceEntry} (found : live.vectorSpaces name = some entry) :
    Restoring live (restored.insertVectorSpace name entry) where
  textSpaces := restoring.textSpaces
  vectorSpaces other stored there := by
    by_cases same : other = name
    · subst same
      rw [restored.insertVectorSpace_self] at there
      exact there ▸ found
    · rw [restored.insertVectorSpace_of_ne same] at there
      exact restoring.vectorSpaces other stored there
  ready other stored there ready := by
    by_cases same : other = name
    · subst same
      rw [restored.insertVectorSpace_self, ← found, there]
    · rw [restored.insertVectorSpace_of_ne same]
      exact restoring.ready other stored there ready

/-- The field is bound to a shared vector space that was never calibrated. -/
def NeverCalibrated (registry : SchemaRegistry ν) (item : String × FieldSpec) : Prop :=
  ∃ space misuse entry, item.2 = .vector (.shared space) misuse ∧
    registry.vectorSpaces space.name = some entry ∧ entry.isReady = false

/-- What restoring a part of a doc may change. -/
structure Restored (live before after : SchemaRegistry ν) : Prop where
  restoring : Restoring live after
  grows : before.Grows after
  collections : after.collections = before.collections

theorem Restored.trans {before middle after : SchemaRegistry ν} (first : Restored live before middle)
    (second : Restored live middle after) : Restored live before after :=
  ⟨second.restoring, first.grows.trans second.grows, second.collections.trans first.collections⟩

theorem Restoring.refl (restoring : Restoring live restored) : Restored live restored restored :=
  ⟨restoring, .refl _, rfl⟩

/-- A private space that waits for its calibration is restored from the doc of its field. -/
theorem restoreDeferred_eq (before : SchemaRegistry ν) (reads : library.ReadsBack) (fitted : Fitted live) {coll name : String}
    {spec : VectorInline} {misuse : Option String} {field : FieldDoc ν} {target : Nat}
    {codec : CodecSpec}
    (lowered : fieldDoc library coll (name, .vector (.inline spec) misuse) = .ok field)
    (found : live.vectorSpaces (autoSpaceName coll name) =
      some ⟨spec.dim, spec.metric, .deferred target codec⟩)
    (declares : spec.Declares (.deferred target codec)) :
    restoreDeferred library field before =
      (.ok (name, .vector ⟨autoSpaceName coll name, .vector spec.dim⟩),
        before.insertVectorSpace (autoSpaceName coll name)
          ⟨spec.dim, spec.metric, .deferred target codec⟩) := by
  obtain ⟨sameCodec, sample, auto, sameTarget⟩ := declares target codec rfl
  obtain ⟨_, value, rfl⟩ := fieldDoc_eq lowered
  simp only [specValue, Outcome.bind_eq_ok, Outcome.pure_eq, Outcome.ok.injEq] at value
  obtain ⟨doc, docDone, printed, printDone, rfl⟩ := value
  simp only [vectorDoc, Outcome.bind_eq_ok, Outcome.pure_eq, Outcome.ok.injEq] at docDone
  obtain ⟨codecText, codecDone, rfl⟩ := docDone
  have parsed := reads.vector _ _ printDone
  have back := toCodecSpec_codecDoc (sameCodec ▸ fitted _ _ _ _ _ found) codecDone
  have read : (some printed).bind library.vectorSpec =
      some ⟨spec.dim, spec.metric.str, codecText, calibrateDoc spec.calibrate⟩ := parsed
  unfold restoreDeferred
  rw [bind_of_ok (lift_eq_ok.mpr ⟨congrArg orStop read, rfl⟩),
    bind_of_ok (lift_eq_ok.mpr ⟨congrArg (fun found => orStop found.toOption)
      (metricFromStr_str spec.metric), rfl⟩),
    bind_of_ok (lift_eq_ok.mpr ⟨congrArg (fun found => orStop found.toOption) back, rfl⟩)]
  rw [auto, sameTarget, sameCodec]
  rfl

section RestoreField

variable {field : FieldDoc ν}

theorem restoreField_text {id : Nat} (isText : field.kind = kindText)
    (found : restored.textSpaces field.space = some id) :
    restoreField library field restored =
      (.ok (field.name, .text ⟨field.space, .text⟩), restored) := by
  unfold restoreField
  rw [bind_of_ok (get_apply restored), if_pos isText, found]
  rfl

theorem kindVector_ne_kindText : kindVector ≠ kindText := by decide

theorem restoreField_there {entry : VectorSpaceEntry} (isVector : field.kind = kindVector)
    (found : restored.vectorSpaces field.space = some entry) :
    restoreField library field restored =
      (.ok (field.name, .vector ⟨field.space, .vector entry.dim⟩), restored) := by
  unfold restoreField
  rw [bind_of_ok (get_apply restored), if_neg (isVector ▸ kindVector_ne_kindText),
    if_pos isVector, found]
  rfl

theorem restoreField_missing (isVector : field.kind = kindVector)
    (missing : restored.vectorSpaces field.space = none) :
    restoreField library field restored = restoreDeferred library field restored := by
  unfold restoreField
  rw [bind_of_ok (get_apply restored), if_neg (isVector ▸ kindVector_ne_kindText),
    if_pos isVector, missing]

end RestoreField

/-- A field is restored as it was bound, unless it is bound to a shared space that was never
calibrated. -/
theorem restoreField_restored (reads : library.ReadsBack) (fitted : Fitted live)
    (restoring : Restoring live restored) {coll : String} {item : String × FieldSpec}
    {field : FieldDoc ν} (lowered : fieldDoc library coll item = .ok field)
    (bound : Bound live coll item) :
    ∃ outcome after, restoreField library field restored = (outcome, after) ∧
      Restored live restored after ∧
      (outcome = .ok (item.1, boundField coll item) ∧ Bound after coll item ∨
        outcome = .err () ∧ NeverCalibrated live item) := by
  obtain ⟨value, printed, rfl⟩ := fieldDoc_eq lowered
  obtain ⟨name, spec⟩ := item
  rcases spec with (lang | space) | ⟨spec | space, misuse⟩
  · obtain ⟨id, found⟩ := bound
    rw [← restoring.textSpaces] at found
    exact ⟨_, _, restoreField_text rfl found, restoring.refl, .inl ⟨rfl, id, found⟩⟩
  · obtain ⟨isText, id, found⟩ := bound
    rw [← restoring.textSpaces] at found
    refine ⟨_, _, restoreField_text rfl found, restoring.refl, .inl ⟨?_, isText, id, found⟩⟩
    have handle : (⟨space.name, .text⟩ : Space) = space := by rw [← isText]
    exact congrArg (fun space => Outcome.ok (name, Field.text space)) handle
  · obtain ⟨vecState, found, declares⟩ := bound
    cases there : restored.vectorSpaces (autoSpaceName coll name) with
    | some entry =>
      obtain rfl := Option.some.inj (found.symm.trans (restoring.vectorSpaces _ _ there))
      exact ⟨_, _, restoreField_there rfl there, restoring.refl,
        .inl ⟨rfl, vecState, there, declares⟩⟩
    | none =>
      cases vecState with
      | ready spaceId =>
        have present := restoring.ready _ _ found rfl
        exact absurd (there.symm.trans present) nofun
      | deferred target codec =>
        have read := restoreDeferred_eq restored reads fitted lowered found declares
        refine ⟨_, _, (restoreField_missing rfl there).trans read,
          ⟨restoring.insert found, .insertVector there _, rfl⟩, .inl ⟨rfl, ?_⟩⟩
        exact ⟨_, restored.insertVectorSpace_self _ _, declares⟩
  · obtain ⟨entry, found, isVector⟩ := bound
    cases there : restored.vectorSpaces space.name with
    | some stored =>
      obtain rfl := Option.some.inj (found.symm.trans (restoring.vectorSpaces _ _ there))
      refine ⟨_, _, restoreField_there rfl there, restoring.refl, .inl ⟨?_, entry, there, isVector⟩⟩
      have handle : (⟨space.name, .vector entry.dim⟩ : Space) = space := by rw [← isVector]
      exact congrArg (fun space => Outcome.ok (name, Field.vector space)) handle
    | none =>
      obtain rfl := Outcome.ok.inj printed
      refine ⟨_, _, restoreField_missing rfl there, restoring.refl,
        .inr ⟨rfl, space, misuse, entry, rfl, found, ?_⟩⟩
      cases ready : entry.isReady with
      | false => rfl
      | true =>
        have present := restoring.ready _ _ found ready
        exact absurd (there.symm.trans present) nofun

theorem restoreFields_restored (reads : library.ReadsBack) (fitted : Fitted live)
    (restoring : Restoring live restored) {coll : String} {items : List (String × FieldSpec)}
    {fields : List (FieldDoc ν)} (lowered : fieldDocs library coll items = .ok fields)
    (bound : ∀ item ∈ items, Bound live coll item) :
    ∃ outcome after, restoreFields library fields restored = (outcome, after) ∧
      Restored live restored after ∧
      (outcome = .ok (boundFields coll items) ∧ (∀ item ∈ items, Bound after coll item) ∨
        outcome = .err () ∧ ∃ item ∈ items, NeverCalibrated live item) := by
  induction items generalizing fields restored with
  | nil =>
    obtain rfl := Outcome.ok.inj lowered
    exact ⟨_, _, rfl, restoring.refl, .inl ⟨rfl, nofun⟩⟩
  | cons item rest ih =>
    simp only [fieldDocs, Outcome.bind_eq_ok, Outcome.pure_eq, Outcome.ok.injEq] at lowered
    obtain ⟨field, first, others, loweredRest, rfl⟩ := lowered
    obtain ⟨outcome, middle, done, first, which⟩ :=
      restoreField_restored reads fitted restoring first (bound item List.mem_cons_self)
    rcases which with ⟨rfl, here⟩ | ⟨rfl, missed⟩
    · obtain ⟨outcome, after, doneRest, second, which⟩ := ih first.restoring loweredRest
        fun other member => bound other (List.mem_cons_of_mem _ member)
      rcases which with ⟨rfl, boundRest⟩ | ⟨rfl, other, member, missed⟩
      · refine ⟨.ok (boundFields coll (item :: rest)), after, ?_, first.trans second, .inl ⟨rfl, ?_⟩⟩
        · rw [restoreFields, bind_of_ok done, bind_of_ok doneRest]
          rfl
        · intro other member
          rcases List.mem_cons.mp member with rfl | inRest
          · exact here.grow second.grows
          · exact boundRest other inRest
      · refine ⟨.err (), after, ?_, first.trans second,
          .inr ⟨rfl, other, List.mem_cons_of_mem _ member, missed⟩⟩
        rw [restoreFields, bind_of_ok done, bind_of_err doneRest]
    · refine ⟨.err (), middle, ?_, first, .inr ⟨rfl, item, List.mem_cons_self, missed⟩⟩
      rw [restoreFields, bind_of_err done]

end Fields

/-! ### Restoring collections -/

section Collections

variable {ν : Type} {library : SchemaLibrary ν} {live restored : SchemaRegistry ν}

/-- The collections that were restored so far, and the others as the catalog has them. -/
structure Rebuilding (live restored : SchemaRegistry ν) : Prop where
  restoring : Restoring live restored
  collections : ∀ coll, restored.collections coll = live.collections coll ∨
    restored.collections coll = (live.collections coll).map CollectionRecord.bare

/-- The collection is as it was declared, with the spaces of its fields. -/
def IsRestored (live restored : SchemaRegistry ν) (coll : String) (schema : Schema) : Prop :=
  restored.collections coll = live.collections coll ∧
    ∀ item ∈ schema.fields, Bound restored coll item

theorem restoreDoc_rebuilding (reads : library.ReadsBack) (fitted : Fitted live)
    (rebuilding : Rebuilding live restored) {coll : String} {schema : Schema} {doc : SchemaDoc ν}
    (declared : Declared library live coll schema) (stored : live.docOf coll = some doc) :
    Rebuilding live (restoreDoc library restored (coll, doc)) ∧
      restored.Grows (restoreDoc library restored (coll, doc)) ∧
      (∀ other, restored.collections other = live.collections other →
        (restoreDoc library restored (coll, doc)).collections other = live.collections other) ∧
      (IsRestored live (restoreDoc library restored (coll, doc)) coll schema ∨
        ∃ item ∈ schema.fields, NeverCalibrated live item) := by
  obtain ⟨id, lowered, isDoc, recorded⟩ := declared.recorded
  have sameDoc : lowered = doc := by
    simpa [SchemaRegistry.docOf, recorded] using stored
  subst sameDoc
  have fields := (docOfSchema_ok isDoc).2
  obtain ⟨outcome, after, done, change, which⟩ :=
    restoreFields_restored reads fitted rebuilding.restoring fields declared.bound
  have present : ∃ record, restored.collections coll = some record ∧ record.collectionId = id := by
    rcases rebuilding.collections coll with same | bare
    · exact ⟨_, same.trans recorded, rfl⟩
    · exact ⟨_, bare.trans (congrArg (Option.map CollectionRecord.bare) recorded), rfl⟩
  obtain ⟨record, there, sameId⟩ := present
  have kept : Rebuilding live after :=
    ⟨change.restoring, fun other => by rw [change.collections]; exact rebuilding.collections other⟩
  rcases which with ⟨rfl, bound⟩ | ⟨rfl, missed⟩
  · have restores : restoreDoc library restored (coll, lowered) = after.insertCollection coll
        ⟨id, some ⟨boundFields coll schema.fields⟩, some lowered⟩ := by
      have shaped : shapeFromDoc library lowered restored =
          (.ok ⟨boundFields coll schema.fields⟩, after) := by
        rw [shapeFromDoc, bind_of_ok done]
        rfl
      unfold restoreDoc
      rw [there]
      simp only [shaped, sameId]
    rw [restores]
    have here : (after.insertCollection coll
        ⟨id, some ⟨boundFields coll schema.fields⟩, some lowered⟩).collections coll =
          live.collections coll := by
      rw [after.insertCollection_self, recorded]
    refine ⟨⟨⟨kept.restoring.1, kept.restoring.2, kept.restoring.3⟩, ?_⟩, ?_, ?_, .inl ⟨here, bound⟩⟩
    · intro other
      by_cases same : other = coll
      · exact .inl (same ▸ here)
      · rw [after.insertCollection_of_ne same]
        exact kept.collections other
    · exact ⟨change.grows.textSpaces, change.grows.vectorSpaces⟩
    · intro other same
      by_cases isColl : other = coll
      · exact isColl ▸ here
      · rw [after.insertCollection_of_ne isColl, change.collections]
        exact same
  · have stops : restoreDoc library restored (coll, lowered) = after := by
      have shaped : shapeFromDoc library lowered restored = (.err (), after) := by
        rw [shapeFromDoc, bind_of_err done]
      unfold restoreDoc
      rw [there]
      simp only [shaped]
    rw [stops]
    refine ⟨kept, change.grows, ?_, .inr missed⟩
    intro other same
    rw [change.collections]
    exact same

/-- Every doc of the list is restored, whichever comes first. -/
theorem restoreDocs_rebuilding (reads : library.ReadsBack) (fitted : Fitted live)
    {declared : String → Option Schema}
    (known : ∀ coll schema, declared coll = some schema → Declared library live coll schema)
    {docs : List (String × SchemaDoc ν)}
    (listed : ∀ item ∈ docs, live.docOf item.1 = some item.2 ∧ ∃ schema, declared item.1 = some schema)
    (rebuilding : Rebuilding live restored) :
    Rebuilding live (docs.foldl (restoreDoc library) restored) ∧
      restored.Grows (docs.foldl (restoreDoc library) restored) ∧
      (∀ other, restored.collections other = live.collections other →
        (docs.foldl (restoreDoc library) restored).collections other = live.collections other) ∧
      ∀ item ∈ docs, ∀ schema, declared item.1 = some schema →
        IsRestored live (docs.foldl (restoreDoc library) restored) item.1 schema ∨
          ∃ field ∈ schema.fields, NeverCalibrated live field := by
  induction docs generalizing restored with
  | nil => exact ⟨rebuilding, .refl _, fun _ same => same, nofun⟩
  | cons item rest ih =>
    obtain ⟨stored, schema, isDeclared⟩ := listed item List.mem_cons_self
    obtain ⟨kept, grows, others, here⟩ :=
      restoreDoc_rebuilding reads fitted rebuilding (known _ _ isDeclared) stored
    obtain ⟨final, growsRest, othersRest, restoredRest⟩ :=
      ih (fun other member => listed other (List.mem_cons_of_mem _ member)) kept
    refine ⟨final, grows.trans growsRest, fun other same => othersRest other (others other same), ?_⟩
    intro other member declaredSchema found
    rcases List.mem_cons.mp member with rfl | inRest
    · obtain rfl := Option.some.inj (isDeclared.symm.trans found)
      rcases here with ⟨same, bound⟩ | missed
      · exact .inl ⟨othersRest _ same, fun field inFields => (bound field inFields).grow growsRest⟩
      · exact .inr missed
    · exact restoredRest other inRest declaredSchema found

end Collections

/-! ### Declaring again -/

section Again

variable {ν : Type} {library : SchemaLibrary ν} {state : SchemaState ν}

theorem bindField_again {coll : String} {item : String × FieldSpec}
    (bound : Bound state.registry coll item) :
    bindField library coll item state = (.ok (item.1, boundField coll item), state) := by
  obtain ⟨name, spec⟩ := item
  rcases spec with (lang | space) | ⟨spec | space, misuse⟩
  · obtain ⟨id, found⟩ := bound
    have there : defineTextSpace (autoSpaceName coll name) lang state =
        (.ok ⟨autoSpaceName coll name, .text⟩, state) := by
      unfold defineTextSpace
      rw [bind_of_ok (get_apply state), found]
      rfl
    exact bind_of_ok there
  · rfl
  · obtain ⟨vecState, found, _⟩ := bound
    have there : defineVectorSpace library (autoSpaceName coll name) spec state =
        (.ok ⟨autoSpaceName coll name, .vector spec.dim⟩, state) := by
      unfold defineVectorSpace
      rw [bind_of_ok (get_apply state), found]
      exact (bind_of_ok (lift_eq_ok.mpr ⟨Outcome.ensure_true _ rfl, rfl⟩)).trans
        (bind_of_ok (lift_eq_ok.mpr ⟨Outcome.ensure_true _ rfl, rfl⟩))
    exact bind_of_ok there
  · rfl

theorem bindFields_again {coll : String} {fields : List (String × FieldSpec)}
    (bound : ∀ item ∈ fields, Bound state.registry coll item) :
    bindFields library coll fields state = (.ok (boundFields coll fields), state) := by
  induction fields with
  | nil => rfl
  | cons item rest ih =>
    have here : bindField library coll item state =
        (.ok (item.1, boundField coll item), state) := bindField_again (bound item List.mem_cons_self)
    have others := ih fun other member => bound other (List.mem_cons_of_mem _ member)
    rw [bindFields, bind_of_ok here, bind_of_ok others]
    rfl

variable [DecidableEq ν]

/-- Declaring a schema again changes nothing where its doc is found. -/
theorem collection_again {coll : String} {schema : Schema}
    (declared : Declared library state.registry coll schema)
    (planned : ∀ doc, docOfSchema library coll schema = .ok doc →
      state.engine.planSync library.toDocJson coll doc = .ok .upToDate) :
    ∃ id, collection library coll schema state = (.ok id, state) := by
  obtain ⟨id, doc, lowered, recorded⟩ := declared.recorded
  have allowed : rejectReservedName "collection: collection" coll = .ok () :=
    Outcome.ensure_eq_ok.mpr declared.user
  have previous : checkPrevious library coll schema doc (state.registry.collections coll) =
      .ok () := by
    rw [recorded]
    simp [checkPrevious, checkCompatible_self]
  have bound : bindSchema library coll schema state = (.ok ⟨boundFields coll schema.fields⟩, state) := by
    rw [bindSchema, bind_of_ok (lift_eq_ok.mpr ⟨declared.valid, rfl⟩),
      bind_of_ok (bindFields_again declared.bound),
      bind_of_ok (lift_eq_ok.mpr ⟨declared.checked, rfl⟩)]
    rfl
  have ensured : ensureCollection coll state = (.ok id, state) := by
    rw [ensureCollection, bind_of_ok (get_apply state), recorded]
    rfl
  have applied : onEngine (ν := ν) (StoreEngine.applySync library.toDocJson coll doc .upToDate)
      state = (.ok (), state) := rfl
  have unchanged : state.registry.insertCollection coll
      ⟨id, some ⟨boundFields coll schema.fields⟩, some doc⟩ = state.registry := by
    rw [SchemaRegistry.insertCollection, Function.update_eq_self_iff.mpr recorded.symm]
  refine ⟨id, ?_⟩
  rw [collection, bind_of_ok (lift_eq_ok.mpr ⟨allowed, rfl⟩),
    bind_of_ok (lift_eq_ok.mpr ⟨lowered, rfl⟩), bind_of_ok (get_apply state),
    bind_of_ok (lift_eq_ok.mpr ⟨previous, rfl⟩),
    bind_of_ok (lift_eq_ok.mpr ⟨planned doc lowered, rfl⟩), bind_of_ok bound,
    bind_of_ok ensured, bind_of_ok applied]
  exact congrArg (fun registry => (Outcome.ok id, { state with registry })) unchanged

end Again

/-! ### Opening after a commit -/

namespace SchemaRun

variable {ν : Type} (run : SchemaRun ν)

/-- The collection is bound to a shared vector space that was never calibrated. -/
def Uncalibrated (coll : String) : Prop :=
  ∃ schema, run.declared coll = some schema ∧
    ∃ item ∈ schema.fields, NeverCalibrated run.state.registry item

/-- A space that waits for its calibration and is private to such collections, or to none. -/
def Lost (name : String) : Prop :=
  ∃ entry, run.state.registry.vectorSpaces name = some entry ∧ entry.isReady = false ∧
    ∀ coll schema item spec misuse, run.declared coll = some schema → item ∈ schema.fields →
      item.2 = .vector (.inline spec) misuse → autoSpaceName coll item.1 = name →
        run.Uncalibrated coll

end SchemaRun

section Opening

variable {ν : Type} [DecidableEq ν] {library : SchemaLibrary ν} {run : SchemaRun ν}

/-- What is rebuilt is the registry of the run: ready spaces are ready, the others have the codec and
the sample size that were declared, and declaring a schema again changes nothing. -/
structure Restores (library : SchemaLibrary ν) (run : SchemaRun ν) (registry : SchemaRegistry ν) :
    Prop where
  textSpaces : registry.textSpaces = run.state.registry.textSpaces
  vectorSpaces : ∀ name entry, registry.vectorSpaces name = some entry →
    run.state.registry.vectorSpaces name = some entry
  spaces : ∀ name entry, run.state.registry.vectorSpaces name = some entry →
    registry.vectorSpaces name = some entry ∨ run.Lost name
  names : ∀ coll, (registry.collections coll).map (·.collectionId) =
    (run.state.registry.collections coll).map (·.collectionId)
  collections : ∀ coll, ¬run.Uncalibrated coll →
    registry.collections coll = run.state.registry.collections coll
  declared : ∀ coll schema, run.declared coll = some schema → ¬run.Uncalibrated coll →
    (registry.collections coll).bind (·.shape) = some ⟨boundFields coll schema.fields⟩ ∧
      ∀ item ∈ schema.fields, Bound registry coll item
  calibrates : ∀ coll schema, run.declared coll = some schema → ¬run.Uncalibrated coll →
    ∀ name spec misuse, (name, FieldSpec.vector (.inline spec) misuse) ∈ schema.fields →
      ∃ entry, registry.vectorSpaces (autoSpaceName coll name) = some entry ∧
        (entry.isReady = true ∨ ∃ sample, spec.calibrate = .auto sample ∧
          entry.plan = .calib spec.dim spec.metric (sampleTargetOf sample) spec.codec)
  again : ∀ coll schema, run.declared coll = some schema → ¬run.Uncalibrated coll →
    ∃ id, collection library coll schema (run.state.opened registry) =
      (.ok id, run.state.opened registry)

omit [DecidableEq ν] in
theorem Bound.plan {registry : SchemaRegistry ν} {coll name : String} {spec : VectorInline}
    {misuse : Option String}
    (bound : Bound registry coll (name, .vector (.inline spec) misuse)) :
    ∃ entry, registry.vectorSpaces (autoSpaceName coll name) = some entry ∧
      (entry.isReady = true ∨ ∃ sample, spec.calibrate = .auto sample ∧
        entry.plan = .calib spec.dim spec.metric (sampleTargetOf sample) spec.codec) := by
  obtain ⟨vecState, found, declares⟩ := bound
  refine ⟨_, found, ?_⟩
  cases vecState with
  | ready spaceId => exact .inl rfl
  | deferred target codec =>
    obtain ⟨rfl, sample, auto, rfl⟩ := declares target codec rfl
    exact .inr ⟨sample, auto, rfl⟩

omit [DecidableEq ν] in
/-- Where nothing waits, the docs of an engine are those of its collections. -/
theorem DocsHold.loads (reads : library.ReadsBack) {engine : StoreEngine CodecParams}
    {docs : String → Option (SchemaDoc ν)} (good : GoodEngine library.toDocJson engine)
    (hold : DocsHold library.toDocJson docs engine.tables.frames) (settled : engine.unflushed = []) :
    ∃ loaded, engine.loadAll library.toDocJson = .ok loaded ∧
      ∀ coll doc, (coll, doc) ∈ loaded ↔ docs coll = some doc := by
  have listed : ∀ frameId ∈ engine.docFrames, frameId ∈ engine.docFrames := fun _ listed => listed
  obtain ⟨loaded, done, member⟩ := SchemaStore.loadDocs_loads reads.docs good listed
  refine ⟨loaded, done, fun coll doc => ?_⟩
  rw [member]
  constructor
  · rintro ⟨frameId, listed, read, decoded⟩
    obtain ⟨other, stored, otherDecoded⟩ := hold.decodes reads (docsOf_of_read listed read)
    obtain rfl := Option.some.inj (Outcome.ok.inj (decoded.symm.trans otherDecoded))
    exact stored
  · intro stored
    obtain ⟨row, listed, active, isDoc⟩ := hold.there coll doc stored
    obtain ⟨frameId, here⟩ := List.mem_iff_getElem?.mp listed
    have inDocs : frameId ∈ engine.docsOf coll := mem_docsOf.mpr ⟨row, here, active, isDoc⟩
    obtain ⟨other, otherStored, decoded⟩ := hold.decodes reads inDocs
    obtain rfl := Option.some.inj (stored.symm.trans otherStored)
    exact ⟨frameId, (List.mem_filter.mp inDocs).1, readFrameUri_doc inDocs (settled ▸ List.not_mem_nil),
      decoded⟩

theorem DocsHold.plans (reads : library.ReadsBack) {engine : StoreEngine CodecParams}
    {docs : String → Option (SchemaDoc ν)} (good : GoodEngine library.toDocJson engine)
    (hold : DocsHold library.toDocJson docs engine.tables.frames) (settled : engine.unflushed = [])
    {coll : String} {doc : SchemaDoc ν} (stored : docs coll = some doc) :
    engine.planSync library.toDocJson coll doc = .ok .upToDate := by
  rcases findDoc_finds reads.docs good coll with ⟨_, waits⟩ | ⟨frameId, found, done, isDoc, _, decoded⟩
  · obtain ⟨row, listed, active, isDoc⟩ := hold.there coll doc stored
    obtain ⟨frameId, here⟩ := List.mem_iff_getElem?.mp listed
    have waiting := waits frameId (mem_docsOf.mpr ⟨row, here, active, isDoc⟩)
    rw [settled] at waiting
    exact absurd waiting List.not_mem_nil
  · obtain ⟨other, otherStored, otherDecoded⟩ := hold.decodes reads isDoc
    obtain rfl := Option.some.inj (Outcome.ok.inj (decoded.symm.trans otherDecoded))
    obtain rfl := Option.some.inj (stored.symm.trans otherStored)
    rw [StoreEngine.planSync, done, Outcome.ok_bind]
    simp [checkCompatible_self]

/-- A commit leaves a file from which the registry is rebuilt. -/
theorem Sound.restores (reads : library.ReadsBack) {run : SchemaRun ν} (sound : Sound library run)
    (durable : run.state.engine.durable = run.state.engine.tables)
    (rows : run.state.durableRows = run.state.rows) :
    ∃ registry, rebuild library run.state.engine.reopen run.state.durableRows = .ok registry ∧
      Restores library run registry := by
  have good : GoodEngine library.toDocJson run.state.engine.reopen :=
    ⟨sound.engine.durable, sound.engine.durable⟩
  have hold : DocsHold library.toDocJson run.state.registry.docOf
      run.state.engine.reopen.tables.frames := by
    change DocsHold _ _ run.state.engine.durable.frames
    rw [durable]
    exact sound.docs
  obtain ⟨loaded, done, member⟩ := hold.loads reads good rfl
  have start : Rebuilding run.state.registry (recover run.state.rows) :=
    ⟨.of_matches sound.known, fun coll => .inr (sound.known.collections coll)⟩
  have listed : ∀ item ∈ loaded, run.state.registry.docOf item.1 = some item.2 ∧
      ∃ schema, run.declared item.1 = some schema := by
    intro item inLoaded
    have stored := (member item.1 item.2).mp inLoaded
    refine ⟨stored, ?_⟩
    cases declared : run.declared item.1 with
    | some schema => exact ⟨schema, rfl⟩
    | none => simp [SchemaRegistry.docOf, sound.undeclared _ declared] at stored
  obtain ⟨rebuilt, _, _, restored⟩ :=
    restoreDocs_rebuilding reads sound.fitted sound.declared listed start
  have rebuilds : rebuild library run.state.engine.reopen run.state.durableRows =
      .ok (loaded.foldl (restoreDoc library) (recover run.state.rows)) := by
    rw [rebuild, done, rows]
    rfl
  have whole : ∀ coll schema, run.declared coll = some schema → ¬run.Uncalibrated coll →
      IsRestored run.state.registry (loaded.foldl (restoreDoc library) (recover run.state.rows))
        coll schema := by
    intro coll schema declared calibrated
    obtain ⟨id, doc, _, recorded⟩ := (sound.declared coll schema declared).recorded
    have inLoaded := (member coll doc).mpr (by simp [SchemaRegistry.docOf, recorded])
    rcases restored _ inLoaded schema declared with isRestored | ⟨item, inFields, missed⟩
    · exact isRestored
    · exact absurd ⟨schema, declared, item, inFields, missed⟩ calibrated
  refine ⟨_, rebuilds, ?_⟩
  generalize loaded.foldl (restoreDoc library) (recover run.state.rows) = registry at rebuilt whole
  have redeclared : ∀ coll schema, run.declared coll = some schema → ¬run.Uncalibrated coll →
      Declared library registry coll schema := by
    intro coll schema declared calibrated
    obtain ⟨same, bound⟩ := whole coll schema declared calibrated
    have live := sound.declared coll schema declared
    obtain ⟨id, doc, lowered, recorded⟩ := live.recorded
    exact ⟨live.user, live.valid, live.checked, ⟨id, doc, lowered, same.trans recorded⟩, bound⟩
  refine ⟨rebuilt.restoring.textSpaces, rebuilt.restoring.vectorSpaces, ?_, ?_, ?_, ?_, ?_, ?_⟩
  · intro name entry found
    cases ready : entry.isReady with
    | true => exact .inl (rebuilt.restoring.ready name entry found ready)
    | false =>
      by_cases lost : run.Lost name
      · exact .inr lost
      · refine .inl ?_
        have declares : ∃ coll schema item spec misuse, run.declared coll = some schema ∧
            item ∈ schema.fields ∧ item.2 = .vector (.inline spec) misuse ∧
            autoSpaceName coll item.1 = name ∧ ¬run.Uncalibrated coll := by
          by_contra none
          refine lost ⟨entry, found, ready, ?_⟩
          intro coll schema item spec misuse declared inFields isInline named
          by_contra calibrated
          exact none ⟨coll, schema, item, spec, misuse, declared, inFields, isInline, named, calibrated⟩
        obtain ⟨coll, schema, ⟨field, _⟩, spec, misuse, declared, inFields, rfl, named, calibrated⟩ :=
          declares
        obtain ⟨vecState, there, _⟩ := (whole coll schema declared calibrated).2 _ inFields
        rw [named] at there
        have live := rebuilt.restoring.vectorSpaces name _ there
        rw [there, ← live, found]
  · intro coll
    rcases rebuilt.collections coll with same | bare
    · rw [same]
    · rw [bare, Option.map_map]
      rfl
  · intro coll calibrated
    cases declared : run.declared coll with
    | some schema => exact (whole coll schema declared calibrated).1
    | none =>
      have absent := sound.undeclared coll declared
      rcases rebuilt.collections coll with same | bare
      · exact same
      · rw [bare, absent]
        rfl
  · intro coll schema declared calibrated
    obtain ⟨id, doc, _, recorded⟩ := (redeclared coll schema declared calibrated).recorded
    refine ⟨?_, (whole coll schema declared calibrated).2⟩
    rw [recorded]
    rfl
  · intro coll schema declared calibrated name spec misuse inFields
    exact ((whole coll schema declared calibrated).2 _ inFields).plan
  · intro coll schema declared calibrated
    refine collection_again (redeclared coll schema declared calibrated) ?_
    intro doc lowered
    obtain ⟨id, other, otherLowered, recorded⟩ := (sound.declared coll schema declared).recorded
    obtain rfl := Outcome.ok.inj (lowered.symm.trans otherLowered)
    exact hold.plans reads good rfl (by simp [SchemaRegistry.docOf, recorded])

/-- After every commit of a run whose declarations are consistent, an open rebuilds the registry. -/
theorem commit_restores (reads : library.ReadsBack)
    (reached : Reachable (fun run => run = {}) (DeclareStep library Consistent) run)
    {faults : StorePoint → Bool} {state : SchemaState ν}
    (done : commit library (run.state.withFaults faults) = (.ok (), state)) :
    ∃ registry, rebuild library state.engine.reopen state.durableRows = .ok registry ∧
      Restores library { run with state } registry := by
  have commits := commit_ok done
  have sound := ((Sound.reachable reads reached).withFaults faults).commit commits
  exact sound.restores reads commits.durable commits.rows

end Opening

/-! ### Two fields with one private space -/

namespace Clash

/-- The value of a spec of either kind. -/
inductive Spec where
  | text (spec : TextSpecDoc)
  | vector (spec : VectorSpecDoc)
deriving DecidableEq

def codecText : CodecDoc → String
  | .qam ampBits phaseBits =>
      s!"\x7b\"amp_bits\":{ampBits},\"family\":\"qam\",\"phase_bits\":{phaseBits}\x7d"
  | .upq cells design =>
      s!"\x7b\"cells\":{cells},\"design\":\"{design}\",\"family\":\"upq\"\x7d"
  | .prebuilt family hex =>
      s!"\x7b\"family\":\"prebuilt\",\"params_family\":\"{family}\",\"params_hex\":\"{hex}\"\x7d"

def calibrateText : CalibrateDoc → String
  | .auto sample => s!"\x7b\"mode\":\"auto\",\"sample\":{sample}\x7d"
  | .now => "\x7b\"mode\":\"now\"\x7d"

def specText : Spec → String
  | .text spec => s!"\x7b\"lang\":\"{spec.lang}\"\x7d"
  | .vector spec => s!"\x7b\"calibrate\":{calibrateText spec.calibrate},\"codec\":" ++
      s!"{codecText spec.codec},\"dim\":{spec.dim},\"metric\":\"{spec.metric}\"\x7d"

def fieldText (field : FieldDoc Spec) : String :=
  s!"\x7b\"name\":\"{field.name}\",\"kind\":\"{field.kind}\",\"space\":\"{field.space}\"," ++
    "\"spec\":" ++ (field.spec.map specText).getD "null" ++ "\x7d"

def docBytes (doc : SchemaDoc Spec) : Bytes :=
  utf8 ("\x7b\"valise_schema\":1,\"fields\":[" ++
    String.intercalate "," (doc.fields.map fieldText) ++ "]\x7d")

def ringField : FieldDoc Spec := ⟨"b/c", kindVector, "~auto/a/b/c",
  some (.vector ⟨64, "cosine", .upq 512 "empirical", .auto 10⟩)⟩

def gridField : FieldDoc Spec := ⟨"c", kindVector, "~auto/a/b/c",
  some (.vector ⟨64, "cosine", .qam 5 6, .auto 10⟩)⟩

def titleField : FieldDoc Spec := ⟨"t", kindText, "~auto/a/t", some (.text ⟨"english"⟩)⟩

/-- The docs that occur here. -/
def docs : List (SchemaDoc Spec) :=
  [⟨schemaDocVersion, [ringField]⟩, ⟨schemaDocVersion, [gridField]⟩,
    ⟨schemaDocVersion, [ringField, titleField]⟩]

def docOfBytes (bytes : Bytes) : Option (SchemaDoc Spec) := docs.find? fun doc => docBytes doc = bytes

def library : SchemaLibrary Spec where
  toVec doc := if doc ∈ docs then .ok (docBytes doc) else .err (.format "schema doc encode")
  probe bytes := if (docOfBytes bytes).isSome then .ok schemaDocVersion
    else .err (.format "schema doc: invalid JSON")
  fromSlice bytes := required "schema doc: malformed v1 doc" (docOfBytes bytes)
  textSpec spec := match spec with
    | .text spec => some spec
    | .vector _ => none
  vectorSpec spec := match spec with
    | .text _ => none
    | .vector spec => some spec
  toText := specText
  textValue spec := .ok (.text spec)
  vectorValue spec := .ok (.vector spec)
  paramsHex _ := .err (.format "no parameters occur here")
  paramsOfHex _ _ := .err (.format "no parameters occur here")
  fit _ _ _ := .err (.format "nothing is fitted here")

theorem library_readsBack : library.ReadsBack where
  docs doc bytes printed := by
    have known : doc ∈ docs := by
      by_contra unknown
      simp [library, unknown] at printed
    have same : docBytes doc = bytes := by simpa [library, known] using printed
    subst same
    have found : ∀ doc ∈ docs, docOfBytes (docBytes doc) = some doc ∧
        doc.valiseSchema = schemaDocVersion := by
      decide +kernel
    obtain ⟨read, version⟩ := found doc known
    simp [library, read, required, version]
  text spec value printed := by
    obtain rfl := Outcome.ok.inj printed
    rfl
  vector spec value printed := by
    obtain rfl := Outcome.ok.inj printed
    rfl

def ring : Schema := ⟨[("b/c", .vector (.inline ⟨64, .cosine, .upq 512 .empirical, .auto 10⟩) none)]⟩

def grid : Schema := ⟨[("c", .vector (.inline ⟨64, .cosine, .qam 5 6, .auto 10⟩) none)]⟩

def titledRing : Schema := ⟨ring.fields ++ [("t", .text (.inline .english))]⟩

def noFaults : StorePoint → Bool := fun _ => false

def declare (name : String) (schema : Schema) (run : SchemaRun Spec) : SchemaRun Spec :=
  ⟨(collection library name schema (run.state.withFaults noFaults)).2,
    Function.update run.declared name (some schema)⟩

def committed (run : SchemaRun Spec) : SchemaRun Spec :=
  { run with state := (commit library (run.state.withFaults noFaults)).2 }

theorem reached_declare {allowed : SchemaState Spec → String → Schema → Prop}
    {run : SchemaRun Spec} {name : String} {schema : Schema} (id : Nat)
    (may : allowed run.state name schema)
    (done : (collection library name schema (run.state.withFaults noFaults)).1 = .ok id)
    (reached : Reachable (fun run => run = {}) (DeclareStep library allowed) run) :
    Reachable (fun run => run = {}) (DeclareStep library allowed) (declare name schema run) :=
  .step reached (.collection noFaults name schema may (Prod.ext done rfl))

theorem commit_eq {run : SchemaRun Spec}
    (done : (commit library (run.state.withFaults noFaults)).1 = .ok ()) :
    commit library (run.state.withFaults noFaults) = (.ok (), (committed run).state) :=
  Prod.ext done rfl

theorem reached_commit {allowed : SchemaState Spec → String → Schema → Prop}
    {run : SchemaRun Spec} (done : (commit library (run.state.withFaults noFaults)).1 = .ok ())
    (reached : Reachable (fun run => run = {}) (DeclareStep library allowed) run) :
    Reachable (fun run => run = {}) (DeclareStep library allowed) (committed run) :=
  .step reached (.commit noFaults (commit_eq done))

/-- The second collection declares the private space of the first one's field with another codec. -/
def both : SchemaRun Spec := committed (declare "a/b" grid (declare "a" ring {}))

/-- The first collection gets a field, and so its doc comes last. -/
def grown : SchemaRun Spec := declare "a" titledRing both

def codecOf (registry : SchemaRegistry Spec) : Option CodecSpec :=
  (registry.vectorSpaces "~auto/a/b/c").bind fun entry =>
    match entry.state with
    | .ready _ => none
    | .deferred _ codec => some codec

/-- The space comes back with the codec of the second collection. -/
theorem grown_diverges :
    library.ReadsBack ∧
      Reachable (fun run => run = {}) (DeclareStep library fun _ _ _ => True) grown ∧
      commit library (grown.state.withFaults noFaults) = (.ok (), (committed grown).state) ∧
      codecOf (committed grown).state.registry = some (.upq 512 .empirical) ∧
      (∃ registry, rebuild library (committed grown).state.engine.reopen
        (committed grown).state.durableRows = .ok registry ∧ codecOf registry = some (.qam 5 6)) ∧
      ∀ registry, rebuild library (committed grown).state.engine.reopen
        (committed grown).state.durableRows = .ok registry →
          ¬Restores library (committed grown) registry := by
  have live : codecOf (committed grown).state.registry = some (.upq 512 .empirical) := by
    decide +kernel
  have reopened : (rebuild library (committed grown).state.engine.reopen
      (committed grown).state.durableRows).toOption.bind codecOf = some (.qam 5 6) := by
    decide +kernel
  obtain ⟨registry, found, codec⟩ := Option.bind_eq_some_iff.mp reopened
  have rebuilt := Outcome.toOption_eq_some.mp found
  have reached : Reachable (fun run => run = {}) (DeclareStep library fun _ _ _ => True) grown :=
    reached_declare 0 trivial (by decide +kernel) (reached_commit (by decide +kernel)
      (reached_declare 1 trivial (by decide +kernel)
        (reached_declare 0 trivial (by decide +kernel) (.start rfl))))
  refine ⟨library_readsBack, reached, commit_eq (by decide +kernel), live,
    ⟨registry, rebuilt, codec⟩, ?_⟩
  intro other same restores
  obtain rfl := Outcome.ok.inj (rebuilt.symm.trans same)
  cases space : registry.vectorSpaces "~auto/a/b/c" with
  | none => simp [codecOf, space] at codec
  | some entry =>
    have kept := restores.vectorSpaces _ _ space
    have sameCodec : codecOf registry = codecOf (committed grown).state.registry := by
      rw [codecOf, codecOf, space, kept]
    rw [codec, live] at sameCodec
    exact absurd (Option.some.inj sameCodec) (by decide)

def once : SchemaRun Spec := declare "a" ring {}

/-- One declaration and its commit. -/
theorem ring_restores : ∃ registry, rebuild library (committed once).state.engine.reopen
      (committed once).state.durableRows = .ok registry ∧
    Restores library { once with state := (committed once).state } registry := by
  have consistent : Consistent ({} : SchemaRun Spec).state "a" ring := by
    refine ⟨by decide +kernel, ?_⟩
    intro item member
    obtain rfl := List.mem_singleton.mp member
    exact nofun
  have reached : Reachable (fun run => run = {}) (DeclareStep library Consistent) once :=
    reached_declare 0 consistent (by decide +kernel) (.start rfl)
  have accepted : commit library (once.state.withFaults noFaults) =
      (.ok (), (committed once).state) := commit_eq (by decide +kernel)
  exact commit_restores library_readsBack reached accepted

end Clash

end Declarations

end Valise
