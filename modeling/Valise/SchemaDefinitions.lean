import Valise.SchemaRegistry
import Valise.KeyedStore

/-!
What definitions of spaces do when they succeed: the catalogs of the file stay the ready part of the
registry, and a space that is there keeps its dimension, its metric and its codec.
-/

namespace Valise

open ByteLists Commands Command Outcomes

namespace Declarations

/-! ### Catalogs and the registry -/

def VectorSpaceEntry.isReady (entry : VectorSpaceEntry) : Bool :=
  match entry.state with
  | .ready _ => true
  | .deferred _ _ => false

/-- What the catalog has of a collection. -/
def CollectionRecord.bare {ν : Type} (record : CollectionRecord ν) : CollectionRecord ν :=
  ⟨record.collectionId, none, none⟩

section Catalogs

variable {ν : Type}

theorem recoverVectorSpaces_others (rows : List EmbeddingSpaceRow) (registry : SchemaRegistry ν) :
    (rows.foldl recoverVectorSpace registry).textSpaces = registry.textSpaces ∧
      (rows.foldl recoverVectorSpace registry).collections = registry.collections := by
  induction rows generalizing registry with
  | nil => exact ⟨rfl, rfl⟩
  | cons row rest ih =>
    obtain ⟨texts, collections⟩ := ih (recoverVectorSpace registry row)
    rw [List.foldl_cons, texts, collections]
    unfold recoverVectorSpace
    split
    · exact ⟨rfl, rfl⟩
    · exact ⟨rfl, rfl⟩

theorem recoverTextSpaces_others (rows : List (TextSpaceRow × Nat)) (registry : SchemaRegistry ν) :
    (rows.foldl recoverTextSpace registry).vectorSpaces = registry.vectorSpaces ∧
      (rows.foldl recoverTextSpace registry).collections = registry.collections := by
  induction rows generalizing registry with
  | nil => exact ⟨rfl, rfl⟩
  | cons row rest ih => exact ih (recoverTextSpace registry row)

theorem recoverCollections_others (names : List (String × Nat)) (registry : SchemaRegistry ν) :
    (names.foldl recoverCollection registry).vectorSpaces = registry.vectorSpaces ∧
      (names.foldl recoverCollection registry).textSpaces = registry.textSpaces := by
  induction names generalizing registry with
  | nil => exact ⟨rfl, rfl⟩
  | cons item rest ih =>
    obtain ⟨spaces, texts⟩ := ih (recoverCollection registry item)
    rw [List.foldl_cons, spaces, texts]
    unfold recoverCollection
    split
    · exact ⟨rfl, rfl⟩
    · exact ⟨rfl, rfl⟩

variable (rows : SchemaRows)

theorem recover_vectorSpaces : (recover rows : SchemaRegistry ν).vectorSpaces =
    (rows.embeddingSpaces.foldl recoverVectorSpace ({} : SchemaRegistry ν)).vectorSpaces := by
  rw [recover, (recoverCollections_others _ _).1, (recoverTextSpaces_others _ _).1]

theorem recover_textSpaces : (recover rows : SchemaRegistry ν).textSpaces =
    (rows.textSpaces.zipIdx.foldl recoverTextSpace ({} : SchemaRegistry ν)).textSpaces := by
  rw [recover, (recoverCollections_others _ _).2]
  have texts : ∀ (items : List (TextSpaceRow × Nat)) (first second : SchemaRegistry ν),
      first.textSpaces = second.textSpaces →
      (items.foldl recoverTextSpace first).textSpaces =
        (items.foldl recoverTextSpace second).textSpaces := by
    intro items
    induction items with
    | nil => exact fun _ _ same => same
    | cons item rest ih =>
      intro first second same
      refine ih _ _ ?_
      unfold recoverTextSpace SchemaRegistry.insertTextSpace
      rw [same]
  exact texts _ _ _ (recoverVectorSpaces_others _ _).1

theorem recover_collections : (recover rows : SchemaRegistry ν).collections =
    (rows.collections.zipIdx.foldl recoverCollection ({} : SchemaRegistry ν)).collections := by
  rw [recover]
  have named : ∀ (items : List (String × Nat)) (first second : SchemaRegistry ν),
      first.collections = second.collections →
      (items.foldl recoverCollection first).collections =
        (items.foldl recoverCollection second).collections := by
    intro items
    induction items with
    | nil => exact fun _ _ same => same
    | cons item rest ih =>
      intro first second same
      refine ih _ _ ?_
      unfold recoverCollection
      split
      · exact same
      · exact congrArg (Function.update · _ _) same
  refine named _ _ _ ?_
  rw [(recoverTextSpaces_others _ _).2, (recoverVectorSpaces_others _ _).2]

theorem recover_addSpace (row : EmbeddingSpaceRow) (owned : row.provider = provider) :
    (recover { rows with embeddingSpaces := rows.embeddingSpaces ++ [row] } :
      SchemaRegistry ν).vectorSpaces =
      Function.update (recover rows : SchemaRegistry ν).vectorSpaces row.model
        (some ⟨row.dimension, .fromEngine row.metric, .ready row.embeddingSpaceId⟩) := by
  rw [recover_vectorSpaces, recover_vectorSpaces, List.foldl_append, List.foldl_cons,
    List.foldl_nil, recoverVectorSpace, if_pos owned]
  rfl

theorem recover_addText (row : TextSpaceRow) :
    (recover { rows with textSpaces := rows.textSpaces ++ [row] } :
      SchemaRegistry ν).textSpaces =
      Function.update (recover rows : SchemaRegistry ν).textSpaces row.name
        (some rows.textSpaces.length) := by
  rw [recover_textSpaces, recover_textSpaces, List.zipIdx_append, List.foldl_append]
  simp [recoverTextSpace, SchemaRegistry.insertTextSpace]

theorem recover_addCollection {name : String} (user : name.toList.head? ≠ some reservedPrefix) :
    (recover { rows with collections := rows.collections ++ [name] } :
      SchemaRegistry ν).collections =
      Function.update (recover rows : SchemaRegistry ν).collections name
        (some ⟨rows.collections.length, none, none⟩) := by
  rw [recover_collections, recover_collections, List.zipIdx_append, List.foldl_append]
  simp [recoverCollection, user, SchemaRegistry.insertCollection]

/-- The catalogs have the ready spaces, the text spaces and the collections of the registry. -/
structure Matches (rows : SchemaRows) (registry : SchemaRegistry ν) : Prop where
  vectorSpaces : ∀ name, (recover rows : SchemaRegistry ν).vectorSpaces name =
    (registry.vectorSpaces name).filter VectorSpaceEntry.isReady
  textSpaces : (recover rows : SchemaRegistry ν).textSpaces = registry.textSpaces
  collections : ∀ name, (recover rows : SchemaRegistry ν).collections name =
    (registry.collections name).map CollectionRecord.bare

variable {rows} {registry : SchemaRegistry ν}

theorem Matches.empty : Matches {} ({} : SchemaRegistry ν) :=
  ⟨fun _ => rfl, rfl, fun _ => rfl⟩

theorem Matches.addText (known : Matches rows registry) (row : TextSpaceRow) :
    Matches { rows with textSpaces := rows.textSpaces ++ [row] }
      (registry.insertTextSpace row.name rows.textSpaces.length) where
  vectorSpaces name := by
    rw [recover_vectorSpaces]
    exact (recover_vectorSpaces rows) ▸ known.vectorSpaces name
  textSpaces := by
    rw [recover_addText, known.textSpaces]
    rfl
  collections name := by
    rw [recover_collections]
    exact (recover_collections rows) ▸ known.collections name

theorem Matches.addReady (known : Matches rows registry) (name : String) (dim : UInt32)
    (metric : Metric) (spaceId : Nat) :
    Matches { rows with embeddingSpaces := rows.embeddingSpaces ++
        [⟨spaceId, provider, name, dim, metric.toEngine⟩] }
      (registry.insertVectorSpace name ⟨dim, metric, .ready spaceId⟩) where
  vectorSpaces other := by
    rw [recover_addSpace _ _ rfl, Metric.fromEngine_toEngine]
    by_cases same : other = name
    · subst same
      simp only [SchemaRegistry.insertVectorSpace, Function.update_self]
      rfl
    · simp [SchemaRegistry.insertVectorSpace, Function.update_of_ne same, known.vectorSpaces other]
  textSpaces := by
    rw [recover_textSpaces]
    exact (recover_textSpaces rows) ▸ known.textSpaces
  collections other := by
    rw [recover_collections]
    exact (recover_collections rows) ▸ known.collections other

theorem Matches.addDeferred (known : Matches rows registry) {name : String} (dim : UInt32)
    (metric : Metric) (target : Nat) (codec : CodecSpec)
    (fresh : registry.vectorSpaces name = none) :
    Matches rows (registry.insertVectorSpace name ⟨dim, metric, .deferred target codec⟩) where
  vectorSpaces other := by
    rw [known.vectorSpaces other]
    by_cases same : other = name
    · subst same
      simp only [SchemaRegistry.insertVectorSpace, Function.update_self, fresh]
      rfl
    · simp [SchemaRegistry.insertVectorSpace, Function.update_of_ne same]
  textSpaces := known.textSpaces
  collections := known.collections

theorem Matches.addCollection (known : Matches rows registry) {name : String}
    (user : name.toList.head? ≠ some reservedPrefix) (shape : Option Shape)
    (doc : Option (SchemaDoc ν)) :
    Matches { rows with collections := rows.collections ++ [name] }
      (registry.insertCollection name ⟨rows.collections.length, shape, doc⟩) where
  vectorSpaces other := by
    rw [recover_vectorSpaces]
    exact (recover_vectorSpaces rows) ▸ known.vectorSpaces other
  textSpaces := by
    rw [recover_textSpaces]
    exact (recover_textSpaces rows) ▸ known.textSpaces
  collections other := by
    rw [recover_addCollection _ user]
    by_cases same : other = name
    · subst same
      simp [SchemaRegistry.insertCollection, CollectionRecord.bare]
    · simp [SchemaRegistry.insertCollection, Function.update_of_ne same, known.collections other]

/-- A collection that is declared again keeps its id. -/
theorem Matches.redeclare (known : Matches rows registry) {name : String}
    {record : CollectionRecord ν} (there : registry.collections name = some record)
    (shape : Option Shape) (doc : Option (SchemaDoc ν)) :
    Matches rows (registry.insertCollection name ⟨record.collectionId, shape, doc⟩) where
  vectorSpaces := known.vectorSpaces
  textSpaces := known.textSpaces
  collections other := by
    rw [known.collections other]
    by_cases same : other = name
    · subst same
      simp [SchemaRegistry.insertCollection, CollectionRecord.bare, there]
    · simp [SchemaRegistry.insertCollection, Function.update_of_ne same]

/-- A codec that is still to be fitted is none of the prebuilt ones. -/
def Fitted (registry : SchemaRegistry ν) : Prop :=
  ∀ name dim metric target codec,
    registry.vectorSpaces name = some ⟨dim, metric, .deferred target codec⟩ →
      ∀ params, codec ≠ .prebuilt params

theorem Fitted.insert {name : String} {entry : VectorSpaceEntry} (fitted : Fitted registry)
    (entering : ∀ target codec, entry.state = .deferred target codec →
      ∀ params, codec ≠ .prebuilt params) : Fitted (registry.insertVectorSpace name entry) := by
  intro other dim metric target codec found
  by_cases same : other = name
  · subst same
    simp only [SchemaRegistry.insertVectorSpace, Function.update_self, Option.some.injEq] at found
    subst found
    exact entering target codec rfl
  · simp only [SchemaRegistry.insertVectorSpace, Function.update_of_ne same] at found
    exact fitted other dim metric target codec found

/-- A space stays as it was defined, but may become ready. -/
structure SchemaRegistry.Grows (before after : SchemaRegistry ν) : Prop where
  textSpaces : ∀ name id, before.textSpaces name = some id → after.textSpaces name = some id
  vectorSpaces : ∀ name entry, before.vectorSpaces name = some entry →
    after.vectorSpaces name = some entry ∨
      ∃ spaceId, after.vectorSpaces name = some { entry with state := .ready spaceId }

namespace SchemaRegistry.Grows

variable {before middle after : SchemaRegistry ν}

theorem refl (registry : SchemaRegistry ν) : registry.Grows registry :=
  ⟨fun _ _ found => found, fun _ _ found => .inl found⟩

theorem trans (first : before.Grows middle) (second : middle.Grows after) : before.Grows after where
  textSpaces name id found := second.textSpaces name id (first.textSpaces name id found)
  vectorSpaces := by
    intro name entry found
    rcases first.vectorSpaces name entry found with same | ⟨spaceId, ready⟩
    · exact second.vectorSpaces name entry same
    · rcases second.vectorSpaces name _ ready with same | ⟨newId, ready⟩
      · exact .inr ⟨spaceId, same⟩
      · exact .inr ⟨newId, ready⟩

theorem insertText {name : String} (fresh : registry.textSpaces name = none) (id : Nat) :
    registry.Grows (registry.insertTextSpace name id) where
  textSpaces := by
    intro other found old
    have apart : other ≠ name := by
      rintro rfl
      rw [fresh] at old
      cases old
    simpa [insertTextSpace, Function.update_of_ne apart] using old
  vectorSpaces _ _ found := .inl found

theorem insertVector {name : String} (fresh : registry.vectorSpaces name = none)
    (entry : VectorSpaceEntry) : registry.Grows (registry.insertVectorSpace name entry) where
  textSpaces _ _ found := found
  vectorSpaces := by
    intro other found old
    have apart : other ≠ name := by
      rintro rfl
      rw [fresh] at old
      cases old
    exact .inl (by simpa [insertVectorSpace, Function.update_of_ne apart] using old)

end SchemaRegistry.Grows

end Catalogs

/-- A space that still waits for its calibration has the codec and the sample size of the spec. -/
def VectorInline.Declares (spec : VectorInline) (vecState : VecState CodecSpec) : Prop :=
  ∀ target codec, vecState = .deferred target codec → codec = spec.codec ∧
    ∃ sample, spec.calibrate = .auto sample ∧ target = sampleTargetOf sample

/-! ### Definitions -/

/-- Docs and everything else about frames is as it was. -/
structure SameDocs (before after : StoreEngine CodecParams) : Prop where
  live : after.tables.frames = before.tables.frames
  durable : after.durable.frames = before.durable.frames
  unflushed : after.unflushed = before.unflushed

theorem SameDocs.refl (engine : StoreEngine CodecParams) : SameDocs engine engine := ⟨rfl, rfl, rfl⟩

theorem SameDocs.trans {before middle after : StoreEngine CodecParams}
    (first : SameDocs before middle) (second : SameDocs middle after) : SameDocs before after :=
  ⟨second.live.trans first.live, second.durable.trans first.durable,
    second.unflushed.trans first.unflushed⟩

section Definitions

variable {ν : Type} {library : SchemaLibrary ν} {state middle after : SchemaState ν}

/-- What defining spaces does to a store. -/
structure Defines (before after : SchemaState ν) : Prop where
  docs : SameDocs before.engine after.engine
  grows : before.registry.Grows after.registry
  collections : after.registry.collections = before.registry.collections
  durable : after.durableRows = before.durableRows
  staged : after.staged = before.staged
  known : Matches before.rows before.registry → Matches after.rows after.registry
  fitted : Fitted before.registry → Fitted after.registry

theorem Defines.refl (state : SchemaState ν) : Defines state state :=
  ⟨.refl _, .refl _, rfl, rfl, rfl, id, id⟩

theorem Defines.trans (first : Defines state middle) (second : Defines middle after) :
    Defines state after where
  docs := first.docs.trans second.docs
  grows := first.grows.trans second.grows
  collections := second.collections.trans first.collections
  durable := second.durable.trans first.durable
  staged := second.staged.trans first.staged
  known holds := second.known (first.known holds)
  fitted holds := second.fitted (first.fitted holds)

theorem onEngine_ok {α : Type} {call : StoreEngine.Call CodecParams α} {value : α} :
    onEngine call state = (.ok value, after) ↔
      ∃ engine, call state.engine = (.ok value, engine) ∧ after = { state with engine } := by
  unfold onEngine
  rcases call state.engine with ⟨outcome, engine⟩
  simp only [Prod.mk.injEq]
  constructor
  · rintro ⟨done, rfl⟩
    exact ⟨engine, ⟨done, rfl⟩, rfl⟩
  · rintro ⟨_, ⟨done, rfl⟩, rfl⟩
    exact ⟨done, rfl⟩

theorem registerCodec_same {params : CodecParams} {codec : Nat}
    (done : onEngine (ν := ν) (StoreEngine.registerCodec params) state = (.ok codec, after)) :
    ∃ engine, SameDocs state.engine engine ∧ after = { state with engine } := by
  obtain ⟨engine, called, rfl⟩ := onEngine_ok.mp done
  obtain ⟨_, rfl⟩ := StoreEngine.registerCodec_ok called
  refine ⟨_, ?_, rfl⟩
  exact ⟨rfl, rfl, rfl⟩

theorem registerCodecFor_ok {dim : UInt32} {spec : CodecSpec} {sample : List (List F32)}
    {codec : Nat} (done : registerCodecFor library dim spec sample state = (.ok codec, after)) :
    ∃ engine, SameDocs state.engine engine ∧ after = { state with engine } := by
  cases spec with
  | prebuilt params => exact registerCodec_same done
  | qam ampBits phaseBits =>
    obtain ⟨params, _, fitted, done⟩ := bind_eq_ok.mp done
    obtain ⟨_, rfl⟩ := lift_eq_ok.mp fitted
    exact registerCodec_same done
  | upq cells design =>
    obtain ⟨params, _, fitted, done⟩ := bind_eq_ok.mp done
    obtain ⟨_, rfl⟩ := lift_eq_ok.mp fitted
    exact registerCodec_same done

theorem registerEmbeddingSpace_ok {name : String} {dim : UInt32} {metric : Metric}
    {codec spaceId : Nat}
    (done : registerEmbeddingSpace name dim metric codec state = (.ok spaceId, after)) :
    ∃ engine, SameDocs state.engine engine ∧ after = { state with
      engine
      rows := { state.rows with embeddingSpaces := state.rows.embeddingSpaces ++
        [⟨spaceId, provider, name, dim, metric.toEngine⟩] } } := by
  simp only [registerEmbeddingSpace, setRows, bind_eq_ok, modify_eq_ok, pure_eq_ok, onEngine_ok]
    at done
  obtain ⟨_, _, ⟨engine, called, rfl⟩, _, _, rfl, rfl, rfl⟩ := done
  obtain ⟨_, rfl⟩ := StoreEngine.registerSpace_ok called
  refine ⟨_, ?_, rfl⟩
  exact ⟨rfl, rfl, rfl⟩

/-- A new space waits for its calibration, or it is ready and has a row in the catalog. -/
inductive Enters (name : String) (spec : VectorInline) (before : SchemaState ν) :
    VecState CodecSpec → SchemaState ν → Prop where
  | deferred (engine sample) : SameDocs before.engine engine → spec.calibrate = .auto sample →
      (∀ params, spec.codec ≠ .prebuilt params) →
      Enters name spec before (.deferred (sampleTargetOf sample) spec.codec) { before with engine }
  | ready (engine spaceId) : SameDocs before.engine engine →
      Enters name spec before (.ready spaceId) { before with
        engine
        rows := { before.rows with embeddingSpaces := before.rows.embeddingSpaces ++
          [⟨spaceId, provider, name, spec.dim, spec.metric.toEngine⟩] } }

theorem readySpace_ok {name : String} {spec : VectorInline} {codec : Nat}
    {vecState : VecState CodecSpec} {engine : StoreEngine CodecParams}
    (same : SameDocs state.engine engine)
    (done : readySpace name spec codec { state with engine } = (.ok vecState, after)) :
    Enters name spec state vecState after := by
  obtain ⟨spaceId, _, called, returned⟩ := bind_eq_ok.mp done
  obtain ⟨rfl, rfl⟩ := pure_eq_ok.mp returned
  obtain ⟨_, kept, rfl⟩ := registerEmbeddingSpace_ok called
  exact .ready _ spaceId (same.trans kept)

theorem calibratedState_ok {name : String} {spec : VectorInline} {vecState : VecState CodecSpec}
    (fitted : ∀ params, spec.codec ≠ .prebuilt params)
    (done : calibratedState library name spec state = (.ok vecState, after)) :
    Enters name spec state vecState after := by
  unfold calibratedState at done
  cases mode : spec.calibrate with
  | auto sample =>
    rw [mode] at done
    obtain ⟨rfl, rfl⟩ := pure_eq_ok.mp done
    exact .deferred _ sample (.refl _) mode fitted
  | now sample =>
    rw [mode] at done
    obtain ⟨codec, _, called, rest⟩ := bind_eq_ok.mp done
    obtain ⟨engine, same, rfl⟩ := registerCodecFor_ok called
    exact readySpace_ok same rest

theorem newVectorState_ok {name : String} {spec : VectorInline} {vecState : VecState CodecSpec}
    (done : newVectorState library name spec state = (.ok vecState, after)) :
    Enters name spec state vecState after := by
  unfold newVectorState at done
  cases codec : spec.codec with
  | prebuilt params =>
    rw [codec] at done
    obtain ⟨_, _, checked, rest⟩ := bind_eq_ok.mp done
    obtain ⟨_, rfl⟩ := lift_eq_ok.mp checked
    obtain ⟨codec, _, called, rest⟩ := bind_eq_ok.mp rest
    obtain ⟨engine, same, rfl⟩ := registerCodec_same called
    exact readySpace_ok same rest
  | qam ampBits phaseBits =>
    rw [codec] at done
    exact calibratedState_ok (by simp [codec]) done
  | upq cells design =>
    rw [codec] at done
    exact calibratedState_ok (by simp [codec]) done

theorem defineTextSpace_ok {name : String} {lang : Lang} {space : Space}
    (done : defineTextSpace name lang state = (.ok space, after)) :
    space = ⟨name, .text⟩ ∧ Defines state after ∧
      after.registry.vectorSpaces = state.registry.vectorSpaces ∧
      ∃ id, after.registry.textSpaces name = some id := by
  unfold defineTextSpace at done
  obtain ⟨_, _, read, done⟩ := bind_eq_ok.mp done
  obtain ⟨rfl, rfl⟩ := get_eq_ok.mp read
  cases found : state.registry.textSpaces name with
  | some id =>
    rw [found] at done
    obtain ⟨rfl, rfl⟩ := pure_eq_ok.mp done
    exact ⟨rfl, .refl _, rfl, id, found⟩
  | none =>
    rw [found] at done
    simp only [registerTextSpace, setRows, setRegistry, bind_eq_ok, modify_eq_ok, pure_eq_ok,
      get_eq_ok, onEngine_ok, StoreEngine.fallible_ok] at done
    obtain ⟨_, _, ⟨_, _, ⟨_, ⟨_, rfl⟩, rfl⟩, _, _, ⟨rfl, rfl⟩, _, _, rfl, rfl, rfl⟩, _, _, rfl, rfl,
      rfl⟩ := done
    refine ⟨rfl, ?_, rfl, state.rows.textSpaces.length, Function.update_self ..⟩
    exact ⟨.refl _, .insertText found _, rfl, rfl, rfl, fun known => known.addText ⟨name, lang⟩, id⟩

theorem defineVectorSpace_ok {name : String} {spec : VectorInline} {space : Space}
    (done : defineVectorSpace library name spec state = (.ok space, after)) :
    space = ⟨name, .vector spec.dim⟩ ∧ Defines state after ∧
      after.registry.textSpaces = state.registry.textSpaces ∧
      (∀ other, other ≠ name →
        after.registry.vectorSpaces other = state.registry.vectorSpaces other) ∧
      ∃ vecState, after.registry.vectorSpaces name = some ⟨spec.dim, spec.metric, vecState⟩ ∧
        (after.registry.vectorSpaces name = state.registry.vectorSpaces name ∨
          spec.Declares vecState) := by
  unfold defineVectorSpace at done
  obtain ⟨_, _, read, done⟩ := bind_eq_ok.mp done
  obtain ⟨rfl, rfl⟩ := get_eq_ok.mp read
  cases found : state.registry.vectorSpaces name with
  | some entry =>
    rw [found] at done
    simp only [bind_eq_ok, lift_eq_ok, pure_eq_ok, Outcome.ensure_eq_ok] at done
    obtain ⟨_, _, ⟨sameDim, rfl⟩, _, _, ⟨sameMetric, rfl⟩, rfl, rfl⟩ := done
    refine ⟨by rw [sameDim], .refl _, rfl, fun _ _ => rfl, entry.state, ?_, .inl found⟩
    rw [found, ← sameDim, ← sameMetric]
  | none =>
    rw [found] at done
    simp only [setRegistry, bind_eq_ok, lift_eq_ok, modify_eq_ok, pure_eq_ok] at done
    obtain ⟨_, _, ⟨_, rfl⟩, vecState, _, called, _, _, rfl, rfl, rfl⟩ := done
    cases newVectorState_ok called with
    | deferred engine sample same auto notPrebuilt =>
      refine ⟨rfl, ?_, rfl, fun other apart => Function.update_of_ne apart .., _,
        Function.update_self .., .inr ?_⟩
      · refine ⟨same, .insertVector found _, rfl, rfl, rfl,
          fun known => known.addDeferred _ _ _ _ found, fun fitted => fitted.insert ?_⟩
        intro target codec deferred
        obtain ⟨_, rfl⟩ := VecState.deferred.inj deferred
        exact notPrebuilt
      · intro target codec deferred
        obtain ⟨rfl, rfl⟩ := VecState.deferred.inj deferred
        exact ⟨rfl, sample, auto, rfl⟩
    | ready engine spaceId same =>
      refine ⟨rfl, ?_, rfl, fun other apart => Function.update_of_ne apart .., _,
        Function.update_self .., .inr nofun⟩
      exact ⟨same, .insertVector found _, rfl, rfl, rfl, fun known => known.addReady _ _ _ _,
        fun fitted => fitted.insert nofun⟩

theorem defineSpace_ok {name : String} {spec : FieldSpec} {space : Space}
    (done : defineSpace library name spec state = (.ok space, after)) : Defines state after := by
  unfold defineSpace at done
  obtain ⟨_, _, checked, done⟩ := bind_eq_ok.mp done
  obtain ⟨_, rfl⟩ := lift_eq_ok.mp checked
  rcases spec with (lang | shared) | ⟨spec | shared, misuse⟩
  · exact (defineTextSpace_ok done).2.1
  · cases (lift_eq_ok.mp done).1
  · obtain ⟨_, _, checked, done⟩ := bind_eq_ok.mp done
    obtain ⟨_, rfl⟩ := lift_eq_ok.mp checked
    exact (defineVectorSpace_ok done).2.1
  · obtain ⟨_, _, checked, done⟩ := bind_eq_ok.mp done
    obtain ⟨_, rfl⟩ := lift_eq_ok.mp checked
    cases (lift_eq_ok.mp done).1

/-! ### Bound fields -/

def boundField (coll : String) (item : String × FieldSpec) : Field :=
  match item.2 with
  | .text (.inline _) => .text ⟨autoSpaceName coll item.1, .text⟩
  | .text (.shared space) => .text space
  | .vector (.inline spec) _ => .vector ⟨autoSpaceName coll item.1, .vector spec.dim⟩
  | .vector (.shared space) _ => .vector space

def boundFields (coll : String) (fields : List (String × FieldSpec)) : List (String × Field) :=
  fields.map fun item => (item.1, boundField coll item)

/-- A shared binding is a handle to a space of this store, and a private space that is there and not
calibrated has what the spec says. -/
def Agrees (registry : SchemaRegistry ν) (coll : String) (item : String × FieldSpec) : Prop :=
  match item.2 with
  | .text (.inline _) => True
  | .text (.shared space) => space.kind = .text ∧ ∃ id, registry.textSpaces space.name = some id
  | .vector (.inline spec) _ => ∀ entry,
      registry.vectorSpaces (autoSpaceName coll item.1) = some entry → spec.Declares entry.state
  | .vector (.shared space) _ => ∃ entry, registry.vectorSpaces space.name = some entry ∧
      space.kind = .vector entry.dim

/-- The registry has the space of the field, as it was declared. -/
def Bound (registry : SchemaRegistry ν) (coll : String) (item : String × FieldSpec) : Prop :=
  match item.2 with
  | .text (.inline _) => ∃ id, registry.textSpaces (autoSpaceName coll item.1) = some id
  | .text (.shared space) => space.kind = .text ∧ ∃ id, registry.textSpaces space.name = some id
  | .vector (.inline spec) _ => ∃ vecState, registry.vectorSpaces (autoSpaceName coll item.1) =
      some ⟨spec.dim, spec.metric, vecState⟩ ∧ spec.Declares vecState
  | .vector (.shared space) _ => ∃ entry, registry.vectorSpaces space.name = some entry ∧
      space.kind = .vector entry.dim

theorem SchemaRegistry.Grows.shared {before after : SchemaRegistry ν} (grows : before.Grows after)
    {space : Space} (there : ∃ entry, before.vectorSpaces space.name = some entry ∧
      space.kind = .vector entry.dim) :
    ∃ entry, after.vectorSpaces space.name = some entry ∧ space.kind = .vector entry.dim := by
  obtain ⟨entry, found, kind⟩ := there
  rcases grows.vectorSpaces _ entry found with same | ⟨spaceId, ready⟩
  · exact ⟨entry, same, kind⟩
  · exact ⟨_, ready, kind⟩

theorem Bound.grow {before after : SchemaRegistry ν} (grows : before.Grows after) {coll : String}
    {item : String × FieldSpec} (bound : Bound before coll item) : Bound after coll item := by
  obtain ⟨name, spec⟩ := item
  rcases spec with (lang | space) | ⟨spec | space, misuse⟩
  · obtain ⟨id, found⟩ := bound
    exact ⟨id, grows.textSpaces _ _ found⟩
  · obtain ⟨kind, id, found⟩ := bound
    exact ⟨kind, id, grows.textSpaces _ _ found⟩
  · obtain ⟨vecState, found, declares⟩ := bound
    rcases grows.vectorSpaces _ _ found with same | ⟨spaceId, ready⟩
    · exact ⟨vecState, same, declares⟩
    · exact ⟨_, ready, nofun⟩
  · exact grows.shared bound

theorem Agrees.grow {before after : SchemaRegistry ν} (grows : before.Grows after) {coll : String}
    {item : String × FieldSpec} (agrees : Agrees before coll item)
    (same : ∀ space ∈ vectorSpacesOf coll [item],
      after.vectorSpaces space = before.vectorSpaces space) : Agrees after coll item := by
  obtain ⟨name, spec⟩ := item
  rcases spec with (lang | space) | ⟨spec | space, misuse⟩
  · trivial
  · obtain ⟨kind, id, found⟩ := agrees
    exact ⟨kind, id, grows.textSpaces _ _ found⟩
  · intro entry found
    have kept := same (autoSpaceName coll name) List.mem_cons_self
    exact agrees entry (kept.symm.trans found)
  · exact grows.shared agrees

theorem bindField_ok {coll : String} {item : String × FieldSpec} {field : String × Field}
    (agrees : Agrees state.registry coll item)
    (done : bindField library coll item state = (.ok field, after)) :
    field = (item.1, boundField coll item) ∧ Defines state after ∧
      Bound after.registry coll item ∧
      ∀ other ∉ vectorSpacesOf coll [item],
        after.registry.vectorSpaces other = state.registry.vectorSpaces other := by
  obtain ⟨name, spec⟩ := item
  rcases spec with (lang | space) | ⟨spec | space, misuse⟩
  · obtain ⟨space, _, called, returned⟩ := bind_eq_ok.mp done
    obtain ⟨rfl, rfl⟩ := pure_eq_ok.mp returned
    obtain ⟨rfl, defines, same, found⟩ := defineTextSpace_ok called
    exact ⟨rfl, defines, found, fun other _ => congrFun same other⟩
  · obtain ⟨rfl, rfl⟩ := pure_eq_ok.mp done
    exact ⟨rfl, .refl _, agrees, fun _ _ => rfl⟩
  · obtain ⟨space, _, called, returned⟩ := bind_eq_ok.mp done
    obtain ⟨rfl, rfl⟩ := pure_eq_ok.mp returned
    obtain ⟨rfl, defines, _, others, vecState, found, old⟩ := defineVectorSpace_ok called
    refine ⟨rfl, defines, ⟨vecState, found, ?_⟩, ?_⟩
    · rcases old with same | declares
      · exact agrees _ (same.symm.trans found)
      · exact declares
    · intro other apart
      exact others other fun same => apart (List.mem_singleton.mpr same)
  · obtain ⟨rfl, rfl⟩ := pure_eq_ok.mp done
    exact ⟨rfl, .refl _, agrees, fun _ _ => rfl⟩

theorem bindFields_ok {coll : String} {fields : List (String × FieldSpec)}
    {bound : List (String × Field)} (distinct : (vectorSpacesOf coll fields).Nodup)
    (agrees : ∀ item ∈ fields, Agrees state.registry coll item)
    (done : bindFields library coll fields state = (.ok bound, after)) :
    bound = boundFields coll fields ∧ Defines state after ∧
      ∀ item ∈ fields, Bound after.registry coll item := by
  induction fields generalizing state bound with
  | nil =>
    obtain ⟨rfl, rfl⟩ := pure_eq_ok.mp done
    exact ⟨rfl, .refl _, nofun⟩
  | cons item rest ih =>
    obtain ⟨field, middle, first, others⟩ := bind_eq_ok.mp done
    obtain ⟨fields, _, bindRest, returned⟩ := bind_eq_ok.mp others
    obtain ⟨rfl, rfl⟩ := pure_eq_ok.mp returned
    obtain ⟨rfl, defines, here, same⟩ := bindField_ok (agrees item List.mem_cons_self) first
    rw [vectorSpacesOf_cons] at distinct
    obtain ⟨_, distinctRest, apart⟩ := List.nodup_append.mp distinct
    have still : ∀ other ∈ rest, Agrees middle.registry coll other := by
      intro other member
      refine (agrees other (List.mem_cons_of_mem _ member)).grow defines.grows ?_
      intro space listed
      refine same space fun taken => apart space taken space ?_ rfl
      obtain ⟨single, only, found⟩ := List.mem_filterMap.mp listed
      rw [List.mem_singleton.mp only] at found
      exact List.mem_filterMap.mpr ⟨other, member, found⟩
    obtain ⟨rfl, definesRest, boundRest⟩ := ih distinctRest still bindRest
    refine ⟨rfl, defines.trans definesRest, ?_⟩
    intro other member
    rcases List.mem_cons.mp member with rfl | inRest
    · exact here.grow definesRest.grows
    · exact boundRest other inRest

theorem bindSchema_ok {coll : String} {schema : Schema} {shape : Shape}
    (agrees : ∀ item ∈ schema.fields, Agrees state.registry coll item)
    (done : bindSchema library coll schema state = (.ok shape, after)) :
    validateSchema coll schema = .ok () ∧ shape = ⟨boundFields coll schema.fields⟩ ∧
      shape.validate = .ok () ∧ Defines state after ∧
      ∀ item ∈ schema.fields, Bound after.registry coll item := by
  simp only [bindSchema, bind_eq_ok, lift_eq_ok, pure_eq_ok] at done
  obtain ⟨_, _, ⟨valid, rfl⟩, fields, _, called, _, _, ⟨checked, rfl⟩, rfl, rfl⟩ := done
  obtain ⟨rfl, defines, bound⟩ := bindFields_ok (validateSchema_ok valid) agrees called
  exact ⟨valid, rfl, checked, defines, bound⟩

/-! ### Calibration -/

theorem promote_append {registry : SchemaRegistry ν} {newlyReady : List (String × Nat)}
    {name : String} {entry : VectorSpaceEntry} (spaceId : Nat)
    (found : registry.vectorSpaces name = some entry) (fresh : newlyReady.lookup name = none) :
    registry.promote (newlyReady ++ [(name, spaceId)]) =
      (registry.promote newlyReady).insertVectorSpace name
        { entry with state := .ready spaceId } := by
  unfold SchemaRegistry.promote SchemaRegistry.insertVectorSpace
  simp only [SchemaRegistry.mk.injEq, and_true]
  funext other
  by_cases same : other = name
  · subst same
    rw [Function.update_self, lookup_append, fresh]
    simp [found]
  · rw [Function.update_of_ne same, lookup_append]
    cases newlyReady.lookup other with
    | some id => rfl
    | none => simp [List.lookup_cons, beq_false_of_ne same]

theorem SchemaRegistry.Grows.promote (registry : SchemaRegistry ν)
    (newlyReady : List (String × Nat)) : registry.Grows (registry.promote newlyReady) where
  textSpaces _ _ found := found
  vectorSpaces := by
    intro name entry found
    cases ready : newlyReady.lookup name with
    | some spaceId => exact .inr ⟨spaceId, by simp [SchemaRegistry.promote, ready, found]⟩
    | none => exact .inl (by simp [SchemaRegistry.promote, ready, found])

theorem Fitted.promote {registry : SchemaRegistry ν} (fitted : Fitted registry)
    (newlyReady : List (String × Nat)) : Fitted (registry.promote newlyReady) := by
  intro name dim metric target codec found
  cases ready : newlyReady.lookup name with
  | some spaceId => simp [SchemaRegistry.promote, ready] at found
  | none =>
    simp only [SchemaRegistry.promote, ready] at found
    exact fitted name dim metric target codec found

/-- Calibration has registered what it will make ready. -/
structure Calibrating (start : SchemaState ν) (newlyReady : List (String × Nat))
    (state : SchemaState ν) : Prop where
  docs : SameDocs start.engine state.engine
  registry : state.registry = start.registry
  known : Matches start.rows start.registry →
    Matches state.rows (start.registry.promote newlyReady)

theorem calibrateSpace_ok {start : SchemaState ν} {calibrated next : Writer.Calibrated}
    {name : String} {entry : VectorSpaceEntry}
    (found : start.registry.vectorSpaces name = some entry)
    (fresh : calibrated.newlyReady.lookup name = none)
    (calibrating : Calibrating start calibrated.newlyReady state)
    (done : calibrateSpace library calibrated (name, entry.plan) state = (.ok next, after)) :
    Calibrating start next.newlyReady after ∧
      ∀ other, other ≠ name → next.newlyReady.lookup other = calibrated.newlyReady.lookup other := by
  obtain ⟨dim, metric, vecState⟩ := entry
  cases vecState with
  | ready spaceId =>
    obtain ⟨rfl, rfl⟩ := pure_eq_ok.mp done
    exact ⟨calibrating, fun _ _ => rfl⟩
  | deferred target codec =>
    obtain ⟨_, _, read, done⟩ := bind_eq_ok.mp done
    obtain ⟨rfl, rfl⟩ := get_eq_ok.mp read
    split at done
    · obtain ⟨rfl, rfl⟩ := pure_eq_ok.mp done
      exact ⟨calibrating, fun _ _ => rfl⟩
    · obtain ⟨codecId, _, fitted, done⟩ := bind_eq_ok.mp done
      obtain ⟨spaceId, _, registered, returned⟩ := bind_eq_ok.mp done
      obtain ⟨rfl, rfl⟩ := pure_eq_ok.mp returned
      obtain ⟨_, same, rfl⟩ := registerCodecFor_ok fitted
      obtain ⟨_, kept, rfl⟩ := registerEmbeddingSpace_ok registered
      refine ⟨⟨calibrating.docs.trans (same.trans kept), calibrating.registry, ?_⟩, ?_⟩
      · intro known
        rw [promote_append spaceId found fresh]
        exact (calibrating.known known).addReady name dim metric spaceId
      · intro other apart
        rw [lookup_append]
        cases calibrated.newlyReady.lookup other with
        | some id => rfl
        | none => simp [List.lookup_cons, beq_false_of_ne apart]

theorem calibrateSpaces_ok {start : SchemaState ν} {calibrated final : Writer.Calibrated}
    {plans : List (String × SpacePlan)} (distinct : (plans.map (·.1)).Nodup)
    (planned : ∀ item ∈ plans, ∃ entry, start.registry.vectorSpaces item.1 = some entry ∧
      item.2 = entry.plan)
    (fresh : ∀ item ∈ plans, calibrated.newlyReady.lookup item.1 = none)
    (calibrating : Calibrating start calibrated.newlyReady state)
    (done : foldEach plans calibrated (calibrateSpace library) state = (.ok final, after)) :
    Calibrating start final.newlyReady after := by
  induction plans generalizing state calibrated with
  | nil =>
    obtain ⟨rfl, rfl⟩ := pure_eq_ok.mp done
    exact calibrating
  | cons item rest ih =>
    obtain ⟨next, middle, first, others⟩ := bind_eq_ok.mp done
    obtain ⟨name, plan⟩ := item
    obtain ⟨entry, found, rfl⟩ := planned _ List.mem_cons_self
    obtain ⟨progress, same⟩ :=
      calibrateSpace_ok found (fresh _ List.mem_cons_self) calibrating first
    obtain ⟨notInRest, distinctRest⟩ := List.nodup_cons.mp distinct
    refine ih distinctRest (fun other member => planned other (List.mem_cons_of_mem _ member)) ?_
      progress others
    intro other member
    rw [same]
    · exact fresh other (List.mem_cons_of_mem _ member)
    · intro sameName
      exact notInRest (List.mem_map.mpr ⟨other, member, sameName⟩)

theorem spacePlans_ok {registry : SchemaRegistry ν} {names : List String}
    {plans : List (String × SpacePlan)} (done : spacePlans registry names = .ok plans) :
    plans.map (·.1) = names ∧ ∀ item ∈ plans, ∃ entry,
      registry.vectorSpaces item.1 = some entry ∧ item.2 = entry.plan := by
  induction names generalizing plans with
  | nil =>
    obtain rfl := Outcome.ok.inj done
    exact ⟨rfl, nofun⟩
  | cons name rest ih =>
    simp only [spacePlans, Outcome.bind_eq_ok, Outcome.pure_eq, Outcome.ok.injEq] at done
    obtain ⟨entry, found, plans, planned, rfl⟩ := done
    obtain ⟨names, known⟩ := ih planned
    refine ⟨by rw [List.map_cons, names], ?_⟩
    intro item member
    rcases List.mem_cons.mp member with rfl | inRest
    · refine ⟨entry, ?_, rfl⟩
      cases there : registry.vectorSpaces name with
      | none => simp [required, there] at found
      | some other =>
        rw [there] at found
        exact congrArg some (Outcome.ok.inj found)
    · exact known item inRest

theorem putStaged_ok {resolved : List (String × Nat)} {items : List StagedVector}
    (done : forEach items (putStaged resolved) state = (.ok (), after)) :
    ∃ engine, SameDocs state.engine engine ∧ after = { state with engine } := by
  induction items generalizing state with
  | nil =>
    obtain ⟨_, rfl⟩ := pure_eq_ok.mp done
    exact ⟨_, .refl _, rfl⟩
  | cons item rest ih =>
    obtain ⟨_, middle, first, others⟩ := bind_eq_ok.mp done
    have put : ∃ engine, SameDocs state.engine engine ∧ middle = { state with engine } := by
      unfold putStaged at first
      cases found : resolved.lookup item.spaceName with
      | none =>
        rw [found] at first
        obtain ⟨_, rfl⟩ := pure_eq_ok.mp first
        exact ⟨_, .refl _, rfl⟩
      | some spaceId =>
        rw [found] at first
        obtain ⟨_, _, called, returned⟩ := bind_eq_ok.mp first
        obtain ⟨_, rfl⟩ := pure_eq_ok.mp returned
        obtain ⟨engine, put, rfl⟩ := onEngine_ok.mp called
        obtain ⟨_, _, rfl⟩ := StoreEngine.putVector_ok put
        refine ⟨_, ?_, rfl⟩
        exact ⟨rfl, rfl, rfl⟩
    obtain ⟨engine, same, rfl⟩ := put
    obtain ⟨final, kept, rfl⟩ := ih others
    exact ⟨final, same.trans kept, rfl⟩

/-- What a commit that succeeds does: spaces may become ready, and everything is durable. -/
structure Commits (before after : SchemaState ν) : Prop where
  frames : after.engine.tables.frames = before.engine.tables.frames
  durable : after.engine.durable = after.engine.tables
  unflushed : after.engine.unflushed = []
  grows : before.registry.Grows after.registry
  collections : after.registry.collections = before.registry.collections
  rows : after.durableRows = after.rows
  known : Matches before.rows before.registry → Matches after.rows after.registry
  fitted : Fitted before.registry → Fitted after.registry

theorem flushDeferred_ok (done : flushDeferred library state = (.ok (), after)) :
    ∃ newlyReady, Calibrating state newlyReady { after with registry := state.registry } ∧
      after.registry = state.registry.promote newlyReady := by
  simp only [flushDeferred, setRegistry, bind_eq_ok, get_eq_ok, lift_eq_ok, modify_eq_ok] at done
  obtain ⟨_, _, ⟨rfl, rfl⟩, plans, _, ⟨planned, rfl⟩, calibrated, middle, folded, _, _, put, _, _,
    rfl, rfl⟩ := done
  obtain ⟨names, known⟩ := spacePlans_ok planned
  have start : Calibrating state ({} : Writer.Calibrated).newlyReady state := ⟨.refl _, rfl, id⟩
  have distinct : (plans.map (·.1)).Nodup := names ▸ Writer.stagedNames_nodup _
  have progress := calibrateSpaces_ok distinct known (fun _ _ => rfl) start folded
  obtain ⟨engine, same, rfl⟩ := putStaged_ok put
  refine ⟨calibrated.newlyReady, ⟨progress.docs.trans same, rfl, progress.known⟩, ?_⟩
  exact congrArg (SchemaRegistry.promote · _) progress.registry

theorem commit_ok (done : commit library state = (.ok (), after)) : Commits state after := by
  simp only [commit, flushStaged, bind_eq_ok, get_eq_ok, modify_eq_ok] at done
  obtain ⟨_, middle, ⟨_, _, ⟨rfl, rfl⟩, flushed⟩, _, _, called, rfl⟩ := done
  obtain ⟨engine, committed, rfl⟩ := onEngine_ok.mp called
  have written := StoreEngine.commit_ok committed
  split at flushed
  · obtain ⟨_, rfl⟩ := pure_eq_ok.mp flushed
    exact ⟨by rw [written.tables], written.durable.trans written.tables.symm, written.unflushed,
      .refl _, rfl, rfl, id, id⟩
  · obtain ⟨newlyReady, calibrating, promoted⟩ := flushDeferred_ok flushed
    refine ⟨?_, written.durable.trans written.tables.symm, written.unflushed, ?_, ?_, rfl, ?_, ?_⟩
    · rw [← calibrating.docs.live, ← written.tables]
    · exact promoted ▸ .promote _ _
    · rw [promoted]
      rfl
    · exact promoted ▸ calibrating.known
    · exact fun fitted => promoted ▸ fitted.promote _

end Definitions

end Declarations

end Valise
