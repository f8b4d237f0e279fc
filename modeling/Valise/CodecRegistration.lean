import Valise.Reopening

/-!
What is left of a registration of a codec: one that returns is rebuilt by the next open, and one
that fails changes nothing, unless the parameters pass their check but make no live codec.
-/

namespace Valise

open ByteLists Commands Command DeltaTables Numerals Outcomes Relation Runs SortedTables

/-! ### How far a registration gets -/

/-- Both ids can be taken, and the parameters can be appended and synced. -/
def ValiseFile.Registers (handle : ValiseFile) : Prop :=
  (takeU64 "segment" handle.idAllocator.nextSegmentId).isOk ∧
    (takeU32 "codec" handle.idAllocator.nextCodecId).isOk ∧
      handle.faults .appendCodecParams = false ∧ handle.faults .syncCodecParams = false

/-- What the caller can see of the handle is as it was. -/
structure ValiseFile.Unchanged (before after : ValiseFile) : Prop where
  tables : after.tables = before.tables
  dirtyIds : after.dirtyIds = before.dirtyIds
  codecCache : after.codecCache = before.codecCache
  dirty : after.dirty = before.dirty

theorem ValiseFile.Unchanged.refl (handle : ValiseFile) : handle.Unchanged handle :=
  ⟨rfl, rfl, rfl, rfl⟩

/-- The handle with the parameters stored and the row of the codec entered. -/
def ValiseFile.withCodec (handle : ValiseFile) (ids : IdAllocator) (segmentId : SegmentId)
    (codecId : CodecId) (params : CodecParams) : ValiseFile :=
  { (handle.storeSegment ids segmentId (.codecParams params) .codecParams 1 .none).upsertRow .codec
      ⟨codecId, params.family, params.wireVersion, ⟨segmentId, handle.file.length⟩⟩ with
    dirty := true }

/-- The ids that a registration takes. -/
structure TakesIds (handle : ValiseFile) (ids : IdAllocator) (segmentId : SegmentId)
    (codecId : CodecId) : Prop where
  took : ∃ segmentIds, handle.idAllocator.Took segmentIds .segment segmentId.toNat ∧
    segmentIds.Took ids .codec codecId.toNat

theorem tookSegment {handle : ValiseFile} {segmentId following : SegmentId}
    (taken : takeU64 "segment" handle.idAllocator.nextSegmentId = .ok (segmentId, following)) :
    handle.idAllocator.Took { handle.idAllocator with nextSegmentId := following } .segment
      segmentId.toNat := by
  obtain ⟨rfl, positive, next⟩ := takeU64_takes _ _ _ _ taken
  refine ⟨positive, rfl, next, fun other different => ?_⟩
  cases other with
  | segment => contradiction
  | collection | frame | textSpace | analyzer | fieldSchema | retrievalProfile | embeddingSpace
  | codec | vector | fusionProfile => rfl

theorem tookCodec {ids : IdAllocator} {codecId following : CodecId}
    (taken : takeU32 "codec" ids.nextCodecId = .ok (codecId, following)) :
    ids.Took { ids with nextCodecId := following } .codec codecId.toNat := by
  obtain ⟨rfl, positive, next⟩ := takeU32_takes _ _ _ _ taken
  refine ⟨positive, rfl, next, fun other different => ?_⟩
  cases other with
  | codec => contradiction
  | collection | frame | textSpace | analyzer | fieldSchema | retrievalProfile | embeddingSpace
  | segment | vector | fusionProfile => rfl

section Registration

variable {handle : ValiseFile} {params : CodecParams}

theorem takeU64_ne_panic (label : String) (next : UInt64) : takeU64 label next ≠ .panic :=
  Outcome.bind_ne_panic Outcome.ensure_ne_panic fun _ =>
    Outcome.bind_ne_panic Outcome.ensure_ne_panic fun _ => nofun

theorem takeU32_ne_panic (label : String) (next : UInt32) : takeU32 label next ≠ .panic :=
  Outcome.bind_ne_panic Outcome.ensure_ne_panic fun _ =>
    Outcome.bind_ne_panic Outcome.ensure_ne_panic fun _ => nofun

theorem allocate_ok {ι : Type} {take : ι → Result (ι × ι)} {next : IdAllocator → ι}
    {store : ι → IdAllocator → IdAllocator} {id following : ι}
    (taken : take (next handle.idAllocator) = .ok (id, following)) :
    allocate take next store handle =
      (.ok id, { handle with idAllocator := store following handle.idAllocator }) := by
  rw [allocate, bind_of_ok (get_apply handle), bind_of_ok (lift_eq_ok.mpr ⟨taken, rfl⟩)]
  rfl

theorem allocate_err {ι : Type} {take : ι → Result (ι × ι)} {next : IdAllocator → ι}
    {store : ι → IdAllocator → IdAllocator} {error : Error}
    (refused : take (next handle.idAllocator) = .err error) :
    allocate take next store handle = (.err error, handle) := by
  have stopped : (lift (take (next handle.idAllocator)) : Engine (ι × ι)) handle =
      (.err error, handle) := by
    rw [lift_apply, refused]
  rw [allocate, bind_of_ok (get_apply handle), bind_of_err stopped]

theorem fallible_passes {point : IoPoint} (works : handle.faults point = false) :
    fallible point handle = (.ok (), handle) := by
  rw [fallible, bind_of_ok (get_apply handle), lift_apply, Outcome.ensure_true _ works]

theorem fallible_stops {point : IoPoint} (fails : handle.faults point ≠ false) :
    fallible point handle = (.err .io, handle) := by
  rw [fallible, bind_of_ok (get_apply handle), lift_apply, Outcome.ensure, if_neg fails]

theorem appendSegmentAtEnd_appends {point : IoPoint} (works : handle.faults point = false)
    (segmentId : SegmentId) (content : SegmentContent) :
    appendSegmentAtEnd point segmentId content handle = (.ok ⟨segmentId, handle.file.length⟩,
      { handle with file := handle.file ++ [⟨segmentId, content⟩] }) := by
  rw [appendSegmentAtEnd, bind_of_ok (fallible_passes works)]
  rfl

/-- Where everything works, the row is entered, and the live codec decides about the rest. -/
theorem registerCodec_enters (encoded : params.encode = .ok ()) (registers : handle.Registers) :
    ∃ ids segmentId codecId, TakesIds handle ids segmentId codecId ∧
      registerCodec params handle = (do
        lift params.instantiate
        Command.modify fun handle => { handle with
          codecCache := store UInt32.toNat codecId params handle.codecCache }
        return codecId : Engine CodecId) (handle.withCodec ids segmentId codecId params) := by
  obtain ⟨segmentOk, codecOk, appends, syncs⟩ := registers
  obtain ⟨⟨segmentId, nextSegment⟩, segmentTaken⟩ := Outcome.isOk_iff.mp segmentOk
  obtain ⟨⟨codecId, nextCodec⟩, codecTaken⟩ := Outcome.isOk_iff.mp codecOk
  refine ⟨{ handle.idAllocator with nextSegmentId := nextSegment, nextCodecId := nextCodec },
    segmentId, codecId, ⟨_, tookSegment segmentTaken, tookCodec codecTaken⟩, ?_⟩
  have first := @allocate_ok handle _ (takeU64 "segment") IdAllocator.nextSegmentId
    (fun next ids => { ids with nextSegmentId := next }) _ _ segmentTaken
  have second := @allocate_ok
    { handle with idAllocator := { handle.idAllocator with nextSegmentId := nextSegment } } _
    (takeU32 "codec") IdAllocator.nextCodecId (fun next ids => { ids with nextCodecId := next }) _ _
    codecTaken
  rw [registerCodec, bind_of_ok (lift_eq_ok.mpr ⟨encoded, rfl⟩), allocateSegmentId,
    bind_of_ok first, allocateCodecId, bind_of_ok second,
    bind_of_ok (appendSegmentAtEnd_appends (by exact appends) segmentId (.codecParams params)),
    bind_of_ok (fallible_passes (by exact syncs))]
  rfl

/-- Where something stops the registration before, nothing is entered. -/
theorem registerCodec_stops {leave : Leave}
    (stopped : ¬(params.encode = .ok () ∧ handle.Registers)) (checks : params.encode ≠ .panic) :
    ∃ error after, registerCodec params handle = (.err error, after) ∧ handle.Unchanged after ∧
      Reached leave handle after := by
  cases encoded : params.encode with
  | panic => exact absurd encoded checks
  | err error =>
      have failed : (lift params.encode : Engine Unit) handle = (.err error, handle) := by
        rw [lift_apply, encoded]
      exact ⟨error, handle, bind_of_err failed, .refl handle, .refl⟩
  | ok value =>
      have passed : (lift params.encode : Engine Unit) handle = (.ok value, handle) := by
        rw [lift_apply, encoded]
      rw [registerCodec, bind_of_ok passed]
      cases segmentTaken : takeU64 "segment" handle.idAllocator.nextSegmentId with
      | panic => exact absurd segmentTaken (takeU64_ne_panic _ _)
      | err error =>
          have failed := @allocate_err handle _ (takeU64 "segment") IdAllocator.nextSegmentId
            (fun next ids => { ids with nextSegmentId := next }) _ segmentTaken
          exact ⟨error, handle, bind_of_err failed, .refl handle, .refl⟩
      | ok pair =>
          obtain ⟨segmentId, nextSegment⟩ := pair
          have first := @allocate_ok handle _ (takeU64 "segment") IdAllocator.nextSegmentId
            (fun next ids => { ids with nextSegmentId := next }) _ _ segmentTaken
          have firstReached : Reached leave handle { handle with
              idAllocator := { handle.idAllocator with nextSegmentId := nextSegment } } :=
            .single (.allocated (tookSegment segmentTaken))
          rw [allocateSegmentId, bind_of_ok first]
          cases codecTaken : takeU32 "codec" handle.idAllocator.nextCodecId with
          | panic => exact absurd codecTaken (takeU32_ne_panic _ _)
          | err error =>
              have failed := @allocate_err
                { handle with idAllocator := { handle.idAllocator with nextSegmentId := nextSegment } }
                _ (takeU32 "codec") IdAllocator.nextCodecId
                (fun next ids => { ids with nextCodecId := next }) _ codecTaken
              exact ⟨error, _, bind_of_err failed, ⟨rfl, rfl, rfl, rfl⟩, firstReached⟩
          | ok pair =>
              obtain ⟨codecId, nextCodec⟩ := pair
              have second := @allocate_ok
                { handle with idAllocator := { handle.idAllocator with nextSegmentId := nextSegment } }
                _ (takeU32 "codec") IdAllocator.nextCodecId
                (fun next ids => { ids with nextCodecId := next }) _ _ codecTaken
              have secondReached := firstReached.tail (.allocated (tookCodec codecTaken))
              rw [allocateCodecId, bind_of_ok second]
              by_cases appends : handle.faults .appendCodecParams = false
              · have appended := @appendSegmentAtEnd_appends { handle with
                  idAllocator := { handle.idAllocator with
                    nextSegmentId := nextSegment, nextCodecId := nextCodec } }
                  .appendCodecParams appends segmentId (.codecParams params)
                rw [bind_of_ok appended]
                have syncs : handle.faults .syncCodecParams ≠ false := by
                  intro syncs
                  refine stopped ⟨encoded, ?_, ?_, appends, syncs⟩
                  · rw [segmentTaken]
                    rfl
                  · rw [codecTaken]
                    rfl
                exact ⟨.io, _, bind_of_err (fallible_stops (by exact syncs)), ⟨rfl, rfl, rfl, rfl⟩,
                  secondReached.tail (.appended _)⟩
              · have failed : appendSegmentAtEnd .appendCodecParams segmentId (.codecParams params)
                    { handle with idAllocator := { handle.idAllocator with
                      nextSegmentId := nextSegment, nextCodecId := nextCodec } } = (.err .io, _) :=
                  bind_of_err (fallible_stops (by exact appends))
                exact ⟨.io, _, bind_of_err failed, ⟨rfl, rfl, rfl, rfl⟩, secondReached⟩

end Registration

/-! ### The two checks of the parameters -/

namespace CodecParams

theorem checkSigmas_ne_panic {context : String} {message : Nat → F32 → String} {place : Nat}
    {sigmas : List F32} : checkSigmas context message place sigmas ≠ .panic := by
  induction sigmas generalizing place with
  | nil => exact nofun
  | cons sigma sigmas ih => exact Outcome.bind_ne_panic Outcome.ensure_ne_panic fun _ => ih

theorem checkRadii_ne_panic {place : Nat} {prev : F32} {radii : List F32} :
    UpqParams.checkRadii place prev radii ≠ .panic := by
  induction radii generalizing place prev with
  | nil => exact nofun
  | cons radius radii ih =>
      exact Outcome.bind_ne_panic Outcome.ensure_ne_panic fun _ =>
        Outcome.bind_ne_panic Outcome.ensure_ne_panic fun _ => ih

theorem checkPhases_ne_panic {cells : UInt32} {place : Nat} {phases : List UInt32} :
    UpqParams.checkPhases cells place phases ≠ .panic := by
  induction phases generalizing place with
  | nil => exact nofun
  | cons count phases ih => exact Outcome.bind_ne_panic Outcome.ensure_ne_panic fun _ => ih

theorem encode_ne_panic (params : CodecParams) : params.encode ≠ .panic := by
  cases params with
  | qamLloydMax params =>
      unfold encode QamLloydMaxParams.validate
      repeat refine Outcome.bind_ne_panic Outcome.ensure_ne_panic fun _ => ?_
      exact checkSigmas_ne_panic
  | upq params =>
      unfold encode UpqParams.validate
      repeat refine Outcome.bind_ne_panic Outcome.ensure_ne_panic fun _ => ?_
      refine Outcome.bind_ne_panic checkRadii_ne_panic fun _ => ?_
      refine Outcome.bind_ne_panic checkPhases_ne_panic fun _ => ?_
      refine Outcome.bind_ne_panic Outcome.ensure_ne_panic fun _ => ?_
      refine Outcome.bind_ne_panic Outcome.ensure_ne_panic fun _ => ?_
      exact Outcome.bind_ne_panic checkSigmas_ne_panic fun _ => Outcome.ensure_ne_panic

theorem instantiate_ne_panic (params : CodecParams) : params.instantiate ≠ .panic := by
  cases params with
  | qamLloydMax params =>
      unfold instantiate QamLloydMaxParams.fromParams
      repeat refine Outcome.bind_ne_panic Outcome.ensure_ne_panic fun _ => ?_
      exact checkSigmas_ne_panic
  | upq params =>
      refine Outcome.bind_ne_panic (encode_ne_panic (.upq params)) fun _ => ?_
      unfold UpqParams.validateDims
      repeat refine Outcome.bind_ne_panic Outcome.ensure_ne_panic fun _ => ?_
      exact Outcome.ensure_ne_panic

/-- UPQ parameters with no more cells than the live codec packs. -/
def Packs (params : CodecParams) : Prop :=
  ∀ rings, params = .upq rings → rings.cells.toNat ≤ UpqParams.wireMaxCells

end CodecParams

/-! ### A codec that was entered stays -/

/-- The row of the codec leads to these parameters. -/
def ValiseFile.Loads (handle : ValiseFile) (codecId : CodecId) (params : CodecParams) : Prop :=
  ∃ row, find (CatalogTableKind.rowId .codec) codecId.toNat (handle.tables .codec) = some row ∧
    loadCodec handle.file row = .ok params

variable {leave : Leave} {handle after : ValiseFile}

theorem ValiseFile.Loads.grown {codecId : CodecId} {params : CodecParams}
    (loads : handle.Loads codecId params) (table : after.tables .codec = handle.tables .codec)
    (file : ∃ later, after.file = handle.file ++ later) : after.Loads codecId params := by
  obtain ⟨row, found, loaded⟩ := loads
  obtain ⟨later, grown⟩ := file
  exact ⟨row, table ▸ found, grown ▸ loadCodec_append later loaded⟩

theorem Change.loads (sound : handle.Sound) (change : Change leave handle after)
    {codecId : CodecId} {params : CodecParams} (loads : handle.Loads codecId params) :
    after.Loads codecId params := by
  have same : ∃ later, handle.file = handle.file ++ later := ⟨[], (List.append_nil _).symm⟩
  cases change with
  | appended segment => exact loads.grown rfl ⟨_, rfl⟩
  | segmentStored | batchFlushed => exact loads.grown rfl ⟨_, rfl⟩
  | rowEntered plain =>
      rename_i ids kind row took
      have other : CatalogTableKind.codec ≠ kind := by
        rintro rfl
        exact plain
      exact loads.grown (Function.update_of_ne other _ _) same
  | codecEntered segmentTook took encoded instantiated =>
      rename_i segmentIds ids segmentId entered other
      obtain ⟨row, found, loaded⟩ := loads
      refine ⟨row, ?_, loadCodec_append _ loaded⟩
      obtain ⟨member, named⟩ := find_some _ found
      have below := (sound.stored.ids .codec (by decide) row member).2
      have next : handle.idAllocator.counter .codec = entered.toNat := by
        rw [← segmentTook.others .codec (by decide), took.was]
      have apart : entered.toNat ≠ codecId.toNat := by omega
      let newRow : CodecDesc :=
        ⟨entered, other.family, other.wireVersion, ⟨segmentId, handle.file.length⟩⟩
      have other : CatalogTableKind.rowId .codec newRow ≠ codecId.toNat := apart
      exact (find_upsert_other (CatalogTableKind.rowId .codec) other _).trans found
  | frameEntered payload uri => cases uri <;> exact loads.grown rfl same
  | textSpaceEntered | frameTombstoned | payloadsPlaced | vectorEntered | vectorTombstoned
  | allocated | codecCached | buffersCleared | textIndexed | batchOpened | vectorsDrained
  | vectorsDropped | batchDropped | textFlushed | cached | headerWritten | published =>
      exact loads.grown rfl same

theorem Reached.loads (sound : handle.Sound) (reached : Reached leave handle after)
    {codecId : CodecId} {params : CodecParams} (loads : handle.Loads codecId params) :
    after.Loads codecId params := by
  have both : after.Sound ∧ after.Loads codecId params := by
    induction reached with
    | refl => exact ⟨sound, loads⟩
    | tail _ change ih => exact ⟨Reached.sound (.single change) ih.1, change.loads ih.1 ih.2⟩
  exact both.2

/-! ### What the open rebuilds -/

/-- Codecs of one id load the same parameters, and one is listed or in the cache already. -/
theorem buildCodecCache_valueAt {file : StoredFile} {codecs : List CodecDesc} {codecId : CodecId}
    {params : CodecParams} {cache final : List (CodecId × CodecParams)}
    (built : buildCodecCache file codecs cache = .ok final)
    (agree : ∀ codec ∈ codecs, codec.codecId = codecId → loadCodec file codec = .ok params)
    (listed : (∃ codec ∈ codecs, codec.codecId = codecId) ∨
      valueAt UInt32.toNat codecId cache = some params) :
    valueAt UInt32.toNat codecId final = some params := by
  induction codecs generalizing cache with
  | nil =>
      obtain rfl := Outcome.ok.inj built
      exact listed.resolve_left nofun
  | cons codec codecs ih =>
      simp only [buildCodecCache, Outcome.bind_eq_ok] at built
      obtain ⟨found, loaded, rest⟩ := built
      refine ih rest (fun other member => agree other (List.mem_cons_of_mem _ member)) ?_
      rw [valueAt_store UInt32.toNat (fun _ _ => UInt32.toNat_inj.mp)]
      by_cases named : codec.codecId = codecId
      · have same := agree codec List.mem_cons_self named
        rw [loaded] at same
        rw [if_pos named]
        exact .inr (congrArg some (Outcome.ok.inj same))
      · rw [if_neg named]
        refine listed.imp_left ?_
        rintro ⟨other, member, same⟩
        rcases List.mem_cons.mp member with rfl | later
        · exact absurd same named
        · exact ⟨other, later, same⟩

/-- The codec is rebuilt with these parameters by an open of the file. -/
def ValiseFile.Rebuilds (handle : ValiseFile) (codecId : CodecId) (params : CodecParams) : Prop :=
  ∃ state, handle.opened = .ok state ∧ valueAt UInt32.toNat codecId state.codecCache = some params

theorem Stored.rebuilds (stored : Stored handle) (clean : Clean handle) {codecId : CodecId}
    {params : CodecParams} (loads : handle.Loads codecId params) :
    handle.Rebuilds codecId params := by
  obtain ⟨state, opened, tables, -⟩ := stored.opens clean
  refine ⟨state, opened, ?_⟩
  have read := opened
  simp only [ValiseFile.opened, loadOpenState, Outcome.bind_eq_ok, Outcome.pure_eq,
    Outcome.ok.injEq] at read
  obtain ⟨found, -, ids, -, codecs, built, analyzers, -, states, -, filters, -, index, -, rfl⟩ := read
  obtain rfl : found = handle.tables := tables
  obtain ⟨row, there, loaded⟩ := loads
  obtain ⟨deltas, -, -, tracks⟩ := stored.rooted.chained .codec
  obtain ⟨member, named⟩ := find_some _ there
  have sameId : row.codecId = codecId := UInt32.toNat_inj.mp named
  refine buildCodecCache_valueAt built ?_ (.inl ⟨row, member, sameId⟩)
  intro codec otherMember otherNamed
  have found : find (CatalogTableKind.rowId .codec) codecId.toNat (handle.tables .codec) =
      some codec := by
    rw [← otherNamed]
    exact find_of_mem _ tracks.ascending otherMember
  rw [found] at there
  rwa [Option.some.inj there]

/-! ### Runs -/

/-- Parameters that get as far as the row make a live codec. -/
def Operation.CodecPacks (handle : ValiseFile) : Operation → Prop
  | .registerCodec params => params.encode = .ok () → handle.Registers → params.Packs
  | _ => True

/-- Calls in any order, whatever goes wrong in them, and opens of the file. -/
inductive HandleStep (analyze : Analyze) (allowed : ValiseFile → Operation → Prop) :
    ValiseFile → ValiseFile → Prop where
  | called {handle : ValiseFile} (faults : IoPoint → Bool) {operation : Operation} :
      allowed (handle.withFaults faults) operation →
      HandleStep analyze allowed handle (operation.run analyze (handle.withFaults faults))
  | reopened {handle : ValiseFile} {state : OpenState} : handle.opened = .ok state →
      HandleStep analyze allowed handle (handle.reopen state)

/-- The handle is sound, and so is what an open makes of its file. -/
structure ValiseFile.Durable (handle : ValiseFile) : Prop where
  sound : handle.Sound
  published : ∃ tables, Published handle tables

theorem fresh_durable (fresh : Fresh handle) : handle.Durable :=
  ⟨fresh_sound fresh, handle.tables, fresh_published fresh⟩

theorem ValiseFile.Durable.withFaults (durable : handle.Durable) (faults : IoPoint → Bool) :
    (handle.withFaults faults).Durable := by
  obtain ⟨tables, published⟩ := durable.published
  exact ⟨durable.sound.withFaults faults, tables, published.rooted, published.ids,
    published.registered, published.loads, published.texts⟩

theorem ValiseFile.Durable.change (durable : handle.Durable) (change : Change leave handle after) :
    after.Durable := by
  have sound := durable.sound.change change
  refine ⟨sound, ?_⟩
  rcases change.publishes durable.sound with ⟨body, -, -, roots, rfl⟩ | ⟨header, file, texts⟩
  · have rooted : ({ handle with published := body } : ValiseFile).RootsAll body :=
      ⟨roots.rooted, roots.ids, roots.texts⟩
    exact ⟨handle.tables, sound.published rooted rfl⟩
  · obtain ⟨tables, published⟩ := durable.published
    exact ⟨tables, published.grow header file texts⟩

theorem ValiseFile.Durable.reached (durable : handle.Durable) (reached : Reached leave handle after) :
    after.Durable := by
  induction reached with
  | refl => exact durable
  | tail _ change ih => exact ih.change change

theorem ValiseFile.Durable.reopen {state : OpenState} (durable : handle.Durable)
    (opened : handle.opened = .ok state) : (handle.reopen state).Durable := by
  obtain ⟨tables, published⟩ := durable.published
  obtain ⟨rfl, -⟩ := published.reopened opened
  exact ⟨published.reopenSound opened, state.tables, published.reopen opened⟩

theorem Operation.packingChanges (analyze : Analyze) (sound : handle.Sound) {operation : Operation}
    (packs : operation.CodecPacks handle) : Reached .any handle (operation.run analyze handle) := by
  by_cases entered : ∃ params, operation = .registerCodec params ∧
      ¬(params.encode = .ok () ∧ handle.Registers)
  · obtain ⟨params, rfl, stopped⟩ := entered
    obtain ⟨error, after, ran, -, reached⟩ :=
      @registerCodec_stops handle params .any stopped params.encode_ne_panic
    have final : Operation.run analyze handle (.registerCodec params) = after :=
      congrArg Prod.snd ran
    rwa [final]
  · refine operation.changes analyze sound ?_
    cases operation with
    | registerCodec params =>
        intro encoded
        have registers : handle.Registers := by
          by_contra not
          exact entered ⟨params, rfl, fun both => not both.2⟩
        exact (CodecParams.instantiate_iff encoded).mpr (packs encoded registers)
    | createCollectionAt | registerAnalyzer | registerFieldSchema | registerRetrievalProfile
    | registerFusionProfile | registerEmbeddingSpace | registerTextSpace | putFrame | deleteFrame
    | indexFrameText | putVector | deleteVector | commit => trivial

theorem reachable_durable {analyze : Analyze}
    (reached : Runs.Reachable Fresh (HandleStep analyze fun handle operation =>
      operation.CodecPacks handle) handle) : handle.Durable := by
  refine reached.invariant (fun _ => fresh_durable) ?_
  intro before after durable step
  cases step with
  | called faults packs =>
      have started := durable.withFaults faults
      exact started.reached (Operation.packingChanges analyze started.sound packs)
  | reopened opened => exact durable.reopen opened

/-- A registration that returns is rebuilt after a commit, and one that fails leaves the handle as
it was, with a file that still opens after a commit. -/
structure RegistersWhole (handle : ValiseFile) (params : CodecParams) : Prop where
  returns : (registerCodec params handle).1 ≠ .panic
  accepted : ∀ codecId after, registerCodec params handle = (.ok codecId, after) →
    ∀ faults changed committed, (after.withFaults faults).commit = (.ok changed, committed) →
      committed.Rebuilds codecId params
  rejected : ∀ error after, registerCodec params handle = (.err error, after) →
    handle.Unchanged after ∧
      ∀ faults changed committed, (after.withFaults faults).commit = (.ok changed, committed) →
        committed.ReopensSame

theorem committed_clean (sound : handle.Sound) {faults : IoPoint → Bool} {changed : Bool}
    {committed : ValiseFile}
    (commits : (handle.withFaults faults).commit = (.ok changed, committed)) :
    Reached .any (handle.withFaults faults) committed ∧ Stored committed ∧ Clean committed := by
  obtain ⟨later, clean⟩ :=
    (@commit_commits .any _ (sound.withFaults faults) (.inl rfl)).ok rfl commits
  have after := later.sound (sound.withFaults faults)
  exact ⟨later, after.stored, after.clean clean⟩

theorem withCodec_row (ids : IdAllocator) (segmentId : SegmentId) (codecId : CodecId)
    (params : CodecParams) : find (CatalogTableKind.rowId .codec) codecId.toNat
      ((handle.withCodec ids segmentId codecId params).tables .codec) = some
        ⟨codecId, params.family, params.wireVersion, ⟨segmentId, handle.file.length⟩⟩ := by
  have found := find_upsert_self (CatalogTableKind.rowId .codec)
    ⟨codecId, params.family, params.wireVersion, ⟨segmentId, handle.file.length⟩⟩
    (handle.tables .codec)
  exact found

theorem withCodec_loads {ids : IdAllocator} {segmentId : SegmentId} {codecId : CodecId}
    {params : CodecParams} (encoded : params.encode = .ok ())
    (instantiated : params.instantiate = .ok ()) :
    (handle.withCodec ids segmentId codecId params).Loads codecId params := by
  refine ⟨_, withCodec_row ids segmentId codecId params, ?_⟩
  have read := readSegment_last handle.file segmentId (.codecParams params)
  change loadCodec (handle.file ++ [⟨segmentId, .codecParams params⟩]) _ = _
  rw [loadCodec, read]
  simp only [encoded, and_self, if_true, instantiated, Outcome.ok_bind, Outcome.pure_eq]

/-- In runs whose registrations all meet the condition, the next one is whole just where it meets
the condition too. -/
theorem registersWhole_iff {analyze : Analyze}
    (reached : Runs.Reachable Fresh (HandleStep analyze fun handle operation =>
      operation.CodecPacks handle) handle) (faults : IoPoint → Bool)
    (params : CodecParams) :
    RegistersWhole (handle.withFaults faults) params ↔
      (params.encode = .ok () → (handle.withFaults faults).Registers → params.Packs) := by
  have sound := (reachable_durable reached).sound.withFaults faults
  generalize handle.withFaults faults = handle at sound
  by_cases enters : params.encode = .ok () ∧ handle.Registers
  · obtain ⟨encoded, registers⟩ := enters
    obtain ⟨ids, segmentId, codecId, ⟨segmentIds, segmentTook, codecTook⟩, ran⟩ :=
      registerCodec_enters encoded registers
    have decides : (params.encode = .ok () → handle.Registers → params.Packs) ↔
        params.instantiate = .ok () := by
      rw [CodecParams.instantiate_iff encoded]
      exact ⟨fun packs => packs encoded registers, fun packs _ _ => packs⟩
    rw [decides]
    cases instantiated : params.instantiate with
    | panic => exact absurd instantiated params.instantiate_ne_panic
    | ok live =>
        refine iff_of_true ?_ rfl
        have built : (lift params.instantiate : Engine Unit)
            (handle.withCodec ids segmentId codecId params) =
              (.ok live, handle.withCodec ids segmentId codecId params) := by
          rw [lift_apply, instantiated]
        rw [bind_of_ok built] at ran
        have entered : Reached .any handle (handle.withCodec ids segmentId codecId params) :=
          .single (.codecEntered segmentTook codecTook encoded instantiated)
        have cached := entered.tail (.codecCached codecId params)
        have loads : ValiseFile.Loads { handle.withCodec ids segmentId codecId params with
            codecCache := store UInt32.toNat codecId params handle.codecCache } codecId params :=
          (withCodec_loads encoded instantiated).grown rfl ⟨[], (List.append_nil _).symm⟩
        have done : registerCodec params handle = (.ok codecId,
            { handle.withCodec ids segmentId codecId params with
              codecCache := store UInt32.toNat codecId params handle.codecCache }) := ran
        refine ⟨?_, ?_, ?_⟩
        · rw [done]
          exact nofun
        · intro other after returned faults changed committed commits
          rw [done, Prod.mk.injEq, Outcome.ok.injEq] at returned
          obtain ⟨rfl, rfl⟩ := returned
          have soundAfter := Reached.sound cached sound
          obtain ⟨later, stored, clean⟩ := committed_clean soundAfter commits
          exact stored.rebuilds clean (later.loads (soundAfter.withFaults faults) loads)
        · intro error after refused
          rw [done] at refused
          exact nomatch refused
    | err error =>
        refine iff_of_false ?_ nofun
        intro whole
        have failed : (lift params.instantiate : Engine Unit)
            (handle.withCodec ids segmentId codecId params) =
              (.err error, handle.withCodec ids segmentId codecId params) := by
          rw [lift_apply, instantiated]
        rw [bind_of_err failed] at ran
        have same := (whole.rejected error _ ran).1.tables
        have row := @withCodec_row handle ids segmentId codecId params
        rw [same] at row
        obtain ⟨member, -⟩ := find_some _ row
        have below := (sound.stored.ids .codec (by decide) _ member).2
        have next : handle.idAllocator.counter .codec = codecId.toNat := by
          rw [← segmentTook.others .codec (by decide), codecTook.was]
        rw [next] at below
        exact absurd below (lt_irrefl _)
  · obtain ⟨error, after, ran, unchanged, later⟩ :=
      @registerCodec_stops handle params .any enters params.encode_ne_panic
    refine iff_of_true ⟨?_, ?_, ?_⟩ fun encoded registers => absurd ⟨encoded, registers⟩ enters
    · rw [ran]
      exact nofun
    · intro codecId final returned
      rw [ran] at returned
      exact nomatch returned
    · intro other final refused
      rw [ran, Prod.mk.injEq] at refused
      obtain ⟨-, rfl⟩ := refused
      refine ⟨unchanged, fun faults changed committed commits => ?_⟩
      obtain ⟨-, stored, clean⟩ := committed_clean (later.sound sound) commits
      exact stored.opens clean

/-! ### Runs on fixed calls -/

def twoRings : CodecParams := .upq {
  dimension := 2
  numPairs := 1
  blockSize := 2
  rotationSeed := 7
  cells := 8
  designSource := .rayleigh
  renormalizeAtDecode := false
  ringRadii := [0x3f800000, 0x40000000]
  ringPhases := [4, 4]
  sigmaPerPair := [0x3f800000]
  calibrationId := ⟨List.replicate 32 1, ones_length⟩ }

theorem twoRings_registersWhole :
    RegistersWhole (({} : ValiseFile).withFaults noFaults) twoRings := by
  refine (@registersWhole_iff {} noTokens (.start ⟨{}, rfl⟩) noFaults twoRings).mpr ?_
  rintro - - rings same
  obtain rfl := CodecParams.upq.inj same
  decide

/-- The registration of wide cells fails, and its row stays in the catalog. -/
theorem wideCells_stays : ¬RegistersWhole (({} : ValiseFile).withFaults noFaults) wideCells := by
  intro whole
  have failed : ∃ error, (registerCodec wideCells (({} : ValiseFile).withFaults noFaults)).1 =
      .err error := by
    have refused : (registerCodec wideCells (({} : ValiseFile).withFaults noFaults)).1.isOk = false := by
      decide +kernel
    cases result : (registerCodec wideCells (({} : ValiseFile).withFaults noFaults)).1 with
    | ok codecId =>
        rw [result] at refused
        exact nomatch refused
    | err error => exact ⟨error, rfl⟩
    | panic => exact absurd result whole.returns
  obtain ⟨error, refused⟩ := failed
  have same := (whole.rejected error _ (Prod.ext refused rfl)).1.tables
  have rows := congrArg (fun tables => (tables CatalogTableKind.codec).length) same
  revert rows
  decide +kernel

end Valise
