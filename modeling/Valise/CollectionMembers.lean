import Valise.IndexMirrors

/-!
Membership of collections: every call keeps the mirrored filters and time index, a commit catches
up with all that is dirty, and an open finds what the last commit wrote.
-/

namespace Valise

open ByteLists Chains Commands Command DeltaTables Groups Outcomes SortedTables

instance (kind : CatalogTableKind) : Decidable (HasIndex kind) :=
  inferInstanceAs (Decidable (_ ∨ _))

variable {handle : ValiseFile}

theorem ValiseFile.Sound.ascends (sound : handle.Sound) (kind : CatalogTableKind) :
    Ascending kind.rowId (handle.tables kind) := by
  obtain ⟨deltas, held, fit, tracks⟩ := sound.stored.rooted.chained kind
  exact tracks.ascending

theorem ValiseFile.Sound.datesAscend (sound : handle.Sound) :
    Ascending DatedFrame.id handle.dates := by
  have keeps : ∀ frame : FrameDesc, frame.dated.id = CatalogTableKind.rowId .frame frame :=
    fun _ => rfl
  exact (ascending_map _ keeps).mpr (sound.ascends .frame)

theorem find_dates (handle : ValiseFile) (id : Nat) : find DatedFrame.id id handle.dates =
    (find (CatalogTableKind.rowId .frame) id (handle.tables .frame)).map FrameDesc.dated := by
  have keeps : ∀ frame : FrameDesc, frame.dated.id = CatalogTableKind.rowId .frame frame :=
    fun _ => rfl
  exact find_map _ keeps id _

/-! ### Puts and deletions -/

theorem putFrame_mirrored (sound : handle.Sound) (mirrored : Mirrored handle) (input : PutFrame)
    (now : Int64) : Mirrored (putFrame input now handle).2 := by
  have kept : Meets (fun other => other = handle) (putFrame input now) (fun _ => Mirrored)
      Mirrored := by
    refine meets_get_bind fun read same => ?_
    subst same
    have here : ∀ other, other = read → Mirrored other := by
      rintro _ rfl
      exact mirrored
    refine meets_bind (meets_check here) fun _ => meets_bind (meets_fallible here) fun _ => ?_
    refine meets_bind ((allocateFrameId_takes _).weaken (fun _ same => same)
      (fun _ _ taken => taken) ?_) fun frameId => ?_
    · exact here
    refine meets_modify_bind (meets_modify_bind ?_)
    refine Meets.weaken (?_ : Meets Mirrored _ _ Mirrored) ?_ (fun _ _ holds => holds)
      fun _ holds => holds
    · exact meets_bind mirrored_overlooks.keeps_markDirtyFlag.meets fun _ =>
        meets_bind (mirrored_overlooks.keeps_flushFullPayloads (by decide)).meets fun _ =>
        meets_pure _ fun _ holds => holds
    · rintro _ ⟨_, ⟨_, ⟨earlier, ids, rfl, took, rfl⟩, rfl⟩, rfl⟩
      have buffered : ∀ other : ValiseFile, other.dates = earlier.dates → Mirrored other →
          Mirrored (other.upsertFrame (input.frame frameId now)) := by
        intro other dates holds
        refine holds.moves (moves_upsertFrame other ?_ ?_)
        · rw [dates]
          exact sound.datesAscend
        · intro old found
          rw [dates, find_dates] at found
          have fresh := sound.fresh took
          rw [show DatedFrame.id (input.frame frameId now).dated = frameId.toNat from rfl,
            fresh] at found
          exact nomatch found
      refine buffered _ ?_ (mirrored.moves ?_)
      · cases input.uri <;> rfl
      · cases input.uri <;>
          exact ⟨fun _ clean => ⟨clean, rfl⟩, fun clean => ⟨clean, rfl⟩,
            ⟨[], (List.append_nil _).symm⟩, rfl, rfl, rfl, rfl⟩
  exact kept.final rfl

theorem deleteFrame_mirrored (sound : handle.Sound) (mirrored : Mirrored handle)
    (frameId : FrameId) (now : Int64) : Mirrored (deleteFrame frameId now handle).2 := by
  have kept : Meets (fun other => other = handle) (deleteFrame frameId now) (fun _ => Mirrored)
      Mirrored := by
    refine meets_get_bind fun read same => ?_
    subst same
    have here : ∀ other, other = read → Mirrored other := by
      rintro _ rfl
      exact mirrored
    split
    · exact meets_lift (fun _ _ ok => nomatch ok) here
    · rename_i frame found
      refine meets_bind (meets_check here) fun _ => meets_bind (meets_fallible here) fun _ =>
        meets_modify_bind ?_
      refine mirrored_overlooks.keeps_markDirtyFlag.meets.weaken ?_ (fun _ _ holds => holds)
        fun _ holds => holds
      rintro _ ⟨earlier, rfl, rfl⟩
      refine mirrored.moves (moves_upsertFrame _ sound.datesAscend ?_)
      have named : frame.frameId.toNat = frameId.toNat := (find_some _ found).2
      have held : find DatedFrame.id frame.frameId.toNat earlier.dates = some frame.dated := by
        rw [find_dates, named]
        exact congrArg (Option.map FrameDesc.dated) found
      intro old there
      obtain rfl := Option.some.inj (held.symm.trans there)
      rfl
  exact kept.final rfl

theorem deleteVector_mirrored (sound : handle.Sound) (mirrored : Mirrored handle)
    (vectorId : VectorId) : Mirrored (deleteVector vectorId handle).2 := by
  have kept : Meets (fun other => other = handle) (deleteVector vectorId) (fun _ => Mirrored)
      Mirrored := by
    refine meets_get_bind fun read same => ?_
    subst same
    have here : ∀ other, other = read → Mirrored other := by
      rintro _ rfl
      exact mirrored
    refine meets_bind (meets_check here) fun _ => ?_
    split
    · exact meets_lift (fun _ _ ok => nomatch ok) here
    · rename_i desc found
      refine meets_bind (meets_check here) fun _ => meets_modify_bind ?_
      refine mirrored_overlooks.keeps_markDirtyFlag.meets.weaken ?_ (fun _ _ holds => holds)
        fun _ holds => holds
      rintro _ ⟨_, rfl, rfl⟩
      refine mirrored.moves (moves_upsertVector _ (sound.ascends .vector) ?_)
      intro old there
      have named : CatalogTableKind.rowId .vector desc = vectorId.toNat := (find_some _ found).2
      rw [← named] at found
      obtain rfl := Option.some.inj (found.symm.trans there)
      rfl
  exact kept.final rfl

/-- No vector was entered since. -/
def BeforeVector (start handle : ValiseFile) : Prop :=
  Mirrored handle ∧ handle.tables .vector = start.tables .vector ∧
    handle.idAllocator.counter .vector = start.idAllocator.counter .vector

theorem beforeVector_overlooks {start : ValiseFile} :
    Overlooks HasIndex (BeforeVector start) := by
  intro before after same ⟨mirrored, rows, count⟩
  exact ⟨mirrored_overlooks before after same mirrored,
    (same.rows .vector nofun (.inr rfl)).trans rows, (same.counters .vector (.inr rfl)).trans count⟩

theorem putVector_mirrored (sound : handle.Sound) (mirrored : Mirrored handle)
    (input : PutVector) : Mirrored (putVector input handle).2 := by
  have kept : Meets (fun other => other = handle) (putVector input) (fun _ => Mirrored)
      Mirrored := by
    refine meets_get_bind fun read same => ?_
    subst same
    have here : ∀ other, other = read → Mirrored other := by
      rintro _ rfl
      exact mirrored
    split
    · exact meets_lift (fun _ _ ok => nomatch ok) here
    refine meets_bind (meets_check here) fun _ => ?_
    split
    · exact meets_lift (fun _ _ ok => nomatch ok) here
    refine meets_bind (meets_check here) fun _ => meets_bind (meets_check here) fun _ => ?_
    split
    · exact meets_lift (fun _ _ ok => nomatch ok) here
    rename_i codecId _
    refine meets_bind (meets_check here) fun _ => ?_
    have opens := @beforeVector_overlooks read |>.keeps_openBatch (by decide)
      (input.embeddingSpaceId, codecId)
    refine meets_bind (opens.meets.weaken ?_ (fun _ _ holds => holds) fun _ holds => holds.1)
      fun _ => ?_
    · rintro _ rfl
      exact ⟨mirrored, rfl, rfl⟩
    refine meets_bind ((allocateVectorId_takes _).weaken (fun _ same => same)
      (fun _ _ taken => taken) fun _ holds => holds.1) fun vectorId => ?_
    refine meets_get_bind fun taken held => ?_
    obtain ⟨earlier, ids, ⟨holds, rows, count⟩, took, rfl⟩ := held
    have mirroredTaken : Mirrored { earlier with idAllocator := ids } :=
      holds.moves ⟨fun _ clean => ⟨clean, rfl⟩, fun clean => ⟨clean, rfl⟩,
        ⟨[], (List.append_nil _).symm⟩, rfl, rfl, rfl, rfl⟩
    split
    · refine meets_lift (fun _ _ ok => nomatch ok) ?_
      rintro _ rfl
      exact mirroredTaken
    refine meets_modify_bind (meets_modify_bind ?_)
    refine Meets.weaken (?_ : Meets Mirrored _ _ Mirrored) ?_ (fun _ _ holds => holds)
      fun _ holds => holds
    · exact meets_bind mirrored_overlooks.keeps_markDirtyFlag.meets fun _ =>
        meets_bind (mirrored_overlooks.keeps_drainFullVectorChunks _).meets fun _ =>
        meets_pure _ fun _ holds => holds
    · rintro _ ⟨_, ⟨_, rfl, rfl⟩, rfl⟩
      refine Mirrored.moves (mirrored_overlooks _ _ (.of_seen (by rfl)) mirroredTaken)
        (moves_upsertVector _ ?_ ?_)
      · change Ascending (CatalogTableKind.rowId .vector) (earlier.tables .vector)
        rw [rows]
        exact sound.ascends .vector
      · intro old found
        change find (CatalogTableKind.rowId .vector) vectorId.toNat (earlier.tables .vector) =
          some old at found
        rw [rows] at found
        obtain ⟨member, named⟩ := find_some _ found
        have below := (sound.stored.ids .vector (by decide) old member).2
        have next := took.was
        omega
  exact kept.final rfl

/-! ### A commit -/

/-- The filters of the collections that are left are still to be written. -/
structure Filling (rest : List CollectionId) (body : FooterBody) (handle : ValiseFile) : Prop where
  mirrored : Mirrored handle
  cached : ∀ collectionId ∉ rest,
    handle.cachedMembers collectionId = handle.members collectionId
  ordered : RootsAscend body
  filters : ∀ collectionId ∉ rest, StoredMembers handle.file body.collectionFilterRoots
    collectionId (handle.members collectionId)
  timeIndex : handle.dirtyIds .frame = [] →
    StoredIndex handle.file body.timeIndexRoot handle.timeIndexEntries

/-- Caches and footer hold the whole catalog. -/
structure Filled (body : FooterBody) (handle : ValiseFile) : Prop where
  mirrored : Mirrored handle
  cached : ∀ collectionId, handle.cachedMembers collectionId = handle.members collectionId
  indexed : handle.timeIndexCache = handle.timeIndexEntries
  ordered : RootsAscend body
  filters : ∀ collectionId, StoredMembers handle.file body.collectionFilterRoots
    collectionId (handle.members collectionId)
  timeIndex : StoredIndex handle.file body.timeIndexRoot handle.timeIndexEntries

theorem SameSeen.cachedMembers {before after : ValiseFile} (same : SameSeen HasIndex before after)
    (collectionId : CollectionId) :
    after.cachedMembers collectionId = before.cachedMembers collectionId := by
  rw [ValiseFile.cachedMembers, ValiseFile.cachedMembers, same.filters]

theorem SameSeen.timeIndexEntries {before after : ValiseFile}
    (same : SameSeen HasIndex before after) : after.timeIndexEntries = before.timeIndexEntries := by
  rw [ValiseFile.timeIndexEntries_dates, ValiseFile.timeIndexEntries_dates, same.frames (.inl rfl)]

theorem filling_overlooks {rest : List CollectionId} {body : FooterBody} :
    Overlooks HasIndex (Filling rest body) := by
  intro before after same filling
  obtain ⟨later, grown⟩ := same.file
  refine ⟨mirrored_overlooks before after same filling.mirrored, ?_, filling.ordered, ?_, ?_⟩
  · intro collectionId written
    rw [same.cachedMembers, same.members]
    exact filling.cached collectionId written
  · intro collectionId written
    rw [same.members, grown]
    exact (filling.filters collectionId written).append later
  · intro clean
    rw [same.timeIndexEntries, grown]
    exact (filling.timeIndex (same.moves.dated clean).1).append later

theorem filled_overlooks {body : FooterBody} : Overlooks HasIndex (Filled body) := by
  intro before after same filled
  obtain ⟨later, grown⟩ := same.file
  refine ⟨mirrored_overlooks before after same filled.mirrored, ?_, ?_, filled.ordered, ?_, ?_⟩
  · intro collectionId
    rw [same.cachedMembers, same.members]
    exact filled.cached collectionId
  · rw [same.timeIndexEntries, same.timeIndex]
    exact filled.indexed
  · intro collectionId
    rw [same.members, grown]
    exact (filled.filters collectionId).append later
  · rw [same.timeIndexEntries, grown]
    exact filled.timeIndex.append later

theorem Filled.sameIndexes {before after : FooterBody} (filled : Filled before handle)
    (same : SameIndexes before after) : Filled after handle := by
  refine ⟨filled.mirrored, filled.cached, filled.indexed, ?_, ?_, ?_⟩
  · rw [RootsAscend, same.1]
    exact filled.ordered
  · rw [same.1]
    exact filled.filters
  · rw [same.2]
    exact filled.timeIndex

theorem store_injective : Function.Injective UInt32.toNat := fun _ _ => UInt32.toNat_inj.mp

theorem StoredMembers.store {file : StoredFile} {roots : List (CollectionId × SegmentPlace)}
    {collectionId other : CollectionId} {root : SegmentPlace}
    {members : List FrameId × List VectorId}
    (written : collectionId = other → file.readSegment root =
      some (.collectionFilter other members.1 members.2))
    (kept : collectionId ≠ other → StoredMembers file roots other members) :
    StoredMembers file (SortedTables.store UInt32.toNat collectionId root roots) other members := by
  unfold StoredMembers
  rw [valueAt_store UInt32.toNat store_injective]
  by_cases same : collectionId = other
  · rw [if_pos same]
    exact written same
  · rw [if_neg same]
    exact kept same

/-- The filter of one collection is written; the others stay as they are. -/
theorem writeCollectionFilterSegment_fills (collectionId : CollectionId)
    (rest : List CollectionId) (body : FooterBody) :
    Meets (Filling (collectionId :: rest) body) (writeCollectionFilterSegment body collectionId)
      (fun body => Filling rest body) Mirrored := by
  refine meets_get_bind fun read filling => ?_
  have here : ∀ other, other = read → Mirrored other := by
    rintro _ rfl
    exact filling.mirrored
  refine meets_bind (meets_lift (fun _ _ _ same => same) here) fun _ =>
    meets_bind (meets_lift (fun _ _ _ same => same) here) fun _ => ?_
  have overlooks : Overlooks HasIndex fun handle => Filling (collectionId :: rest) body handle ∧
      handle.members collectionId = read.members collectionId := by
    refine filling_overlooks.and fun before after same members => ?_
    rw [same.members, members]
  have appends := overlooks.meets_appendRegisteredSegment (by decide) (.appendFilter collectionId)
    .collectionFilter ((read.members collectionId).1.length + (read.members collectionId).2.length)
    (.collectionFilter collectionId (read.members collectionId).1 (read.members collectionId).2)
  refine meets_bind (appends.weaken ?_ (fun _ _ stored => stored) fun _ held => held.1.mirrored)
    fun root => meets_modify_bind (meets_pure _ ?_)
  · rintro _ rfl
    exact ⟨filling, rfl⟩
  rintro _ ⟨earlier, ⟨⟨filling, same⟩, stored⟩, rfl⟩
  have cached : ∀ other, valueAt UInt32.toNat other (SortedTables.store UInt32.toNat collectionId
      (read.members collectionId) earlier.collectionFilterCache) =
        if collectionId = other then some (read.members collectionId)
        else valueAt UInt32.toNat other earlier.collectionFilterCache :=
    fun other => valueAt_store UInt32.toNat store_injective other collectionId _ _
  have served : ∀ other, (collectionId ≠ other → earlier.cachedMembers other = earlier.members other) →
      (valueAt UInt32.toNat other (SortedTables.store UInt32.toNat collectionId
        (read.members collectionId) earlier.collectionFilterCache)).getD ([], []) =
          earlier.members other := by
    intro other kept
    rw [cached]
    by_cases named : collectionId = other
    · subst named
      rw [if_pos rfl, same]
      rfl
    · rw [if_neg named]
      exact kept named
  have left : ∀ other, other ∉ rest → collectionId ≠ other → other ∉ collectionId :: rest :=
    fun other written apart listed => (List.mem_cons.mp listed).elim (fun eq => apart eq.symm) written
  have mirrored := filling.mirrored
  refine ⟨⟨?_, mirrored.indexed, mirrored.ordered, mirrored.filters, mirrored.timeIndex,
    mirrored.published⟩, ?_, upsert_ascending _ filling.ordered _, ?_, filling.timeIndex⟩
  · exact fun other clean => served other fun _ => mirrored.cached other clean
  · exact fun other written => served other fun apart => filling.cached other (left other written apart)
  · intro other written
    refine StoredMembers.store ?_ fun apart => filling.filters other (left other written apart)
    rintro rfl
    exact stored.trans (by rw [← same]; rfl)

theorem encodeTimeIndexSegment_gives {entries index : List TimeIndexEntry}
    (encoded : encodeTimeIndexSegment entries = .ok index) : index = entries := by
  cases entries with
  | nil =>
      simp only [encodeTimeIndexSegment, Outcome.bind_eq_ok, Outcome.pure_eq, Outcome.ok.injEq]
        at encoded
      obtain ⟨_, _, _, _, rfl⟩ := encoded
      rfl
  | cons first later =>
      simp only [encodeTimeIndexSegment, Outcome.bind_eq_ok, Outcome.pure_eq, Outcome.ok.injEq]
        at encoded
      obtain ⟨_, _, _, _, _, _, _, _, _, _, _, _, _, _, _, _, _, _, rfl⟩ := encoded
      rfl

theorem writeTimeIndexSegment_fills (body : FooterBody) :
    Meets (Filling [] body) (writeTimeIndexSegment body) (fun body => Filled body) Mirrored := by
  refine meets_get_bind fun read filling => ?_
  have here : ∀ other, other = read → Mirrored other := by
    rintro _ rfl
    exact filling.mirrored
  split
  · rename_i clean
    refine meets_pure _ ?_
    rintro _ rfl
    exact ⟨filling.mirrored, fun other => filling.cached other nofun, filling.mirrored.indexed clean,
      filling.ordered, fun other => filling.filters other nofun, filling.timeIndex clean⟩
  · refine meets_lift_bind (fun index encoded => ?_) here
    obtain rfl := encodeTimeIndexSegment_gives encoded
    have overlooks : Overlooks HasIndex fun handle => Filling [] body handle ∧
        handle.timeIndexEntries = read.timeIndexEntries := by
      refine filling_overlooks.and fun before after same entries => ?_
      rw [same.timeIndexEntries, entries]
    have appends := overlooks.meets_appendRegisteredSegment (by decide) .appendTimeIndex .timeIndex
      read.timeIndexEntries.length (.timeIndex read.timeIndexEntries)
    refine meets_bind (appends.weaken ?_ (fun _ _ stored => stored) fun _ held => held.1.mirrored)
      fun root => meets_modify_bind (meets_pure _ ?_)
    · rintro _ rfl
      exact ⟨filling, rfl⟩
    rintro _ ⟨earlier, ⟨⟨filling, same⟩, stored⟩, rfl⟩
    have mirrored := filling.mirrored
    refine ⟨⟨mirrored.cached, fun _ => same.symm, mirrored.ordered, mirrored.filters,
      mirrored.timeIndex, mirrored.published⟩, fun other => filling.cached other nofun, same.symm,
      filling.ordered, fun other => filling.filters other nofun, ?_⟩
    rw [← same] at stored
    exact stored

theorem writeCatalogSegments_fills :
    Meets Mirrored ValiseFile.writeCatalogSegments (fun prepared => Filled prepared.body)
      Mirrored := by
  refine meets_get_bind fun read mirrored => ?_
  have overlooks : Overlooks HasIndex fun handle =>
      Mirrored handle ∧ handle.footer = read.footer :=
    mirrored_overlooks.and fun before after same footer => same.footer.trans footer
  have texts := @Overlooks.meets_flushPendingTextIndexes _ _ overlooks (by decide) read.footer
    { body := read.footer }
  refine meets_bind (texts.weaken ?_ (fun _ _ held => held) fun _ held => held.1) fun prepared => ?_
  · rintro _ rfl
    exact ⟨⟨mirrored, rfl⟩, rfl, rfl⟩
  have tables := meets_foldEach (fun _ body handle => (Mirrored handle ∧ handle.footer = read.footer) ∧
    SameIndexes read.footer body) (fun kind _ body =>
      overlooks.meets_flushCatalogTable (by decide) body kind) CatalogTableKind.flushOrder prepared.body
  refine meets_bind (tables.weaken (fun _ held => held) (fun _ _ held => held) fun _ held => held.1)
    fun body => meets_get_bind fun written held => ?_
  obtain ⟨⟨mirrored, footer⟩, filters, index⟩ := held
  have started : Filling written.dirtyFilterCollections body written := by
    refine ⟨mirrored, mirrored.cached, ?_, ?_, ?_⟩
    · rw [RootsAscend, filters, ← footer]
      exact mirrored.ordered
    · rw [filters, ← footer]
      exact mirrored.filters
    · rw [index, ← footer]
      exact mirrored.timeIndex
  have collections := meets_foldEach (fun rest body handle => Filling rest body handle)
    (fun collectionId rest body => writeCollectionFilterSegment_fills collectionId rest body)
    written.dirtyFilterCollections body
  refine meets_bind (collections.weaken ?_ (fun _ _ held => held) fun _ held => held) fun body => ?_
  · rintro _ rfl
    exact started
  refine meets_bind (writeTimeIndexSegment_fills body) fun body => ?_
  have registry := @Overlooks.meets_flushSegmentRegistry _ _ (@filled_overlooks body) (by decide)
    body body
  refine meets_bind (registry.weaken (fun _ held => ⟨held, rfl, rfl⟩) (fun _ _ held => held)
    fun _ held => held.mirrored) fun registered => meets_get_bind fun final held => meets_pure _ ?_
  rintro _ rfl
  obtain ⟨filled, same⟩ := held
  exact filled.sameIndexes ⟨same.1, same.2⟩

/-- The header names the footer that holds the whole catalog. -/
def Headed (body : FooterBody) (handle : ValiseFile) : Prop :=
  ∃ earlier, Filled body earlier ∧ handle = { earlier with published := body }

theorem commitPhaseWrites_heads :
    Meets Mirrored ValiseFile.commitPhaseWrites (fun prepared => Headed prepared.body) Mirrored := by
  have stopped : ∀ prepared : PreparedCommit, ∀ handle, Filled prepared.body handle → Mirrored handle :=
    fun _ _ filled => filled.mirrored
  refine meets_bind (meets_fallible fun _ holds => holds) fun _ =>
    meets_bind (mirrored_overlooks.keeps_flushPendingPayloads (by decide)).meets fun _ =>
    meets_bind (mirrored_overlooks.keeps_flushPendingVectorBatches (by decide)).meets fun _ =>
    meets_bind writeCatalogSegments_fills fun prepared =>
    meets_bind (meets_fallible (stopped prepared)) fun _ =>
    meets_bind (meets_fallible (stopped prepared)) fun _ =>
    meets_bind (meets_fallible (stopped prepared)) fun _ =>
    meets_bind (meets_fallible (stopped prepared)) fun _ =>
    meets_bind (meets_fallible (stopped prepared)) fun _ => meets_modify_bind (meets_pure _ ?_)
  exact fun _ held => held

/-- What the header names is what an open finds. -/
theorem Headed.stored {body : FooterBody} (headed : Headed body handle)
    (roots : handle.RootsAll body) : StoredMirror handle.file body := by
  obtain ⟨earlier, filled, rfl⟩ := headed
  refine ⟨filled.ordered, earlier.tables .frame, earlier.tables .vector, roots.rooted.chained .frame,
    roots.rooted.chained .vector, ?_, ?_⟩
  · intro collectionId
    have stored := filled.filters collectionId
    rw [ValiseFile.members_eq] at stored
    exact stored
  · have stored := filled.timeIndex
    rw [ValiseFile.timeIndexEntries_dates] at stored
    exact stored

theorem Headed.mirrored {body : FooterBody} (headed : Headed body handle)
    (stored : StoredMirror handle.file body) : Mirrored handle := by
  obtain ⟨earlier, filled, rfl⟩ := headed
  have mirrored := filled.mirrored
  exact ⟨mirrored.cached, mirrored.indexed, mirrored.ordered, mirrored.filters, mirrored.timeIndex,
    stored⟩

/-- Nothing is dirty any more, and nothing has to be. -/
theorem Headed.publish {prepared : PreparedCommit} (headed : Headed prepared.body handle)
    (stored : StoredMirror handle.file prepared.body) : Mirrored (handle.publish prepared) := by
  obtain ⟨earlier, filled, rfl⟩ := headed
  exact ⟨fun other _ => filled.cached other, fun _ => filled.indexed, filled.ordered,
    fun other _ => filled.filters other, fun _ => filled.timeIndex, stored⟩

theorem commitPhasePublish_mirrored (prepared : PreparedCommit) :
    Meets (fun handle => Headed prepared.body handle ∧ StoredMirror handle.file prepared.body)
      (ValiseFile.commitPhasePublish prepared) (fun _ => Mirrored) Mirrored := by
  refine meets_modify_bind ?_
  refine Meets.weaken (?_ : Meets Mirrored _ _ Mirrored) ?_ (fun _ _ holds => holds)
    fun _ holds => holds
  · have rest : Keeps Mirrored (do
        fallible .remap
        let handle ← Command.get
        if prepared.vectorsChanged then
          lift (handle.buildVectorBasePtrs handle.activeVectors)
        else return () : Engine Unit) :=
      keeps_bind (fallible_keeps _) fun _ => keeps_bind keeps_get fun _ =>
        keeps_ite (keeps_lift _) (keeps_pure _)
    exact rest.meets
  · rintro _ ⟨earlier, ⟨headed, stored⟩, rfl⟩
    exact headed.publish stored

theorem commit_mirrored (sound : handle.Sound) (mirrored : Mirrored handle) :
    Mirrored (ValiseFile.commit handle).2 := by
  have kept : Meets (fun other => other = handle) ValiseFile.commit (fun _ => Mirrored) Mirrored := by
    refine meets_get_bind fun read same => ?_
    subst same
    cases dirty : read.dirty with
    | false =>
        refine meets_pure _ ?_
        rintro _ rfl
        exact mirrored
    | true =>
        have writes := (@commitPhaseWrites_writes .any read sound dirty (.inl rfl)).and
          commitPhaseWrites_heads
        refine meets_bind (writes.weaken ?_ ?_ fun _ held => held.2)
          (m := fun prepared handle => Headed prepared.body handle ∧
            StoredMirror handle.file prepared.body) fun prepared => ?_
        · rintro _ rfl
          exact ⟨rfl, mirrored⟩
        · rintro prepared other ⟨written, headed⟩
          exact ⟨headed, headed.stored written.roots⟩
        · refine meets_bind (meets_fallible fun _ held => held.1.mirrored held.2) fun _ => ?_
          exact meets_bind (commitPhasePublish_mirrored prepared) fun _ =>
            meets_pure _ fun _ holds => holds
  exact kept.final rfl

theorem Operation.mirrored (analyze : Analyze) (sound : handle.Sound) (mirrored : Mirrored handle)
    (operation : Operation) : Mirrored (operation.run analyze handle) := by
  have overlooks := mirrored_overlooks
  cases operation with
  | createCollectionAt name createdAt =>
      exact overlooks.keeps_createCollectionAt (by decide) name createdAt _ mirrored
  | registerAnalyzer desc => exact overlooks.keeps_registerAnalyzer (by decide) desc _ mirrored
  | registerFieldSchema desc => exact overlooks.keeps_registerFieldSchema (by decide) desc _ mirrored
  | registerRetrievalProfile desc =>
      exact overlooks.keeps_registerRetrievalProfile (by decide) desc _ mirrored
  | registerFusionProfile desc =>
      exact overlooks.keeps_registerFusionProfile (by decide) desc _ mirrored
  | registerEmbeddingSpace spec =>
      exact overlooks.keeps_registerEmbeddingSpace (by decide) spec _ mirrored
  | registerTextSpace desc => exact overlooks.keeps_registerTextSpace (by decide) desc _ mirrored
  | registerCodec params =>
      exact overlooks.keeps_registerCodec (by decide) (by decide) params _ mirrored
  | putFrame input now => exact putFrame_mirrored sound mirrored input now
  | deleteFrame frameId now => exact deleteFrame_mirrored sound mirrored frameId now
  | indexFrameText frameId textSpaceId =>
      exact overlooks.keeps_indexFrameText analyze frameId textSpaceId _ mirrored
  | putVector input => exact putVector_mirrored sound mirrored input
  | deleteVector vectorId => exact deleteVector_mirrored sound mirrored vectorId
  | commit => exact commit_mirrored sound mirrored

/-! ### An open -/

/-- The filters are loaded root by root. -/
theorem loadCollectionFilterCache_valueAt {file : StoredFile}
    {roots : List (CollectionId × SegmentPlace)} {found : CollectionId → List FrameId × List VectorId}
    {cache final : List (CollectionId × List FrameId × List VectorId)}
    (reads : ∀ entry ∈ roots, file.readSegment entry.2 =
      some (.collectionFilter entry.1 (found entry.1).1 (found entry.1).2))
    (loaded : loadCollectionFilterCache file roots cache = .ok final) (wanted : CollectionId) :
    valueAt UInt32.toNat wanted final =
      if wanted ∈ roots.map Prod.fst then some (found wanted)
      else valueAt UInt32.toNat wanted cache := by
  induction roots generalizing cache with
  | nil =>
      obtain rfl := Outcome.ok.inj loaded
      simp
  | cons entry rest ih =>
      have here := reads entry List.mem_cons_self
      obtain ⟨collectionId, root⟩ := entry
      simp only [loadCollectionFilterCache, here] at loaded
      rw [ih (fun other member => reads other (List.mem_cons_of_mem _ member)) loaded,
        valueAt_store UInt32.toNat store_injective, List.map_cons]
      by_cases later : wanted ∈ rest.map Prod.fst
      · rw [if_pos later, if_pos (List.mem_cons_of_mem _ later)]
      · rw [if_neg later]
        by_cases same : collectionId = wanted
        · subst same
          rw [if_pos rfl, if_pos List.mem_cons_self]
        · rw [if_neg same, if_neg]
          intro listed
          exact (List.mem_cons.mp listed).elim (fun eq => same eq.symm) later

theorem StoredMembers.loads {file : StoredFile} {body : FooterBody} (ordered : RootsAscend body)
    {found : CollectionId → List FrameId × List VectorId}
    (stored : ∀ collectionId,
      StoredMembers file body.collectionFilterRoots collectionId (found collectionId))
    {final : List (CollectionId × List FrameId × List VectorId)}
    (loaded : loadCollectionFilterCache file body.collectionFilterRoots [] = .ok final)
    (wanted : CollectionId) :
    (valueAt UInt32.toNat wanted final).getD ([], []) = found wanted := by
  have reads : ∀ entry ∈ body.collectionFilterRoots, file.readSegment entry.2 =
      some (.collectionFilter entry.1 (found entry.1).1 (found entry.1).2) := by
    rintro ⟨collectionId, root⟩ listed
    have held := (valueAt_eq_some UInt32.toNat store_injective ordered).mpr listed
    have here := stored collectionId
    unfold StoredMembers at here
    rwa [held] at here
  rw [loadCollectionFilterCache_valueAt reads loaded wanted]
  split
  · rfl
  · rename_i missing
    have here := stored wanted
    unfold StoredMembers at here
    cases held : valueAt UInt32.toNat wanted body.collectionFilterRoots with
    | none =>
        rw [held] at here
        exact here.symm
    | some root =>
        have listed := (valueAt_eq_some UInt32.toNat store_injective ordered).mp held
        exact absurd (List.mem_map_of_mem listed) missing

theorem StoredIndex.loads {file : StoredFile} {root : Option SegmentPlace}
    {entries loaded : List TimeIndexEntry} (stored : StoredIndex file root entries)
    (done : loadTimeIndexCache file root = .ok loaded) : loaded = entries := by
  cases root with
  | none => exact (Outcome.ok.inj done).symm.trans (Eq.symm stored)
  | some root =>
      have read : file.readSegment root = some (.timeIndex entries) := stored
      simp only [loadTimeIndexCache, read] at done
      exact (Outcome.ok.inj done).symm

theorem opened_indexes {state : OpenState} (opened : handle.opened = .ok state) :
    loadCollectionFilterCache handle.file handle.published.collectionFilterRoots [] =
        .ok state.collectionFilterCache ∧
      loadTimeIndexCache handle.file handle.published.timeIndexRoot = .ok state.timeIndexCache := by
  simp only [ValiseFile.opened, loadOpenState, Outcome.bind_eq_ok, Outcome.pure_eq,
    Outcome.ok.injEq] at opened
  obtain ⟨_, -, _, -, _, -, _, -, _, -, _, filters, _, index, rfl⟩ := opened
  exact ⟨filters, index⟩

theorem Mirrored.reopen {state : OpenState} (durable : handle.Durable) (mirrored : Mirrored handle)
    (opened : handle.opened = .ok state) : Mirrored (handle.reopen state) := by
  obtain ⟨tables, published⟩ := durable.published
  obtain ⟨rfl, -⟩ := published.reopened opened
  obtain ⟨ordered, frames, vectors, frameChain, vectorChain, filters, index⟩ := mirrored.published
  have sameFrames : frames = state.tables .frame :=
    Outcome.ok.inj ((frameChain.readTable rfl).symm.trans
      ((published.rooted.chained .frame).readTable rfl))
  have sameVectors : vectors = state.tables .vector :=
    Outcome.ok.inj ((vectorChain.readTable rfl).symm.trans
      ((published.rooted.chained .vector).readTable rfl))
  subst sameFrames sameVectors
  have members : ∀ collectionId, (handle.reopen state).members collectionId =
      membersOf ((state.tables .frame).map FrameDesc.dated) (state.tables .vector) collectionId :=
    fun collectionId => ValiseFile.members_eq _ collectionId
  have entries : (handle.reopen state).timeIndexEntries =
      indexOf ((state.tables .frame).map FrameDesc.dated) := ValiseFile.timeIndexEntries_dates _
  obtain ⟨filtersLoaded, indexLoaded⟩ := opened_indexes opened
  constructor
  · intro collectionId _
    rw [members]
    exact StoredMembers.loads ordered filters filtersLoaded collectionId
  · intro _
    rw [entries]
    exact index.loads indexLoaded
  · exact ordered
  · intro collectionId _
    rw [members]
    exact filters collectionId
  · intro _
    rw [entries]
    exact index
  · exact ⟨ordered, state.tables .frame, state.tables .vector, frameChain, vectorChain, filters, index⟩

/-! ### Runs -/

theorem fresh_mirrored (fresh : Fresh handle) : Mirrored handle := by
  have published := fresh_published fresh
  obtain ⟨contract, rfl⟩ := fresh
  refine ⟨fun _ _ => rfl, fun _ => rfl, List.Pairwise.nil, fun _ _ => rfl, fun _ => rfl,
    List.Pairwise.nil, [], [], published.rooted.chained .frame, published.rooted.chained .vector,
    fun _ => rfl, rfl⟩

/-- Calls that fail in any way, commits among them, and opens of the file. -/
abbrev PackedStep (analyze : Analyze) : ValiseFile → ValiseFile → Prop :=
  HandleStep analyze fun handle operation => operation.CodecPacks handle

theorem reachable_mirrored {analyze : Analyze}
    (reached : Runs.Reachable Fresh (PackedStep analyze) handle) :
    handle.Durable ∧ Mirrored handle := by
  refine @Runs.Reachable.invariant _ _ _ (fun handle => handle.Durable ∧ Mirrored handle)
    (fun _ fresh => ⟨fresh_durable fresh, fresh_mirrored fresh⟩) ?_ _ reached
  rintro before after ⟨durable, mirrored⟩ step
  cases step with
  | called faults packs =>
      have started := durable.withFaults faults
      have same : Mirrored (before.withFaults faults) := mirrored_overlooks before _ (.of_seen rfl) mirrored
      exact ⟨started.reached (Operation.packingChanges analyze started.sound packs),
        Operation.mirrored analyze started.sound same _⟩
  | reopened opened => exact ⟨durable.reopen opened, mirrored.reopen durable opened⟩

/-- A settled handle serves the whole catalog. -/
theorem Mirrored.serves (mirrored : Mirrored handle) (clean : ∀ kind, handle.dirtyIds kind = []) :
    (∀ collectionId, handle.cachedMembers collectionId = handle.members collectionId) ∧
      handle.timeIndexCache = handle.timeIndexEntries := by
  refine ⟨fun collectionId => mirrored.cached collectionId ?_, mirrored.indexed (clean .frame)⟩
  rw [mem_dirtyFilterCollections, clean .frame, clean .vector]
  rintro (⟨id, listed, -⟩ | ⟨id, listed, -⟩)
  · exact nomatch listed
  · exact nomatch listed

/-- The members of a collection are listed once each, in the order of their ids. -/
structure ListsMembers (handle : ValiseFile) (collectionId : CollectionId) : Prop where
  framesAscend : ((handle.collectionMemberFrames collectionId).map UInt64.toNat).Pairwise (· < ·)
  frames : ∀ frameId, frameId ∈ handle.collectionMemberFrames collectionId ↔
    ∃ frame ∈ handle.tables .frame, frame.frameId = frameId ∧ frame.status = .active ∧
      frame.collectionId = collectionId
  vectorsAscend : ((handle.collectionMemberVectors collectionId).map UInt64.toNat).Pairwise (· < ·)
  vectors : ∀ vectorId, vectorId ∈ handle.collectionMemberVectors collectionId ↔
    ∃ vector ∈ handle.tables .vector, vector.vectorId = vectorId ∧ vector.status = .active ∧
      vector.collectionId = collectionId

theorem listsMembers (sound : handle.Sound) {collectionId : CollectionId}
    (served : handle.cachedMembers collectionId = handle.members collectionId) :
    ListsMembers handle collectionId := by
  have frames : handle.collectionMemberFrames collectionId = handle.collectionFrames collectionId :=
    congrArg Prod.fst served
  have vectors : handle.collectionMemberVectors collectionId =
      handle.collectionVectors collectionId := congrArg Prod.snd served
  constructor
  · have ascending : Ascending (CatalogTableKind.rowId .frame) (handle.activeFrames.filter fun frame =>
        frame.collectionId = collectionId) := ((sound.ascends .frame).filter _).filter _
    rw [frames, ValiseFile.collectionFrames, List.map_map, List.pairwise_map]
    exact ascending
  · intro frameId
    rw [frames]
    simp only [ValiseFile.collectionFrames, ValiseFile.activeFrames, List.mem_map, List.mem_filter,
      decide_eq_true_eq]
    constructor
    · rintro ⟨frame, ⟨⟨listed, active⟩, named⟩, rfl⟩
      exact ⟨frame, listed, rfl, active, named⟩
    · rintro ⟨frame, listed, rfl, active, named⟩
      exact ⟨frame, ⟨⟨listed, active⟩, named⟩, rfl⟩
  · have ascending : Ascending (CatalogTableKind.rowId .vector) (handle.activeVectors.filter
        fun vector => vector.collectionId = collectionId) := ((sound.ascends .vector).filter _).filter _
    rw [vectors, ValiseFile.collectionVectors, List.map_map, List.pairwise_map]
    exact ascending
  · intro vectorId
    rw [vectors]
    simp only [ValiseFile.collectionVectors, ValiseFile.activeVectors, List.mem_map, List.mem_filter,
      decide_eq_true_eq]
    constructor
    · rintro ⟨vector, ⟨⟨listed, active⟩, named⟩, rfl⟩
      exact ⟨vector, listed, rfl, active, named⟩
    · rintro ⟨vector, listed, rfl, active, named⟩
      exact ⟨vector, ⟨⟨listed, active⟩, named⟩, rfl⟩

/-- A commit that returns leaves a sound handle with nothing dirty. -/
theorem committed_mirrored (durable : handle.Durable) (mirrored : Mirrored handle)
    {faults : IoPoint → Bool} {changed : Bool} {committed : ValiseFile}
    (commits : (handle.withFaults faults).commit = (.ok changed, committed)) :
    committed.Durable ∧ Mirrored committed ∧ Clean committed := by
  obtain ⟨later, stored, clean⟩ := committed_clean durable.sound commits
  have same : Mirrored (handle.withFaults faults) := mirrored_overlooks handle _ (.of_seen rfl) mirrored
  have kept := commit_mirrored (durable.sound.withFaults faults) same
  rw [commits] at kept
  exact ⟨(durable.withFaults faults).reached later, kept, clean⟩

/-- After every commit that returns, and after the next open, each collection lists exactly its
active frames and vectors. -/
theorem collections_exact {analyze : Analyze}
    (reached : Runs.Reachable Fresh (PackedStep analyze) handle) (faults : IoPoint → Bool)
    (changed : Bool) (committed : ValiseFile)
    (commits : (handle.withFaults faults).commit = (.ok changed, committed)) :
    (∀ collectionId, ListsMembers committed collectionId) ∧
      ∀ state, committed.opened = .ok state →
        ∀ collectionId, ListsMembers (committed.reopen state) collectionId := by
  obtain ⟨durable, mirrored⟩ := reachable_mirrored reached
  obtain ⟨durable, mirrored, clean⟩ := committed_mirrored durable mirrored commits
  constructor
  · intro collectionId
    exact listsMembers durable.sound ((mirrored.serves clean.dirtyIds).1 collectionId)
  · intro state opened collectionId
    have served := (mirrored.reopen durable opened).serves fun _ => rfl
    exact listsMembers (durable.reopen opened).sound (served.1 collectionId)

def noteFrame : PutFrame := ⟨1, .document, [0x61], some 5, none, none, none, none, none⟩

/-- A collection and a frame in it, not yet committed. -/
def notes : ValiseFile :=
  Operation.run noTokens (oneCollection.withFaults noFaults) (.putFrame noteFrame 5)

theorem notes_reached : Runs.Reachable Fresh (PackedStep noTokens) notes := by
  have created : Operation.CodecPacks (({} : ValiseFile).withFaults noFaults)
      (.createCollectionAt "notes" 0) := trivial
  have entered : Operation.CodecPacks (oneCollection.withFaults noFaults)
      (.putFrame noteFrame 5) := trivial
  exact .step (.step (.start ⟨{}, rfl⟩) (.called noFaults created)) (.called noFaults entered)

theorem notes_listed :
    (ValiseFile.commit (notes.withFaults noFaults)).2.collectionMemberFrames 1 = [1] ∧
      ∀ collectionId,
        ListsMembers (ValiseFile.commit (notes.withFaults noFaults)).2 collectionId := by
  have commits : (ValiseFile.commit (notes.withFaults noFaults)).1 = .ok true := by
    decide +kernel
  exact ⟨by decide +kernel,
    (collections_exact notes_reached noFaults true _ (Prod.ext commits rfl)).1⟩

end Valise
