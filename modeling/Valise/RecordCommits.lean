import Valise.RecordTracking

/-!
What a commit does to the records: staged vectors become rows of their spaces, entries become
committed, and a get reads everything a record was given.
-/

namespace Valise

open ByteLists Commands Command Outcomes Writer

section Flush

variable {κ γ : Type} {codecs : StoreCodecs κ γ} {schema : SchemaRegistry γ}
  {staged : List StagedVector}

theorem Writer.stagedNames_nodup (staged : List StagedVector) : (stagedNames staged).Nodup := by
  induction staged with
  | nil => exact List.nodup_nil
  | cons item rest ih =>
    refine List.nodup_cons.mpr ⟨?_, ih.filter _⟩
    intro member
    simpa using (List.mem_filter.mp member).2

theorem Writer.mem_stagedNames {item : StagedVector} (member : item ∈ staged) :
    item.spaceName ∈ stagedNames staged := by
  induction staged with
  | nil => cases member
  | cons first rest ih =>
    unfold stagedNames
    rcases List.mem_cons.mp member with rfl | later
    · exact List.mem_cons_self
    · by_cases same : item.spaceName = first.spaceName
      · exact same ▸ List.mem_cons_self
      · exact List.mem_cons_of_mem _ (List.mem_filter.mpr ⟨ih later, by simpa using same⟩)

theorem Writer.of_mem_stagedNames {name : String} (member : name ∈ stagedNames staged) :
    ∃ item ∈ staged, item.spaceName = name := by
  induction staged with
  | nil => cases member
  | cons first rest ih =>
    rcases List.mem_cons.mp member with rfl | later
    · exact ⟨first, List.mem_cons_self, rfl⟩
    · obtain ⟨item, there, same⟩ := ih (List.mem_filter.mp later).1
      exact ⟨item, List.mem_cons_of_mem _ there, same⟩

theorem Writer.spaceEntries_ok {names : List String} {entries : List (String × VectorSpaceEntry γ)}
    (done : spaceEntries schema names = .ok entries) :
    entries.map (·.1) = names ∧
      ∀ item ∈ entries, schema.vectorSpaces.lookup item.1 = some item.2 := by
  induction names generalizing entries with
  | nil =>
    cases done
    simp
  | cons name rest ih =>
    simp only [spaceEntries, Outcome.bind_eq_ok, required_eq_ok] at done
    obtain ⟨entry, known, others, rest, ⟨⟩⟩ := done
    obtain ⟨names, lookups⟩ := ih rest
    refine ⟨by simp [names], ?_⟩
    intro item member
    rcases List.mem_cons.mp member with rfl | later
    · exact known
    · exact lookups item later

/-- Codecs and spaces were added, and nothing else. -/
theorem Writer.Calibrates.rows {entries : List (String × VectorSpaceEntry γ)}
    {before after : StoreTables κ} {found : List (String × Nat)} {rows : List SpaceRow}
    (calibrates : Calibrates codecs staged entries before found rows after) :
    ∃ added, after = { before with
      codecs := before.codecs ++ added, spaces := before.spaces ++ rows } := by
  induction calibrates with
  | nil tables => exact ⟨[], by simp⟩
  | ready _ ih => exact ih
  | skipped _ _ ih => exact ih
  | @fresh name dim _ _ _ before codec found rows after _ _ ih =>
    obtain ⟨added, rfl⟩ := ih
    exact ⟨codec :: added, by simp [addCodecSpace]⟩

theorem Writer.Calibrates.grows {entries : List (String × VectorSpaceEntry γ)}
    {before after : StoreTables κ} {found : List (String × Nat)} {rows : List SpaceRow}
    (calibrates : Calibrates codecs staged entries before found rows after) :
    before.Grows after := by
  obtain ⟨added, rfl⟩ := calibrates.rows
  exact { StoreTables.Grows.refl before with
    codecs := List.prefix_append _ _, spaces := List.prefix_append _ _ }

theorem Writer.mem_freshIds {base spaceId : Nat} {name : String} {rows : List SpaceRow} :
    (name, spaceId) ∈ freshIds base rows ↔
      ∃ row, base ≤ spaceId ∧ rows[spaceId - base]? = some row ∧ row.model = name := by
  simp only [freshIds, List.mem_map, Prod.mk.injEq, Prod.exists,
    List.mk_mem_zipIdx_iff_le_and_getElem?_sub]
  constructor
  · rintro ⟨row, _, ⟨inside, found⟩, named, rfl⟩
    exact ⟨row, inside, found, named⟩
  · rintro ⟨row, inside, found, named⟩
    exact ⟨row, _, ⟨inside, found⟩, named, rfl⟩

theorem Writer.freshIds_cons (base : Nat) (row : SpaceRow) (rows : List SpaceRow) :
    freshIds base (row :: rows) = (row.model, base) :: freshIds (base + 1) rows := rfl

theorem mem_of_lookup {items : List (String × Nat)} {name : String} {value : Nat}
    (found : items.lookup name = some value) : (name, value) ∈ items := by
  obtain ⟨before, after, rfl, _⟩ := List.lookup_eq_some_iff.mp found
  simp

/-- The spaces that were registered are those that staged vectors go to and that were deferred. -/
theorem Writer.Calibrates.deferred {entries : List (String × VectorSpaceEntry γ)}
    {before after : StoreTables κ} {found : List (String × Nat)} {rows : List SpaceRow}
    (calibrates : Calibrates codecs staged entries before found rows after) :
    ∀ row ∈ rows, ∃ dim sampleTarget codec,
      (row.model, (⟨dim, .deferred sampleTarget codec⟩ : VectorSpaceEntry γ)) ∈ entries := by
  induction calibrates with
  | nil => simp
  | ready _ ih =>
    intro row member
    obtain ⟨dim, sampleTarget, codec, there⟩ := ih row member
    exact ⟨dim, sampleTarget, codec, List.mem_cons_of_mem _ there⟩
  | skipped _ _ ih =>
    intro row member
    obtain ⟨dim, sampleTarget, codec, there⟩ := ih row member
    exact ⟨dim, sampleTarget, codec, List.mem_cons_of_mem _ there⟩
  | fresh _ _ ih =>
    intro row member
    rcases List.mem_cons.mp member with rfl | later
    · exact ⟨_, _, _, List.mem_cons_self⟩
    · obtain ⟨dim, sampleTarget, codec, there⟩ := ih row later
      exact ⟨dim, sampleTarget, codec, List.mem_cons_of_mem _ there⟩

/-- Every name of a staged vector resolves, to a space that is ready or was just registered. -/
theorem Writer.Calibrates.resolves {entries : List (String × VectorSpaceEntry γ)}
    {before after : StoreTables κ} {found : List (String × Nat)} {rows : List SpaceRow}
    (calibrates : Calibrates codecs staged entries before found rows after)
    (names : (entries.map (·.1)).Nodup)
    (sampled : ∀ name dim sampleTarget codec,
      (name, (⟨dim, .deferred sampleTarget codec⟩ : VectorSpaceEntry γ)) ∈ entries →
        sampleOf staged name sampleTarget ≠ []) :
    ∀ item ∈ entries, ∃ spaceId, found.lookup item.1 = some spaceId ∧
      match item.2.state with
      | .ready placed => spaceId = placed
      | .deferred _ _ => (freshIds before.spaces.length rows).lookup item.1 = some spaceId := by
  induction calibrates with
  | nil => simp
  | @ready name dim ready rest before found rows after _ ih =>
    obtain ⟨apart, names⟩ := List.nodup_cons.mp names
    intro item member
    rcases List.mem_cons.mp member with rfl | later
    · exact ⟨ready, List.lookup_cons_self, rfl⟩
    · have different : (item.1 == name) = false :=
        beq_false_of_ne fun same => apart (List.mem_map.mpr ⟨item, later, same⟩)
      rw [List.lookup_cons, different]
      exact ih names (fun _ _ _ _ there => sampled _ _ _ _ (List.mem_cons_of_mem _ there)) item later
  | skipped empty _ _ => exact absurd empty (sampled _ _ _ _ List.mem_cons_self)
  | @fresh name dim _ _ rest before codec found rows after _ _ ih =>
    obtain ⟨apart, names⟩ := List.nodup_cons.mp names
    intro item member
    rcases List.mem_cons.mp member with rfl | later
    · exact ⟨before.spaces.length, List.lookup_cons_self, List.lookup_cons_self⟩
    · have different : (item.1 == name) = false :=
        beq_false_of_ne fun same => apart (List.mem_map.mpr ⟨item, later, same⟩)
      rw [freshIds_cons, List.lookup_cons, List.lookup_cons, different]
      have resolved := ih names
        (fun _ _ _ _ there => sampled _ _ _ _ (List.mem_cons_of_mem _ there)) item later
      simpa [addCodecSpace] using resolved

theorem Writer.entryAt_attach (identity : IdentityIndex) (pushes : Pushes) (id : RecordId) :
    (attach identity pushes).entryAt id = (identity.entryAt id).map fun entry =>
      { entry with vectors := entry.vectors ++
        (pushes.filter fun push => (push.1.collection, push.1.keyBytes) = id).map (·.2) } := by
  induction pushes generalizing identity with
  | nil => simp [attach]
  | cons push rest ih =>
    change (attach (identity.pushVector _ _ _ _) rest).entryAt id = _
    rw [ih, IdentityIndex.pushVector, IdentityIndex.entryAt_adjust]
    by_cases same : id = (push.1.collection, push.1.keyBytes)
    · cases identity.entryAt id <;> simp [same]
    · have different : ¬ (push.1.collection, push.1.keyBytes) = id := fun other => same other.symm
      simp [same, different]

/-- The staged vectors of a key are rows of the spaces that they resolved to. -/
theorem holds_pushes {tables : StoreTables κ} {found : List (String × Nat)} (id : RecordId)
    {items : List StagedVector} {base : Nat}
    (resolves : ∀ item ∈ items, ∃ spaceId, found.lookup item.spaceName = some spaceId ∧
      schema.vectorSpaceId item.spaceName = some spaceId)
    (places : ∀ place row, (pushRows (pushesOf found base items))[place]? = some row →
      tables.vectors[base + place]? = some row) :
    List.Forall₂ (HoldsVector schema tables)
      (((pushesOf found base items).filter fun push =>
        (push.1.collection, push.1.keyBytes) = id).map (·.2))
      ((items.filter fun item => (item.collection, item.keyBytes) = id).map fun item =>
        (item.spaceName, item.values)) := by
  induction items generalizing base with
  | nil => exact .nil
  | cons item rest ih =>
    obtain ⟨spaceId, resolved, ready⟩ := resolves item List.mem_cons_self
    have unfolded : pushesOf found base (item :: rest) =
        (item, spaceId, base) :: pushesOf found (base + 1) rest := by
      simp [pushesOf, resolved]
    rw [unfolded] at places ⊢
    have others := @ih (base + 1)
      (fun item later => resolves item (List.mem_cons_of_mem _ later)) (by
        intro place row there
        have moved := places (place + 1) row there
        rwa [Nat.add_comm place 1, ← Nat.add_assoc] at moved)
    by_cases same : (item.collection, item.keyBytes) = id
    · rw [List.filter_cons_of_pos (by simpa using same), List.filter_cons_of_pos (by simpa using same)]
      exact .cons ⟨ready, _, places 0 _ rfl, rfl, rfl⟩ others
    · rw [List.filter_cons_of_neg (by simpa using same), List.filter_cons_of_neg (by simpa using same)]
      exact others

end Flush

section Commits

variable {κ γ : Type} {codecs : StoreCodecs κ γ} {before after : WriterState κ γ}
  {given : RecordId → Option Given}

/-- Spaces that became ready keep a registry sound. -/
theorem SchemaRegistry.Sound.promote {schema : SchemaRegistry γ} {base : Nat}
    (sound : schema.Sound base) (rows : List SpaceRow) :
    (schema.promote (freshIds base rows)).Sound (base + rows.length) := by
  -- A name is ready with an id that was there, or with the place of a row that was added.
  have places (name : String) (spaceId : Nat)
      (found : (schema.promote (freshIds base rows)).vectorSpaceId name = some spaceId) :
      schema.vectorSpaceId name = some spaceId ∨ (name, spaceId) ∈ freshIds base rows := by
    rw [vectorSpaceId_promote] at found
    cases fresh : (freshIds base rows).lookup name with
    | none =>
      rw [fresh] at found
      exact .inl found
    | some placed =>
      rw [fresh] at found
      obtain ⟨_, _, rfl⟩ := Option.map_eq_some_iff.mp found
      exact .inr (mem_of_lookup fresh)
  refine ⟨?_, ?_, ?_, sound.shaped, sound.apart⟩
  · intro name spaceId found
    rcases places name spaceId found with old | fresh
    · exact (sound.ready name spaceId old).trans_le (Nat.le_add_right _ _)
    · obtain ⟨row, inside, there, _⟩ := mem_freshIds.mp fresh
      have bound := (List.getElem?_eq_some_iff.mp there).1
      omega
  · intro first second spaceId one other
    rcases places first spaceId one with old | fresh
    · rcases places second spaceId other with old' | fresh'
      · exact sound.distinct first second spaceId old old'
      · exact absurd (mem_freshIds.mp fresh').choose_spec.1 (sound.ready _ _ old).not_ge
    · rcases places second spaceId other with old' | fresh'
      · exact absurd (mem_freshIds.mp fresh).choose_spec.1 (sound.ready _ _ old').not_ge
      · obtain ⟨row, _, there, named⟩ := mem_freshIds.mp fresh
        obtain ⟨row', _, there', named'⟩ := mem_freshIds.mp fresh'
        obtain rfl := Option.some.inj (there.symm.trans there')
        exact named.symm.trans named'
  · intro name dim sampleTarget codec found
    rw [lookup_promote] at found
    obtain ⟨entry, there, same⟩ := Option.map_eq_some_iff.mp found
    split at same
    · cases same
    · exact sound.sampled name dim sampleTarget codec (same ▸ there)

theorem sampleOf_ne_nil {staged : List StagedVector} {name : String} {sampleTarget : Nat}
    (member : name ∈ stagedNames staged) (positive : 0 < sampleTarget) :
    sampleOf staged name sampleTarget ≠ [] := by
  obtain ⟨item, there, same⟩ := of_mem_stagedNames member
  have kept : staged.filter (·.spaceName = name) ≠ [] :=
    List.ne_nil_of_mem (List.mem_filter.mpr ⟨there, by simpa using same⟩)
  simp only [sampleOf, ne_eq, List.map_eq_nil_iff, List.take_eq_nil_iff, not_or]
  exact ⟨positive.ne', kept⟩

/-- Spaces become ready, and rows are added. -/
theorem Writer.FlushDone.grows (done : FlushDone codecs before after) :
    before.schema.Ripens after.schema ∧ before.engine.tables.Grows after.engine.tables := by
  obtain ⟨entries, found, rows, tables, resolved, calibrates, rfl⟩ := done.flushed
  obtain ⟨_, lookups⟩ := spaceEntries_ok resolved
  have deferred (name : String) (spaceId : Nat)
      (fresh : (freshIds before.engine.tables.spaces.length rows).lookup name = some spaceId) :
      before.schema.vectorSpaceId name = none := by
    obtain ⟨row, _, there, rfl⟩ := mem_freshIds.mp (mem_of_lookup fresh)
    obtain ⟨dim, sampleTarget, codec, member⟩ :=
      calibrates.deferred row (List.mem_of_getElem? there)
    rw [SchemaRegistry.vectorSpaceId, lookups _ member]
  refine ⟨⟨fun name spaceId ready => ?_, rfl, rfl⟩, calibrates.grows.trans (.addVectors _ _)⟩
  dsimp only
  rw [SchemaRegistry.vectorSpaceId_promote]
  cases fresh : (freshIds before.engine.tables.spaces.length rows).lookup name with
  | none => exact ready
  | some placed => rw [deferred name placed fresh] at ready; cases ready

/-- The staged vectors of an entry's frame are rows after a flush, at the end of the entry. -/
theorem TracksRecords.pushed (tracks : TracksRecords before given)
    (done : FlushDone codecs before after) {id : RecordId} {entry : Entry}
    (there : before.identity.entryAt id = some entry) : ∃ pushed,
      after.identity.entryAt id = some { entry with vectors := entry.vectors ++ pushed } ∧
      List.Forall₂ (HoldsVector after.schema after.engine.tables) pushed
        (waiting before.staged entry.frameId) := by
  obtain ⟨ripens, _⟩ := done.grows
  obtain ⟨entries, found, rows, tables, resolved, calibrates, rfl⟩ := done.flushed
  obtain ⟨names, lookups⟩ := spaceEntries_ok resolved
  have nodup : (entries.map (·.1)).Nodup := names ▸ stagedNames_nodup _
  have resolves := calibrates.resolves nodup (by
    intro name dim sampleTarget codec member
    refine sampleOf_ne_nil ?_ (tracks.schema.sampled name dim sampleTarget codec (lookups _ member))
    exact names ▸ List.mem_map_of_mem member)
  -- Each staged vector gets the id of its space in the schema that the flush leaves.
  have ready : ∀ item ∈ before.staged, ∃ spaceId, found.lookup item.spaceName = some spaceId ∧
      (before.schema.promote (freshIds before.engine.tables.spaces.length rows)).vectorSpaceId
        item.spaceName = some spaceId := by
    intro item member
    have named : item.spaceName ∈ entries.map (·.1) := names ▸ mem_stagedNames member
    obtain ⟨⟨name, dim, stage⟩, there, same⟩ := List.mem_map.mp named
    obtain rfl : name = item.spaceName := same
    obtain ⟨spaceId, resolvedTo, placed⟩ := resolves _ there
    refine ⟨spaceId, resolvedTo, ?_⟩
    cases stage with
    | ready spaceId =>
      cases placed
      exact ripens.ready _ _ (SchemaRegistry.vectorSpaceId_eq_some.mpr ⟨dim, lookups _ there⟩)
    | deferred sampleTarget codec =>
      have fresh : (freshIds before.engine.tables.spaces.length rows).lookup item.spaceName =
        some spaceId := placed
      rw [SchemaRegistry.vectorSpaceId_promote, fresh, lookups _ there]
      rfl
  -- The staged vectors of a frame are those of its key.
  have owned : before.staged.filter (·.ownerFrame = entry.frameId) =
      before.staged.filter fun item => (item.collection, item.keyBytes) = id := by
    refine List.filter_congr fun item member => ?_
    obtain ⟨owner, ownerFound, sameFrame⟩ := tracks.staged item member
    refine decide_eq_decide.mpr ⟨fun same => ?_, fun same => ?_⟩
    · exact (tracks.keyed _ owner ownerFound).unique
        ((sameFrame.trans same) ▸ tracks.keyed id entry there)
    · rw [same, there] at ownerFound
      cases ownerFound
      exact sameFrame.symm
  refine ⟨_, (entryAt_attach _ _ id).trans (congrArg _ there), ?_⟩
  unfold waiting
  rw [owned]
  refine holds_pushes id ready ?_
  intro place row placed
  exact (List.getElem?_append_right (Nat.le_add_right _ _)).trans (by simpa using placed)

theorem TracksRecords.flush (tracks : TracksRecords before given)
    (done : FlushDone codecs before after) :
    TracksRecords after given ∧ after.staged = [] ∧
      before.engine.tables.Grows after.engine.tables := by
  have pushed := fun id entry => @tracks.pushed _ _ _ _ _ _ done id entry
  obtain ⟨ripens, grows⟩ := done.grows
  obtain ⟨entries, found, rows, tables, resolved, calibrates, rfl⟩ := done.flushed
  refine ⟨⟨?_, ?_, ?_, by simp⟩, rfl, grows⟩
  · obtain ⟨added, rfl⟩ := calibrates.rows
    simpa [addVectors, withTables] using tracks.schema.promote rows
  · intro id entry attached
    rw [entryAt_attach] at attached
    obtain ⟨prior, was, rfl⟩ := Option.map_eq_some_iff.mp attached
    exact (tracks.keyed id prior was).grow grows
  · intro id record was
    obtain ⟨entry, there, describes⟩ := tracks.described id record was
    obtain ⟨shape, bound, checked, frame, held, holds, whole⟩ := describes.frame
    obtain ⟨vectors, attached, landed⟩ := pushed id entry there
    refine ⟨_, attached, shape, bound, checked, frame.grow grows ripens,
      held ++ waiting before.staged entry.frameId, ?_, ?_⟩
    · exact List.rel_append (holds.imp fun _ _ holds => holds.grow grows ripens) landed
    · simpa [waiting] using whole

/-- What a commit that succeeds did: staged vectors are flushed first, if there are any. -/
structure CommitDone (codecs : StoreCodecs κ γ) (before after : WriterState κ γ) : Prop where
  committed : ∃ middle engine,
    (before.staged = [] ∧ middle = before ∨
      before.staged ≠ [] ∧ FlushDone codecs before middle) ∧
    middle.engine.Committed engine ∧
    after = { middle with engine, identity := middle.identity.markAllCommitted }

theorem Writer.commit_ok {value : Unit} (done : commit codecs before = (.ok value, after)) :
    CommitDone codecs before after := by
  simp only [commit, bind_eq_ok, get_eq_ok] at done
  obtain ⟨_, _, ⟨rfl, rfl⟩, rest⟩ := done
  split at rest
  · rename_i empty
    simp only [bind_eq_ok, Writer.onEngine_ok, modify_eq_ok] at rest
    obtain ⟨_, _, ⟨engine, committed, rfl⟩, rfl⟩ := rest
    exact ⟨before, engine, .inl ⟨empty, rfl⟩, StoreEngine.commit_ok committed, rfl⟩
  · rename_i staged
    simp only [bind_eq_ok, Writer.onEngine_ok, modify_eq_ok] at rest
    obtain ⟨_, middle, flushed, _, _, ⟨engine, committed, rfl⟩, rfl⟩ := rest
    exact ⟨middle, engine, .inr ⟨staged, flushDeferred_ok flushed⟩,
      StoreEngine.commit_ok committed, rfl⟩

theorem CommitDone.staged_nil (done : CommitDone codecs before after) : after.staged = [] := by
  obtain ⟨middle, engine, flushed, _, rfl⟩ := done.committed
  rcases flushed with ⟨empty, rfl⟩ | ⟨_, flushed⟩
  · exact empty
  · obtain ⟨_, _, _, _, _, _, rfl⟩ := flushed.flushed
    rfl

theorem TracksRecords.mark (tracks : TracksRecords before given) :
    TracksRecords { before with identity := before.identity.markAllCommitted } given where
  schema := tracks.schema
  keyed := by
    intro id entry marked
    rw [IdentityIndex.entryAt_markAllCommitted] at marked
    obtain ⟨prior, was, rfl⟩ := Option.map_eq_some_iff.mp marked
    have keyed := tracks.keyed id prior was
    split
    · exact keyed
    · exact keyed
  described := by
    intro id record was
    obtain ⟨entry, there, describes⟩ := tracks.described id record was
    refine ⟨_, (IdentityIndex.entryAt_markAllCommitted _ id).trans (congrArg _ there), ?_⟩
    obtain ⟨shape, bound, checked, holds⟩ := describes.frame
    split
    · exact ⟨shape, bound, checked, holds⟩
    · exact ⟨shape, bound, checked, holds⟩
  staged := by
    intro item member
    obtain ⟨entry, found, same⟩ := tracks.staged item member
    refine ⟨_, (IdentityIndex.entryAt_markAllCommitted _ _).trans (congrArg _ found), ?_⟩
    split
    · exact same
    · exact same

/-- A call that touches only rows when it fails keeps what survives that and what it does itself. -/
theorem after_call {α : Type} {call : WriterCall κ γ α} {property : WriterState κ γ → Prop}
    (fails : Meets (before.Untouched) call (fun _ _ => True) (before.Untouched))
    (failed : ∀ after, before.Untouched after → property after)
    (done : ∀ value after, call before = (.ok value, after) → property after) :
    property (call before).2 := by
  have met := fails before (untouched_refl before)
  revert met
  cases result : call before with
  | mk outcome after =>
    cases outcome with
    | ok value => exact fun _ => done value after result
    | err error => exact fun untouched => failed after untouched
    | panic => exact fun untouched => failed after untouched

theorem commit_keeps_tracks :
    Keeps (fun state => TracksRecords state given) (Writer.commit codecs) := by
  have finish : Keeps (fun state => TracksRecords state given) (do
      Writer.onEngine StoreEngine.commit
      Command.modify fun state : WriterState κ γ =>
        { state with identity := state.identity.markAllCommitted }) :=
    keeps_bind (fun state tracks => tracks.grow
      (keeps_onEngine StoreEngine.commit_keeps state (untouched_refl state)))
      fun _ => keeps_modify fun _ tracks => tracks.mark
  have flush : Keeps (fun state => TracksRecords state given) (flushDeferred codecs) :=
    fun state tracks => after_call flushDeferred_fails (fun _ => tracks.grow)
      fun _ _ done => (tracks.flush (flushDeferred_ok done)).1
  exact keeps_bind keeps_get fun _ => keeps_ite finish (keeps_bind flush fun _ => finish)

end Commits

end Valise
