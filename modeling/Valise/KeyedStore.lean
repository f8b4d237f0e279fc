import Valise.IdentityMirror
import Valise.StoredRecords

/-!
A store as a keyed map: what puts, deletes and commits that succeed leave under every key, and what
a get and a listing of keys find once everything is committed.
-/

namespace Valise

open ByteLists Commands Command Outcomes Writer

/-! ### Schemas that are restored -/

section Lookups

variable {items : List (String × Nat)} {name : String}

theorem lookup_eq_some_iff_mem (nodup : (items.map (·.1)).Nodup) {value : Nat} :
    items.lookup name = some value ↔ (name, value) ∈ items := by
  refine ⟨mem_of_lookup, fun member => ?_⟩
  cases found : items.lookup name with
  | none => simpa using List.lookup_eq_none_iff.mp found _ member
  | some other =>
    have same := List.inj_on_of_nodup_map nodup (mem_of_lookup found) member rfl
    exact congrArg some (Prod.ext_iff.mp same).2

theorem lookup_reverse (nodup : (items.map (·.1)).Nodup) :
    items.reverse.lookup name = items.lookup name := by
  have reversed : (items.reverse.map (·.1)).Nodup := by
    rwa [List.map_reverse, List.nodup_reverse]
  refine Option.ext fun value => ?_
  rw [lookup_eq_some_iff_mem nodup, lookup_eq_some_iff_mem reversed, List.mem_reverse]

theorem lookup_append (first second : List (String × Nat)) :
    (first ++ second).lookup name = (first.lookup name).or (second.lookup name) := by
  induction first with
  | nil => rfl
  | cons item rest ih =>
    rw [List.cons_append, List.lookup_cons, List.lookup_cons]
    cases name == item.1 with
    | true => rfl
    | false => exact ih

end Lookups

namespace SchemaRegistry

variable {κ γ : Type} (schema : SchemaRegistry γ)

/-- What an open restores: spaces that have a row are ready, others are as they were declared. -/
def restore (spaces : List SpaceRow) : SchemaRegistry γ :=
  schema.promote (freshIds 0 spaces).reverse

theorem promote_congr {first second : List (String × Nat)}
    (same : ∀ name, first.lookup name = second.lookup name) :
    schema.promote first = schema.promote second := by
  unfold promote
  simp only [same]

theorem promote_promote (first second : List (String × Nat)) :
    (schema.promote first).promote second = schema.promote (second ++ first) := by
  unfold promote
  simp only [List.map_map, lookup_append, mk.injEq, and_true]
  refine List.map_congr_left fun item _ => ?_
  obtain ⟨name, entry⟩ := item
  simp only [Function.comp_apply]
  cases first.lookup name with
  | none => cases second.lookup name <;> rfl
  | some early => cases second.lookup name <;> rfl

theorem freshIds_names (base : Nat) (rows : List SpaceRow) :
    (freshIds base rows).map (·.1) = rows.map (·.model) := by
  induction rows generalizing base with
  | nil => rfl
  | cons row rest ih => rw [freshIds_cons, List.map_cons, List.map_cons, ih]

theorem freshIds_append (base : Nat) (first second : List SpaceRow) :
    freshIds base (first ++ second) = freshIds base first ++ freshIds (base + first.length) second := by
  induction first generalizing base with
  | nil => rfl
  | cons row rest ih =>
    rw [List.cons_append, freshIds_cons, freshIds_cons, ih, List.cons_append, List.length_cons,
      Nat.add_right_comm, Nat.add_assoc]

/-- The spaces that a commit registers are ready in the registry that it leaves, and in the one that
is restored from the rows. -/
theorem restore_append (spaces rows : List SpaceRow) (names : (rows.map (·.model)).Nodup) :
    schema.restore (spaces ++ rows) =
      (schema.restore spaces).promote (freshIds spaces.length rows) := by
  rw [restore, restore, promote_promote, freshIds_append, List.reverse_append, Nat.zero_add]
  refine promote_congr schema fun name => ?_
  rw [lookup_append, lookup_append, lookup_reverse]
  rwa [freshIds_names]

end SchemaRegistry

theorem Writer.Calibrates.names {κ γ : Type} {codecs : StoreCodecs κ γ} {staged : List StagedVector}
    {entries : List (String × VectorSpaceEntry γ)} {before after : StoreTables κ}
    {found : List (String × Nat)} {rows : List SpaceRow}
    (calibrates : Calibrates codecs staged entries before found rows after) :
    (rows.map (·.model)).Sublist (entries.map (·.1)) := by
  induction calibrates with
  | nil => exact List.nil_sublist _
  | ready _ ih => exact ih.cons _
  | skipped _ _ ih => exact ih.cons _
  | fresh _ _ ih => exact ih.cons_cons _

/-! ### Exact states -/

section Exact

variable {κ γ : Type} {codecs : StoreCodecs κ γ} {before after state : WriterState κ γ}
  {given : RecordId → Option Given}

theorem TracksRecords.forget (tracks : TracksRecords state given) :
    TracksRecords state fun _ => none :=
  ⟨tracks.schema, tracks.keyed, nofun, tracks.staged⟩

/-- The index mirrors the rows, and knows what is not committed. -/
structure Indexed (state : WriterState κ γ) : Prop where
  tracks : TracksRecords state fun _ => none
  mirrors : MirrorsRows state.engine.tables state.identity.entryAt
  listed : ∀ id entry, state.identity.entryAt id = some entry → entry.committed = false →
    id ∈ state.identity.uncommitted
  waits : ∀ vectorId ∈ state.engine.pending, vectorId < state.engine.tables.vectors.length

/-- The index mirrors the rows, and has the keys that were given and no others. -/
structure Exact (state : WriterState κ γ) (given : RecordId → Option Given) : Prop where
  tracks : TracksRecords state given
  mirrors : MirrorsRows state.engine.tables state.identity.entryAt
  known : ∀ id entry, state.identity.entryAt id = some entry → (given id).isSome = true
  listed : ∀ id entry, state.identity.entryAt id = some entry → entry.committed = false →
    id ∈ state.identity.uncommitted
  waits : ∀ vectorId ∈ state.engine.pending, vectorId < state.engine.tables.vectors.length

theorem Exact.indexed (exact : Exact state given) : Indexed state :=
  ⟨exact.tracks.forget, exact.mirrors, exact.listed, exact.waits⟩

theorem Indexed.exact (indexed : Indexed state) (tracks : TracksRecords state given)
    (known : ∀ id entry, state.identity.entryAt id = some entry → (given id).isSome = true) :
    Exact state given :=
  ⟨tracks, indexed.mirrors, known, indexed.listed, indexed.waits⟩

theorem Writer.PutDone.entries {coll : String} {key : Key} {record : Record} {now : Int64} {plan : PutPlan}
    (done : PutDone coll key record now plan before after) :
    after.identity.entryAt = Function.update before.identity.entryAt
      (plan.collectionId, key.encode) (some ⟨before.engine.tables.frames.length,
        readyIds before.engine.tables.vectors.length plan.ready, false⟩) := by
  funext id
  rw [done.identity, IdentityIndex.entryAt_insert, Function.update_apply]

theorem Indexed.put {coll : String} {key : Key} {record : Record} {now : Int64} {plan : PutPlan}
    (indexed : Indexed before) (done : PutDone coll key record now plan before after) :
    Indexed after := by
  obtain ⟨parent, rows⟩ := done.tables
  obtain ⟨shape, plans⟩ := resolvePlan_ok done.planned
  refine ⟨(indexed.tracks.put done).forget, ?_, ?_, ?_⟩
  · rw [rows, done.entries]
    refine indexed.mirrors.replace done.replaceable rfl rfl rfl (by simp [Key.decode_encode]) ?_
    intro item member
    obtain ⟨held, spaces, _⟩ := plans.vectors
    obtain ⟨bound, _, ready, _⟩ := related_right (List.Forall₂.flip spaces) member
    exact indexed.tracks.schema.ready _ _ ready
  · intro id entry found open_
    rw [done.identity]
    simp only [IdentityIndex.insert, Bool.false_eq_true, if_false, List.mem_append,
      List.mem_singleton]
    by_cases same : id = (plan.collectionId, key.encode)
    · exact .inr same
    · rw [done.entries, Function.update_of_ne same] at found
      exact .inl (indexed.listed id entry found open_)
  · have length : after.engine.tables.vectors.length =
        before.engine.tables.vectors.length + plan.ready.length := by
      rw [rows]
      cases before.identity.get plan.collectionId key.encode with
      | none => simp [withdrawPrior, enter, readyRows]
      | some prior =>
        refine (withdraw_lengths prior _).2.trans ?_
        simp [enter, readyRows]
    intro vectorId waits
    rw [done.pending] at waits
    rcases List.mem_append.mp waits with old | new
    · exact (indexed.waits vectorId old).trans_le (by omega)
    · have bound := (List.mem_range'_1.mp new).2
      omega

theorem Exact.put {coll : String} {key : Key} {record : Record} {now : Int64} {plan : PutPlan}
    (exact : Exact before given) (done : PutDone coll key record now plan before after) :
    Exact after (Function.update given (plan.collectionId, key.encode)
      (some ⟨coll, record⟩)) := by
  refine (exact.indexed.put done).exact (exact.tracks.put done) ?_
  intro id entry found
  by_cases same : id = (plan.collectionId, key.encode)
  · rw [same, Function.update_self]
    rfl
  · rw [done.entries, Function.update_of_ne same] at found
    rw [Function.update_of_ne same]
    exact exact.known id entry found

theorem entryAt_remove_eq (identity : IdentityIndex) (collectionId : Nat) (key : Bytes) :
    (identity.remove collectionId key).entryAt =
      Function.update identity.entryAt (collectionId, key) none := by
  funext id
  rw [IdentityIndex.entryAt_remove, Function.update_apply]

theorem Indexed.delete {coll : String} {key : Key} {found : Bool} (indexed : Indexed before)
    (done : DeleteDone coll key before after found) : Indexed after := by
  obtain ⟨_, _, tracks⟩ := indexed.tracks.delete done
  rcases done with @⟨_, _, _, rfl⟩ | @⟨record, prior, _, existing, replaceable, rfl⟩
  · exact indexed
  · refine ⟨tracks.forget, ?_, ?_, ?_⟩
    · have withdrawn := indexed.mirrors.withdraw existing replaceable
      rw [← entryAt_remove_eq] at withdrawn
      exact withdrawn
    · intro id entry there open_
      have there : (before.identity.remove record.collectionId key.encode).entryAt id = some entry :=
        there
      rw [IdentityIndex.entryAt_remove] at there
      split at there
      · cases there
      · exact indexed.listed id entry there open_
    · intro vectorId waits
      exact (indexed.waits vectorId waits).trans_eq
        (withdraw_lengths prior before.engine.tables).2.symm

theorem Exact.delete {coll : String} {key : Key} {found : Bool} (exact : Exact before given)
    (done : DeleteDone coll key before after found) :
    ∃ record, before.schema.collections.lookup coll = some record ∧ Exact after
      (Function.update given (record.collectionId, key.encode) none) := by
  obtain ⟨record, known, tracks⟩ := exact.tracks.delete done
  refine ⟨record, known, (exact.indexed.delete done).exact tracks ?_⟩
  rcases done with @⟨_, known', missing, rfl⟩ | @⟨_, prior, known', _, _, rfl⟩
  · obtain rfl := Option.some.inj (known.symm.trans known')
    intro id entry there
    rw [Function.update_of_ne, exact.known id entry there]
    rintro rfl
    rw [IdentityIndex.get_eq, there] at missing
    cases missing
  · obtain rfl := Option.some.inj (known.symm.trans known')
    intro id entry there
    have there : (before.identity.remove record.collectionId key.encode).entryAt id = some entry :=
      there
    rw [entryAt_remove_eq] at there
    by_cases same : id = (record.collectionId, key.encode)
    · rw [same, Function.update_self] at there
      cases there
    · rw [Function.update_of_ne same] at there ⊢
      exact exact.known id entry there

theorem Indexed.flush (indexed : Indexed before) (done : FlushDone codecs before after) :
    Indexed after := by
  obtain ⟨tracks, _, _⟩ := indexed.tracks.flush done
  obtain ⟨entries, found, rows, tables, resolved, calibrates, rfl⟩ := done.flushed
  obtain ⟨added, rfl, coded⟩ := calibrates.coded
  refine ⟨tracks, ?_, ?_, ?_⟩
  · refine (indexed.mirrors.addSpaces coded).attach indexed.tracks.staged ?_
    -- A space that a staged vector resolves to has a row.
    intro item member spaceId lookup
    have placed := calibrates.placed (mem_of_lookup lookup)
    rw [List.length_append]
    rcases placed with ⟨dim, there⟩ | fresh
    · obtain ⟨_, lookups⟩ := spaceEntries_ok resolved
      have ready := SchemaRegistry.vectorSpaceId_eq_some.mpr ⟨dim, lookups _ there⟩
      exact (indexed.tracks.schema.ready _ _ ready).trans_le (Nat.le_add_right _ _)
    · obtain ⟨row, inside, there, _⟩ := mem_freshIds.mp fresh
      have bound := (List.getElem?_eq_some_iff.mp there).1
      omega
  · intro id entry attached open_
    rw [entryAt_attach] at attached
    obtain ⟨prior, was, rfl⟩ := Option.map_eq_some_iff.mp attached
    have listed := indexed.listed id prior was open_
    rw [attach_uncommitted]
    exact listed
  · intro vectorId waits
    simp only [addVectors, withTables, List.length_append] at waits ⊢
    rcases List.mem_append.mp waits with old | new
    · exact (indexed.waits vectorId old).trans_le (Nat.le_add_right _ _)
    · exact (List.mem_range'_1.mp new).2

theorem Exact.flush (exact : Exact before given) (done : FlushDone codecs before after) :
    Exact after given := by
  refine (exact.indexed.flush done).exact (exact.tracks.flush done).1 ?_
  obtain ⟨_, _, _, _, _, _, rfl⟩ := done.flushed
  intro id entry attached
  rw [entryAt_attach] at attached
  obtain ⟨prior, was, rfl⟩ := Option.map_eq_some_iff.mp attached
  exact exact.known id prior was

/-- Nothing waits: every row is durable and every entry is committed. -/
structure AllCommitted (state : WriterState κ γ) : Prop where
  staged : state.staged = []
  pending : state.engine.pending = []
  unflushed : state.engine.unflushed = []
  durable : state.engine.durable = state.engine.tables
  committed : ∀ id entry, state.identity.entryAt id = some entry → entry.committed = true

theorem Indexed.marked (indexed : Indexed before) {id : RecordId} {entry : Entry}
    (found : before.identity.markAllCommitted.entryAt id = some entry) : ∃ prior,
      before.identity.entryAt id = some prior ∧ entry = { prior with committed := true } := by
  rw [IdentityIndex.entryAt_markAllCommitted] at found
  obtain ⟨prior, was, rfl⟩ := Option.map_eq_some_iff.mp found
  refine ⟨prior, was, ?_⟩
  by_cases committed : prior.committed = true
  · split
    · rfl
    · rw [← committed]
  · rw [if_pos (indexed.listed id prior was (by simpa using committed))]

theorem Indexed.commit {engine : StoreEngine κ} (indexed : Indexed before)
    (landed : before.staged = []) (committed : before.engine.Committed engine) :
    Indexed { before with engine, identity := before.identity.markAllCommitted } ∧
      AllCommitted { before with engine, identity := before.identity.markAllCommitted } := by
  have grown : before.Untouched { before with engine } :=
    ⟨committed.tables ▸ .refl _, rfl, rfl, rfl⟩
  have empty : engine.pending = [] := by
    refine List.eq_nil_iff_forall_not_mem.mpr fun vectorId waits => ?_
    obtain ⟨was, outside⟩ := committed.pending vectorId waits
    have row := List.getElem?_eq_getElem (indexed.waits vectorId was)
    exact (indexed.mirrors.spaced vectorId _ row).1.not_ge (outside _ row)
  refine ⟨⟨(indexed.tracks.grow grown).mark, ?_, ?_, ?_⟩,
    ⟨landed, empty, committed.unflushed, ?_, ?_⟩⟩
  · change MirrorsRows engine.tables before.identity.markAllCommitted.entryAt
    rw [committed.tables]
    exact indexed.mirrors.mark
  · intro id entry found open_
    obtain ⟨prior, was, rfl⟩ := indexed.marked found
    cases open_
  · intro vectorId waits
    have waits : vectorId ∈ engine.pending := waits
    rw [empty] at waits
    cases waits
  · exact committed.durable.trans committed.tables.symm
  · intro id entry found
    obtain ⟨prior, _, rfl⟩ := indexed.marked found
    rfl

theorem Exact.commit (exact : Exact before given) (done : CommitDone codecs before after) :
    Exact after given ∧ AllCommitted after := by
  have empty := done.staged_nil
  obtain ⟨middle, engine, flushed, committed, rfl⟩ := done.committed
  have reached : Exact middle given := by
    rcases flushed with ⟨_, rfl⟩ | ⟨_, flushed⟩
    · exact exact
    · exact exact.flush flushed
  obtain ⟨indexed, settled⟩ := reached.indexed.commit empty committed
  have grown : middle.Untouched { middle with engine } :=
    ⟨committed.tables ▸ .refl _, rfl, rfl, rfl⟩
  refine ⟨indexed.exact (reached.tracks.grow grown).mark ?_, settled⟩
  intro id entry found
  obtain ⟨prior, was, _⟩ := reached.indexed.marked found
  exact reached.known id prior was

/-- The spaces that a commit calibrates are ready as an open would restore them. -/
theorem CommitDone.restored {declared : SchemaRegistry γ} (done : CommitDone codecs before after)
    (restored : before.schema = declared.restore before.engine.tables.spaces) :
    after.schema = declared.restore after.engine.tables.spaces := by
  obtain ⟨middle, engine, flushed, committed, rfl⟩ := done.committed
  change middle.schema = declared.restore engine.tables.spaces
  rw [committed.tables]
  rcases flushed with ⟨_, rfl⟩ | ⟨_, flushed⟩
  · exact restored
  · obtain ⟨entries, found, rows, tables, resolved, calibrates, rfl⟩ := flushed.flushed
    obtain ⟨added, rfl⟩ := calibrates.rows
    have names : (rows.map (·.model)).Nodup :=
      calibrates.names.nodup ((spaceEntries_ok resolved).1 ▸ stagedNames_nodup _)
    simp only [addVectors, withTables]
    rw [declared.restore_append _ _ names, restored]

/-- What was committed is held by its durable rows. -/
theorem Indexed.settle (indexed : Indexed state) (settled : AllCommitted state) :
    Indexed ⟨state.engine.reopen, state.schema, state.identity, []⟩ := by
  have tables : (state.engine.reopen).tables = state.engine.tables := settled.durable
  refine ⟨indexed.tracks.grow ⟨tables ▸ .refl _, rfl, rfl, settled.staged.symm⟩, ?_,
    indexed.listed, nofun⟩
  change MirrorsRows state.engine.durable state.identity.entryAt
  rw [settled.durable]
  exact indexed.mirrors

theorem Exact.settle (exact : Exact state given) (settled : AllCommitted state) :
    Exact ⟨state.engine.reopen, state.schema, state.identity, []⟩ given := by
  have tables : (state.engine.reopen).tables = state.engine.tables := settled.durable
  exact (exact.indexed.settle settled).exact
    (exact.tracks.grow ⟨tables ▸ .refl _, rfl, rfl, settled.staged.symm⟩) exact.known

/-! ### An index that is rebuilt -/

/-- The order in which an entry has its vectors does not matter. -/
theorem Describes.perm {id : RecordId} {entry other : Entry} {record : Given}
    (describes : Describes state id entry record) (sameFrame : other.frameId = entry.frameId)
    (sameVectors : other.vectors.Perm entry.vectors) (identity : IdentityIndex) :
    Describes { state with identity } id other record := by
  obtain ⟨shape, bound, checked, frame, held, holds, whole⟩ := describes.frame
  obtain ⟨sorted, forward, permuted⟩ := List.perm_comp_forall₂ sameVectors holds
  refine ⟨shape, bound, checked, sameFrame ▸ frame, sorted, forward, ?_⟩
  rw [sameFrame]
  exact (permuted.append_right _).trans whole

theorem Indexed.rebuild (indexed : Indexed state) (landed : state.staged = [])
    (flushed : state.engine.unflushed = []) :
    Indexed { state with identity := IdentityIndex.rebuild state.engine } ∧
      ∀ id entry, (IdentityIndex.rebuild state.engine).entryAt id = some entry →
        entry.committed = true := by
  obtain ⟨mirrors, committed⟩ := indexed.mirrors.rebuild flushed
  refine ⟨⟨⟨indexed.tracks.schema, ?_, nofun, ?_⟩, mirrors, ?_, indexed.waits⟩, committed⟩
  · exact fun id entry found => (mirrors.frame id entry found).1.keyed
  · intro item member
    have member : item ∈ state.staged := member
    rw [landed] at member
    cases member
  · intro id entry found open_
    rw [committed id entry found] at open_
    cases open_

theorem Exact.rebuild (exact : Exact state given) (landed : state.staged = [])
    (flushed : state.engine.unflushed = []) :
    Exact { state with identity := IdentityIndex.rebuild state.engine } given ∧
      ∀ id entry, (IdentityIndex.rebuild state.engine).entryAt id = some entry →
        entry.committed = true := by
  obtain ⟨indexed, committed⟩ := exact.indexed.rebuild landed flushed
  refine ⟨indexed.exact ⟨indexed.tracks.schema, indexed.tracks.keyed, ?_, indexed.tracks.staged⟩ ?_,
    committed⟩
  · intro id record was
    obtain ⟨entry, found, describes⟩ := exact.tracks.described id record was
    obtain ⟨rebuilt, there, sameFrame, sameVectors⟩ := exact.mirrors.agree indexed.mirrors found
    exact ⟨rebuilt, there, describes.perm sameFrame sameVectors _⟩
  · intro id entry found
    obtain ⟨first, there, _⟩ := indexed.mirrors.agree exact.mirrors found
    exact exact.known id first there

/-! ### What is read when everything is committed -/

theorem readVectors_total {lossy : κ → List F32 → List F32} {engine : StoreEngine κ}
    (vecFields : List (Nat × String)) {items : List (Nat × Nat)}
    (reads : ∀ item ∈ items, ∃ values, engine.readVector lossy item.2 = .ok values) :
    ∃ vectors, Reader.readVectors lossy engine vecFields items = .ok vectors := by
  induction items with
  | nil => exact ⟨[], rfl⟩
  | cons item rest ih =>
    obtain ⟨vectors, others⟩ := ih fun other later => reads other (List.mem_cons_of_mem _ later)
    obtain ⟨values, first⟩ := reads item List.mem_cons_self
    unfold Reader.readVectors
    cases vecFields.lookup item.1 with
    | none => exact ⟨vectors, others⟩
    | some field => exact ⟨(field, values) :: vectors, by simp [first, others]⟩

theorem readText_total (record : Record) (hasText : Bool) :
    ∃ text, Reader.readText hasText ((record.textValue.map utf8).getD []) = .ok text := by
  unfold Reader.readText
  cases record.textValue with
  | none => exact ⟨none, by simp⟩
  | some text =>
    split
    · exact ⟨none, rfl⟩
    · exact ⟨some text, by simp [required]⟩

/-- A vector of an entry can be read when nothing waits. -/
theorem Indexed.readVector (indexed : Indexed state) (landed : state.engine.pending = [])
    (lossy : κ → List F32 → List F32) {id : RecordId} {entry : Entry} {item : Nat × Nat}
    (found : state.identity.entryAt id = some entry) (member : item ∈ entry.vectors) :
    ∃ row codec, state.engine.tables.vectors[item.2]? = some row ∧
      state.engine.readVector lossy item.2 = .ok (lossy codec row.values) := by
  obtain ⟨vector, inTable, active, _, space⟩ :=
    ((indexed.mirrors.vectors _ entry found).2 item).mp member
  obtain ⟨inside, stored⟩ := indexed.mirrors.spaced item.2 vector inTable
  have spaceRow := List.getElem?_eq_getElem inside
  obtain ⟨codec, coded⟩ : ∃ codec, state.engine.tables.codecs[
      state.engine.tables.spaces[vector.spaceId].codecId]? = some codec :=
    ⟨_, List.getElem?_eq_getElem (indexed.mirrors.coded _ (List.getElem_mem inside))⟩
  refine ⟨vector, codec, inTable, ?_⟩
  simp only [StoreEngine.readVector, landed, List.not_mem_nil, not_false_eq_true,
    Outcome.ensure_true, inTable, active, stored, spaceRow, Option.bind_some, coded]
  rfl

/-- A get of a key finds its record with everything it was given, or nothing when there is none. -/
theorem Exact.get (exact : Exact state given) (settled : AllCommitted state)
    (lossy : κ → List F32 → List F32) {coll : String} {collectionId : Nat} {shape : Shape}
    (bound : state.schema.bound coll = some (collectionId, shape)) (key : Key) :
    match given (collectionId, key.encode) with
    | none => Reader.get lossy state coll key = .ok none
    | some record => record.coll = coll ∧ ∃ stored,
        Reader.get lossy state coll key = .ok (some stored) ∧
        stored.key = key ∧ stored.collection = coll ∧
        CarriesRecord lossy state shape record.record stored := by
  have resolved := Reader.resolveFields_ok.mpr ⟨collectionId, shape, bound, rfl⟩
  cases was : given (collectionId, key.encode) with
  | none =>
    have absent : state.identity.get collectionId key.encode = none := by
      rw [IdentityIndex.get_eq]
      cases found : state.identity.entryAt (collectionId, key.encode) with
      | none => rfl
      | some entry =>
        have known := exact.known _ entry found
        rw [was] at known
        cases known
    simp [Reader.get, resolved, absent]
  | some record =>
    obtain ⟨entry, found, describes⟩ := exact.tracks.described _ _ was
    obtain ⟨described, bound', _, frame, _⟩ := describes.frame
    have same : record.coll = coll := exact.tracks.schema.apart _ _ _ _
      (SchemaRegistry.bound_eq_some.mp bound') (SchemaRegistry.bound_eq_some.mp bound) rfl
    obtain ⟨row, there, _, payload⟩ := frame.row
    have vectors : ∀ item ∈ entry.vectors, ∃ values,
        state.engine.readVector lossy item.2 = .ok values := by
      intro item member
      obtain ⟨_, _, _, read⟩ := exact.indexed.readVector settled.pending lossy found member
      exact ⟨_, read⟩
    obtain ⟨text, textRead⟩ := readText_total record.record shape.textField.isSome
    obtain ⟨read, vectorsRead⟩ := readVectors_total (vecFieldsOf state.schema shape) vectors
    have materialized : Reader.materialize lossy state.engine key coll entry
        ⟨collectionId, shape.textField.isSome, vecFieldsOf state.schema shape⟩ =
          .ok ⟨key, coll, row.createdAt, text, read⟩ := by
      rw [← payload] at textRead
      simp [Reader.materialize, required, there, textRead, vectorsRead]
    refine ⟨same, ⟨key, coll, row.createdAt, text, read⟩, ?_, rfl, rfl, ?_⟩
    · have present : state.identity.get collectionId key.encode = some entry := found
      simp [Reader.get, resolved, present, materialized]
    · refine describes.carries exact.tracks.schema ?_ ?_ materialized
      · rwa [same]
      · rw [settled.staged]
        rfl

/-- A listing has every key of the collection that has a record, once. -/
theorem Exact.keys (exact : Exact state given) (settled : AllCommitted state) {coll : String}
    {collectionId : Nat} {shape : Shape}
    (bound : state.schema.bound coll = some (collectionId, shape)) :
    ∃ keys, Reader.keys state coll = .ok keys ∧ keys.Nodup ∧
      ∀ key, key ∈ keys ↔ (given (collectionId, key.encode)).isSome = true := by
  have resolved := Reader.resolveFields_ok.mpr ⟨collectionId, shape, bound, rfl⟩
  refine ⟨(state.identity.committedKeys collectionId).filterMap Key.decode,
    by simp [Reader.keys, resolved], ?_, ?_⟩
  · refine (state.identity.committedKeys_nodup collectionId).filterMap ?_
    intro first second key one two
    exact (Key.encode_of_decode one).symm.trans (Key.encode_of_decode two)
  · intro key
    have listed : key ∈ (state.identity.committedKeys collectionId).filterMap Key.decode ↔
        key.encode ∈ state.identity.committedKeys collectionId := by
      rw [List.mem_filterMap]
      constructor
      · rintro ⟨bytes, member, decoded⟩
        rwa [Key.encode_of_decode decoded]
      · exact fun member => ⟨key.encode, member, Key.decode_encode key⟩
    rw [listed, IdentityIndex.mem_committedKeys]
    constructor
    · rintro ⟨entry, found, _⟩
      exact exact.known _ entry found
    · intro set
      obtain ⟨record, was⟩ := Option.isSome_iff_exists.mp set
      obtain ⟨entry, found, _⟩ := exact.tracks.described _ _ was
      exact ⟨entry, found, settled.committed _ entry found⟩

end Exact

end Valise
