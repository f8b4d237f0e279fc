import Valise.BulkLoads

/-!
Runs of a bulk loader: what they put does not depend on where its windows end, and a put is refused
only for a version that the writer held before the loader was made.
-/

namespace Valise

open Commands Command Outcomes Runs Writer

/-! ### What a writer holds -/

/-- What the record of the item changes among those that were given. -/
def BulkPut.gives {γ : Type} (schema : SchemaRegistry γ) (given : RecordId → Option Given)
    (item : BulkPut) : RecordId → Option Given :=
  match schema.bound item.coll with
  | none => given
  | some (collectionId, _) =>
      Function.update given (collectionId, item.key.encode) (some ⟨item.coll, item.record⟩)

/-- The writer's collections are those of a schema. -/
structure Holds {κ γ : Type} (schema : SchemaRegistry γ) (given : RecordId → Option Given)
    (writer : WriterState κ γ) : Prop where
  exact : Exact writer given
  collections : writer.schema.collections = schema.collections

section Holds

variable {κ γ : Type} {codecs : StoreCodecs κ γ} {schema : SchemaRegistry γ}
  {given : RecordId → Option Given} {writer after : WriterState κ γ}

def WriterState.withFaults (writer : WriterState κ γ) (faults : StorePoint → Bool) :
    WriterState κ γ :=
  { writer with engine := { writer.engine with faults } }

theorem SchemaRegistry.bound_congr {first second : SchemaRegistry γ}
    (same : first.collections = second.collections) (coll : String) :
    first.bound coll = second.bound coll := by
  unfold SchemaRegistry.bound
  rw [same]

theorem Holds.withFaults (holds : Holds schema given writer) (faults : StorePoint → Bool) :
    Holds schema given (writer.withFaults faults) :=
  ⟨⟨holds.exact.tracks.grow ⟨.refl _, rfl, rfl, rfl⟩, holds.exact.mirrors, holds.exact.known,
    holds.exact.listed, holds.exact.waits⟩, holds.collections⟩

theorem Holds.put (holds : Holds schema given writer) {item : BulkPut} {now : Int64}
    (done : Writer.put item.coll item.key item.record now writer = (.ok (), after)) :
    Holds schema (item.gives schema given) after := by
  obtain ⟨plan, done⟩ := put_ok done
  obtain ⟨shape, plans⟩ := resolvePlan_ok done.planned
  have bound := plans.bound
  rw [SchemaRegistry.bound_congr holds.collections] at bound
  refine ⟨?_, by rw [done.schema, holds.collections]⟩
  unfold BulkPut.gives
  rw [bound]
  exact holds.exact.put done

theorem Holds.commit (holds : Holds schema given writer)
    (done : Writer.commit codecs writer = (.ok (), after)) :
    Holds schema given after ∧ AllCommitted after := by
  have done := commit_ok done
  obtain ⟨exact, settled⟩ := holds.exact.commit done
  refine ⟨⟨exact, ?_⟩, settled⟩
  obtain ⟨middle, engine, flushed, _, rfl⟩ := done.committed
  change middle.schema.collections = _
  rw [← holds.collections]
  rcases flushed with ⟨_, rfl⟩ | ⟨_, flushed⟩
  · rfl
  · obtain ⟨_, _, _, _, _, _, rfl⟩ := flushed.flushed
    rfl

theorem AllCommitted.not_holdsUncommitted (settled : AllCommitted writer) (coll : String)
    (key : Key) : ¬writer.HoldsUncommitted coll key := by
  rintro ⟨record, entry, _, found, waits, _⟩
  rw [settled.committed _ entry found] at waits
  cases waits

/-- A put changes what is held of its own key only. -/
theorem Holds.uncommitted_put (holds : Holds schema given writer) {item : BulkPut} {now : Int64}
    (done : Writer.put item.coll item.key item.record now writer = (.ok (), after)) {coll : String}
    {key : Key} (other : ¬(coll = item.coll ∧ key = item.key)) :
    after.HoldsUncommitted coll key ↔ writer.HoldsUncommitted coll key := by
  obtain ⟨plan, done⟩ := put_ok done
  obtain ⟨shape, plans⟩ := resolvePlan_ok done.planned
  have known := SchemaRegistry.bound_eq_some.mp plans.bound
  have same (record : CollectionRecord)
      (found : writer.schema.collections.lookup coll = some record) :
      after.identity.get record.collectionId key.encode =
        writer.identity.get record.collectionId key.encode := by
    rw [done.identity, IdentityIndex.get_eq, IdentityIndex.entryAt_insert, if_neg]
    · rfl
    · intro clash
      obtain ⟨collection, bytes⟩ := Prod.mk.inj clash
      exact other ⟨holds.exact.tracks.schema.apart _ _ _ _ found known collection,
        Key.encode_inj.mp bytes⟩
  unfold WriterState.HoldsUncommitted
  rw [done.schema]
  constructor
  · rintro ⟨record, entry, found, at_, waits⟩
    exact ⟨record, entry, found, (same record found) ▸ at_, waits⟩
  · rintro ⟨record, entry, found, at_, waits⟩
    exact ⟨record, entry, found, (same record found).trans at_, waits⟩

end Holds

/-- A run ends with its last put. -/
theorem inTurn_snoc {σ : Type} {call : CallEnv → BulkPut → Command σ Error Unit}
    {env : Nat → CallEnv} {items : List BulkPut} {item : BulkPut} {state final : σ} :
    inTurn call env (items ++ [item]) state = (.ok (), final) ↔
      ∃ middle, inTurn call env items state = (.ok (), middle) ∧
        call (env items.length) item middle = (.ok (), final) := by
  induction items generalizing env state with
  | nil =>
      constructor
      · intro done
        obtain ⟨_, _, added, last⟩ := bind_eq_ok.mp done
        obtain ⟨_, rfl⟩ := pure_eq_ok.mp last
        exact ⟨state, rfl, added⟩
      · rintro ⟨_, nothing, added⟩
        obtain ⟨_, rfl⟩ := pure_eq_ok.mp nothing
        exact bind_eq_ok.mpr ⟨(), final, added, rfl⟩
  | cons first rest ih =>
      constructor
      · intro done
        obtain ⟨_, reached, added, others⟩ := bind_eq_ok.mp done
        obtain ⟨middle, earlier, last⟩ := ih.mp others
        exact ⟨middle, bind_eq_ok.mpr ⟨(), reached, added, earlier⟩, last⟩
      · rintro ⟨middle, earlier, last⟩
        obtain ⟨_, reached, added, others⟩ := bind_eq_ok.mp earlier
        exact bind_eq_ok.mpr ⟨(), reached, added, ih.mpr ⟨middle, others, last⟩⟩

namespace Bulk

section Calls

variable {κ γ : Type} {digest : String → Key → UInt64} {codecs : StoreCodecs κ γ}
  {bulk after : Bulk κ γ}

/-! ### Calls that return -/

theorem onWriter_ok {α : Type} {call : WriterCall κ γ α} {value : α} :
    onWriter call bulk = (.ok value, after) ↔
      ∃ writer, call bulk.writer = (.ok value, writer) ∧ after = { bulk with writer } := by
  unfold onWriter
  cases result : call bulk.writer with
  | mk outcome writer =>
      simp only [Prod.mk.injEq]
      constructor
      · rintro ⟨rfl, rfl⟩
        exact ⟨writer, ⟨rfl, rfl⟩, rfl⟩
      · rintro ⟨_, ⟨rfl, rfl⟩, rfl⟩
        exact ⟨rfl, rfl⟩

/-- The window was committed. -/
def Flushed (codecs : StoreCodecs κ γ) (before after : Bulk κ γ) : Prop :=
  ∃ writer, Writer.commit codecs before.writer = (.ok (), writer) ∧
    after = { before with writer, pending := 0, seen := [] }

theorem flush_ok (done : flush codecs bulk = (.ok (), after)) :
    bulk.pending = 0 ∧ after = bulk ∨ Flushed codecs bulk after := by
  obtain ⟨_, _, read, rest⟩ := bind_eq_ok.mp done
  obtain ⟨rfl, rfl⟩ := get_eq_ok.mp read
  split at rest
  · rename_i nothing
    obtain ⟨_, rfl⟩ := pure_eq_ok.mp rest
    exact .inl ⟨nothing, rfl⟩
  · obtain ⟨_, _, called, cleared⟩ := bind_eq_ok.mp rest
    obtain ⟨writer, committed, rfl⟩ := onWriter_ok.mp called
    exact .inr ⟨writer, committed, (modify_eq_ok.mp cleared).symm⟩

theorem flushRepeated_ok {coll : String} {key : Key}
    (done : flushRepeated digest codecs coll key bulk = (.ok (), after)) :
    digest coll key ∈ bulk.seen ∧ flush codecs bulk = (.ok (), after) ∨
      digest coll key ∉ bulk.seen ∧ after = bulk := by
  obtain ⟨_, _, read, rest⟩ := bind_eq_ok.mp done
  obtain ⟨rfl, rfl⟩ := get_eq_ok.mp read
  split at rest
  · rename_i repeated
    exact .inl ⟨repeated, rest⟩
  · rename_i new
    obtain ⟨_, rfl⟩ := pure_eq_ok.mp rest
    exact .inr ⟨new, rfl⟩

theorem flushFull_ok (done : flushFull codecs bulk = (.ok (), after)) :
    bulk.threshold ≤ bulk.pending ∧ flush codecs bulk = (.ok (), after) ∨
      bulk.pending < bulk.threshold ∧ after = bulk := by
  obtain ⟨_, _, read, rest⟩ := bind_eq_ok.mp done
  obtain ⟨rfl, rfl⟩ := get_eq_ok.mp read
  split at rest
  · rename_i full
    exact .inl ⟨full, rest⟩
  · rename_i room
    obtain ⟨_, rfl⟩ := pure_eq_ok.mp rest
    exact .inr ⟨not_le.mp room, rfl⟩

/-- The loader with one more put in its window. -/
def taking (digest : String → Key → UInt64) (bulk : Bulk κ γ) (item : BulkPut)
    (writer : WriterState κ γ) : Bulk κ γ :=
  { bulk with
    writer
    seen := bulk.seen ++ [digest item.coll item.key]
    pending := bulk.pending + 1 }

def withFaults (bulk : Bulk κ γ) (faults : StorePoint → Bool) : Bulk κ γ :=
  { bulk with writer := bulk.writer.withFaults faults }

theorem put_ok {item : BulkPut} {now : Int64}
    (done : put digest codecs item.coll item.key item.record now bulk = (.ok (), after)) :
    ∃ ready writer, flushRepeated digest codecs item.coll item.key bulk = (.ok (), ready) ∧
      Writer.put item.coll item.key item.record now ready.writer = (.ok (), writer) ∧
      flushFull codecs (ready.taking digest item writer) = (.ok (), after) := by
  obtain ⟨_, ready, repeated, rest⟩ := bind_eq_ok.mp done
  obtain ⟨_, _, called, rest⟩ := bind_eq_ok.mp rest
  obtain ⟨writer, written, rfl⟩ := onWriter_ok.mp called
  obtain ⟨_, _, noted, full⟩ := bind_eq_ok.mp rest
  obtain rfl := modify_eq_ok.mp noted
  exact ⟨ready, writer, repeated, written, full⟩

theorem puts_snoc {env : Nat → CallEnv} {items : List BulkPut} {item : BulkPut} :
    puts digest codecs env (items ++ [item]) bulk = (.ok (), after) ↔
      ∃ middle, puts digest codecs env items bulk = (.ok (), middle) ∧
        put digest codecs item.coll item.key item.record (env items.length).now
          (middle.withFaults (env items.length).faults) = (.ok (), after) := inTurn_snoc

theorem writes_snoc {env : Nat → CallEnv} {items : List BulkPut} {item : BulkPut}
    {writer written : WriterState κ γ} :
    writes env (items ++ [item]) writer = (.ok (), written) ↔
      ∃ middle, writes env items writer = (.ok (), middle) ∧
        Writer.put item.coll item.key item.record (env items.length).now
          (middle.withFaults (env items.length).faults) = (.ok (), written) := inTurn_snoc

end Calls

/-! ### Windows -/

section Windows

variable {κ γ : Type} {digest : String → Key → UInt64} {codecs : StoreCodecs κ γ}
  {schema : SchemaRegistry γ} {given : RecordId → Option Given} {writer : WriterState κ γ}
  {env : Nat → CallEnv} {before : List BulkPut} {threshold : Nat} {bulk after : Bulk κ γ}

def digests (digest : String → Key → UInt64) (items : List BulkPut) : List UInt64 :=
  items.map fun item => digest item.coll item.key

def givenAfter (schema : SchemaRegistry γ) (given : RecordId → Option Given)
    (items : List BulkPut) : RecordId → Option Given :=
  items.foldl (BulkPut.gives schema) given

/-- The first window is the writer's own puts; in a later one, what is not committed is known. -/
inductive Window (digest : String → Key → UInt64) (writer : WriterState κ γ)
    (env : Nat → CallEnv) (before : List BulkPut) (bulk : Bulk κ γ) : Prop where
  | first : bulk.seen = digests digest before → bulk.seen.Nodup →
      writes env before writer = (.ok (), bulk.writer) → Window digest writer env before bulk
  | later : before ≠ [] → (∀ coll key, bulk.writer.HoldsUncommitted coll key →
      digest coll key ∈ bulk.seen) → Window digest writer env before bulk

structure Loading (digest : String → Key → UInt64) (schema : SchemaRegistry γ)
    (given : RecordId → Option Given) (writer : WriterState κ γ) (threshold : Nat)
    (env : Nat → CallEnv) (before : List BulkPut) (bulk : Bulk κ γ) : Prop where
  holds : Holds schema (givenAfter schema given before) bulk.writer
  counts : bulk.pending = bulk.seen.length
  limit : bulk.threshold = max threshold 1
  room : bulk.pending < bulk.threshold
  landed : bulk.pending = 0 → before = [] ∨ AllCommitted bulk.writer
  window : Window digest writer env before bulk

theorem new_loading (holds : Holds schema given writer) :
    Loading digest schema given writer threshold env [] (new writer threshold) where
  holds := holds
  counts := rfl
  limit := rfl
  room := Nat.lt_of_lt_of_le Nat.one_pos (Nat.le_max_right _ _)
  landed := fun _ => .inl rfl
  window := .first rfl .nil rfl

theorem flush_pending (done : flush codecs bulk = (.ok (), after)) (waits : bulk.pending ≠ 0) :
    Flushed codecs bulk after := by
  rcases flush_ok done with ⟨nothing, _⟩ | flushed
  · exact absurd nothing waits
  · exact flushed

/-- What comes in front of a put leaves a window that does not have its key. -/
inductive Ready (digest : String → Key → UInt64) (bulk : Bulk κ γ) (item : BulkPut) :
    Bulk κ γ → Prop where
  | same : digest item.coll item.key ∉ bulk.seen → Ready digest bulk item bulk
  | flushed {writer : WriterState κ γ} : AllCommitted writer →
      Ready digest bulk item { bulk with writer, pending := 0, seen := [] }

theorem Loading.ready (loading : Loading digest schema given writer threshold env before bulk)
    {faults : StorePoint → Bool} {item : BulkPut}
    (repeated : flushRepeated digest codecs item.coll item.key (bulk.withFaults faults) =
      (.ok (), after)) :
    Holds schema (givenAfter schema given before) after.writer ∧
      Ready digest (bulk.withFaults faults) item after := by
  have entered := loading.holds.withFaults faults
  rcases flushRepeated_ok repeated with ⟨seen, flushed⟩ | ⟨new, rfl⟩
  · have waits : (bulk.withFaults faults).pending ≠ 0 := by
      change bulk.pending ≠ 0
      rw [loading.counts]
      exact Nat.pos_iff_ne_zero.mp (List.length_pos_of_mem seen)
    obtain ⟨committed, done, rfl⟩ := flush_pending flushed waits
    obtain ⟨holds, settled⟩ := entered.commit done
    exact ⟨holds, .flushed settled⟩
  · exact ⟨entered, .same new⟩

theorem givenAfter_snoc (schema : SchemaRegistry γ) (given : RecordId → Option Given)
    (items : List BulkPut) (item : BulkPut) :
    givenAfter schema given (items ++ [item]) =
      item.gives schema (givenAfter schema given items) := by
  unfold givenAfter
  rw [List.foldl_concat]

theorem uncommitted_taken {held : RecordId → Option Given} {ready : WriterState κ γ}
    {written : WriterState κ γ} {item : BulkPut} {now : Int64} (holds : Holds schema held ready)
    (put : Writer.put item.coll item.key item.record now ready = (.ok (), written))
    {seen : List UInt64}
    (known : ∀ coll key, ready.HoldsUncommitted coll key → digest coll key ∈ seen)
    (coll : String) (key : Key) (waits : written.HoldsUncommitted coll key) :
    digest coll key ∈ seen ++ [digest item.coll item.key] := by
  by_cases same : coll = item.coll ∧ key = item.key
  · rw [same.1, same.2]
    exact List.mem_append_right _ (List.mem_singleton_self _)
  · exact List.mem_append_left _ (known coll key ((holds.uncommitted_put put same).mp waits))

theorem Window.put (window : Window digest writer env before bulk) {ready : Bulk κ γ}
    {item : BulkPut} {written : WriterState κ γ} {held : RecordId → Option Given}
    (found : Ready digest (bulk.withFaults (env before.length).faults) item ready)
    (holds : Holds schema held ready.writer)
    (put : Writer.put item.coll item.key item.record (env before.length).now ready.writer =
      (.ok (), written)) :
    Window digest writer env (before ++ [item]) (ready.taking digest item written) := by
  have grown : before ++ [item] ≠ [] := List.append_ne_nil_of_right_ne_nil _ (List.cons_ne_nil _ _)
  cases found with
  | same new =>
      cases window with
      | first seen nodup wrote =>
          refine .first ?_ ?_ (writes_snoc.mpr ⟨bulk.writer, wrote, put⟩)
          · change bulk.seen ++ _ = _
            rw [seen, digests, digests, List.map_append, List.map_singleton]
          · exact List.nodup_append.mpr ⟨nodup, List.nodup_singleton _, fun one there other last =>
              fun same => new ((List.mem_singleton.mp last) ▸ same ▸ there)⟩
      | later _ known => exact .later grown (uncommitted_taken holds put known)
  | flushed settled =>
      exact .later grown (uncommitted_taken holds put fun coll key waits =>
        absurd waits (settled.not_holdsUncommitted coll key))

theorem Ready.taking {ready : Bulk κ γ} {item : BulkPut} (found : Ready digest bulk item ready)
    (counts : bulk.pending = bulk.seen.length) :
    ready.pending = ready.seen.length ∧ ready.threshold = bulk.threshold := by
  cases found with
  | same _ => exact ⟨counts, rfl⟩
  | flushed _ => exact ⟨rfl, rfl⟩

theorem Loading.put (loading : Loading digest schema given writer threshold env before bulk)
    {item : BulkPut} (done : Bulk.put digest codecs item.coll item.key item.record
      (env before.length).now (bulk.withFaults (env before.length).faults) = (.ok (), after)) :
    Loading digest schema given writer threshold env (before ++ [item]) after := by
  obtain ⟨ready, written, repeated, put, full⟩ := put_ok done
  obtain ⟨holds, found⟩ := loading.ready repeated
  have putHolds := holds.put put
  rw [← givenAfter_snoc] at putHolds
  obtain ⟨counts, limit⟩ := found.taking loading.counts
  have window := loading.window.put found holds put
  have waits : (ready.taking digest item written).pending ≠ 0 := Nat.succ_ne_zero _
  have counts : (ready.taking digest item written).pending =
      (ready.taking digest item written).seen.length := by
    change ready.pending + 1 = (ready.seen ++ _).length
    rw [counts, List.length_append, List.length_singleton]
  have limit : (ready.taking digest item written).threshold = max threshold 1 :=
    limit.trans loading.limit
  rcases flushFull_ok full with ⟨_, flushed⟩ | ⟨room, rfl⟩
  · obtain ⟨committed, commits, rfl⟩ := flush_pending flushed waits
    obtain ⟨kept, settled⟩ := putHolds.commit commits
    refine ⟨kept, rfl, limit, ?_, fun _ => .inr settled, .later ?_ ?_⟩
    · change 0 < _
      rw [limit]
      exact Nat.lt_of_lt_of_le Nat.one_pos (Nat.le_max_right _ _)
    · exact List.append_ne_nil_of_right_ne_nil _ (List.cons_ne_nil _ _)
    · exact fun coll key held => absurd held (settled.not_holdsUncommitted coll key)
  · exact ⟨putHolds, counts, limit, room, fun none => absurd none waits, window⟩

/-- What holds of a loader holds after every sequence of puts that return. -/
theorem loading_of_puts (holds : Holds schema given writer)
    (done : puts digest codecs env before (new writer threshold) = (.ok (), bulk)) :
    Loading digest schema given writer threshold env before bulk := by
  induction before using List.reverseRecOn generalizing bulk with
  | nil =>
      obtain ⟨_, rfl⟩ := pure_eq_ok.mp done
      exact new_loading holds
  | append_singleton before item ih =>
      obtain ⟨middle, earlier, put⟩ := puts_snoc.mp done
      exact (ih earlier).put put

/-! ### Refused puts -/

/-- The writer's own puts change what it holds of their keys only. -/
theorem writes_holds (digest : String → Key → UInt64) {state : WriterState κ γ} (holds : Holds schema given writer)
    (done : writes env before writer = (.ok (), state)) :
    Holds schema (givenAfter schema given before) state ∧ ∀ coll key,
      digest coll key ∉ digests digest before →
      (state.HoldsUncommitted coll key ↔ writer.HoldsUncommitted coll key) := by
  induction before using List.reverseRecOn generalizing state with
  | nil =>
      obtain ⟨_, rfl⟩ := pure_eq_ok.mp done
      exact ⟨holds, fun _ _ _ => Iff.rfl⟩
  | append_singleton before item ih =>
      obtain ⟨middle, earlier, put⟩ := writes_snoc.mp done
      obtain ⟨reached, same⟩ := ih earlier
      have entered := reached.withFaults (env before.length).faults
      refine ⟨givenAfter_snoc schema given before item ▸ entered.put put, ?_⟩
      intro coll key new
      rw [digests, List.map_append, List.mem_append, not_or] at new
      have other : ¬(coll = item.coll ∧ key = item.key) := by
        rintro ⟨rfl, rfl⟩
        exact new.2 (List.mem_singleton_self _)
      exact (entered.uncommitted_put put other).trans (same coll key new.1)

theorem refuses_iff {callEnv : CallEnv} {item : BulkPut} :
    Refuses digest codecs callEnv bulk item ↔ ∃ ready,
      flushRepeated digest codecs item.coll item.key (bulk.withFaults callEnv.faults) =
        (.ok (), ready) ∧
      ready.writer.Accepts item.coll item.record ∧
      ready.writer.HoldsUncommitted item.coll item.key := by
  unfold Refuses
  constructor
  · rintro ⟨ready, reached, refused⟩
    obtain ⟨_, _, entered, repeated⟩ := bind_eq_ok.mp reached
    obtain rfl := modify_eq_ok.mp entered
    exact ⟨ready, repeated, Writer.put_refused.mp refused⟩
  · rintro ⟨ready, repeated, refused⟩
    exact ⟨ready, bind_eq_ok.mpr ⟨(), _, rfl, repeated⟩, Writer.put_refused.mpr refused⟩

theorem flushRepeated_new {coll : String} {key : Key} (new : digest coll key ∉ bulk.seen) :
    flushRepeated digest codecs coll key bulk = (.ok (), bulk) := by
  refine bind_eq_ok.mpr ⟨bulk, bulk, rfl, ?_⟩
  rw [if_neg new]
  rfl

theorem flushFull_room (room : bulk.pending < bulk.threshold) :
    flushFull codecs bulk = (.ok (), bulk) := by
  refine bind_eq_ok.mpr ⟨bulk, bulk, rfl, ?_⟩
  rw [if_neg (not_le.mpr room)]
  rfl

/-- With room for another one, a put of a new key is the writer's. -/
theorem put_room {item : BulkPut} {now : Int64} {written : WriterState κ γ}
    (new : digest item.coll item.key ∉ bulk.seen)
    (done : Writer.put item.coll item.key item.record now bulk.writer = (.ok (), written))
    (room : bulk.pending + 1 < bulk.threshold) :
    put digest codecs item.coll item.key item.record now bulk =
      (.ok (), bulk.taking digest item written) := by
  refine bind_eq_ok.mpr ⟨(), bulk, flushRepeated_new new, ?_⟩
  refine bind_eq_ok.mpr ⟨(), _, onWriter_ok.mpr ⟨written, done, rfl⟩, ?_⟩
  exact bind_eq_ok.mpr ⟨(), bulk.taking digest item written, rfl, flushFull_room room⟩

/-- The first put is refused at every threshold or at none. -/
theorem refusedAt_first {item : BulkPut} :
    RefusedAt digest codecs writer threshold env [] item ↔
      writer.Accepts item.coll item.record ∧ writer.HoldsUncommitted item.coll item.key := by
  constructor
  · rintro ⟨_, nothing, refused⟩
    obtain ⟨_, rfl⟩ := pure_eq_ok.mp nothing
    obtain ⟨ready, repeated, accepts, held⟩ := refuses_iff.mp refused
    rw [flushRepeated_new List.not_mem_nil] at repeated
    obtain rfl := (Prod.mk.inj repeated).2
    exact ⟨accepts, held⟩
  · intro refused
    refine ⟨_, rfl, refuses_iff.mpr ⟨_, flushRepeated_new List.not_mem_nil, refused⟩⟩

theorem digests_snoc (items : List BulkPut) (item : BulkPut) :
    digests digest (items ++ [item]) = digests digest items ++ [digest item.coll item.key] := by
  rw [digests, digests, List.map_append, List.map_singleton]

/-- A put is refused only in the first window, for a version that the writer held before. -/
theorem of_refusedAt (holds : Holds schema given writer) {item : BulkPut}
    (refused : RefusedAt digest codecs writer threshold env before item) :
    (digests digest (before ++ [item])).Nodup ∧ Reaches writer before item ∧
      writer.HoldsUncommitted item.coll item.key := by
  obtain ⟨bulk, done, refused⟩ := refused
  have loading := loading_of_puts holds done
  obtain ⟨ready, repeated, accepts, held⟩ := refuses_iff.mp refused
  obtain ⟨_, found⟩ := loading.ready repeated
  cases found with
  | flushed settled => exact absurd held (settled.not_holdsUncommitted _ _)
  | same new =>
      cases loading.window with
      | later _ known => exact absurd (known _ _ held) new
      | first seen nodup wrote =>
          have new : digest item.coll item.key ∉ digests digest before := seen ▸ new
          obtain ⟨_, same⟩ := writes_holds digest holds wrote
          refine ⟨?_, ⟨env, bulk.writer, wrote, accepts⟩, (same _ _ new).mp held⟩
          rw [digests_snoc]
          refine List.nodup_append.mpr ⟨seen ▸ nodup, List.nodup_singleton _, ?_⟩
          intro one there other last same
          exact new ((List.mem_singleton.mp last) ▸ same ▸ there)

/-- With a commit after each put, only the first one can be refused. -/
theorem not_refusedAt_one (holds : Holds schema given writer) {item : BulkPut}
    (more : before ≠ []) : ¬RefusedAt digest codecs writer 1 env before item := by
  rintro ⟨bulk, done, refused⟩
  have loading := loading_of_puts holds done
  have committed : AllCommitted bulk.writer := by
    refine (loading.landed ?_).resolve_left more
    have room := loading.room
    rw [loading.limit] at room
    exact Nat.lt_one_iff.mp room
  obtain ⟨ready, repeated, _, held⟩ := refuses_iff.mp refused
  obtain ⟨_, found⟩ := loading.ready repeated
  cases found with
  | flushed settled => exact settled.not_holdsUncommitted _ _ held
  | same _ => exact committed.not_holdsUncommitted _ _ held

/-- Below its threshold the loader only writes. -/
theorem puts_of_writes {state : WriterState κ γ}
    (done : writes env before writer = (.ok (), state)) (nodup : (digests digest before).Nodup)
    (few : before.length < threshold) :
    puts digest codecs env before (new writer threshold) =
      (.ok (), ⟨state, threshold, before.length, digests digest before⟩) := by
  induction before using List.reverseRecOn generalizing state with
  | nil =>
      obtain ⟨_, rfl⟩ := pure_eq_ok.mp done
      refine pure_eq_ok.mpr ⟨rfl, ?_⟩
      have least : max threshold 1 = threshold := Nat.max_eq_left few
      rw [new, least]
      rfl
  | append_singleton before item ih =>
      obtain ⟨middle, earlier, put⟩ := writes_snoc.mp done
      rw [digests_snoc] at nodup ⊢
      rw [List.length_append, List.length_singleton] at few
      obtain ⟨others, _, apart⟩ := List.nodup_append.mp nodup
      have reached := ih earlier others (Nat.lt_of_succ_lt few)
      have new : digest item.coll item.key ∉ digests digest before := fun there =>
        apart _ there _ (List.mem_singleton_self _) rfl
      rw [List.length_append, List.length_singleton]
      exact puts_snoc.mpr ⟨_, reached, put_room new put few⟩

theorem refusedAt_of_writes (codecs : StoreCodecs κ γ) (holds : Holds schema given writer) {item : BulkPut}
    (nodup : (digests digest (before ++ [item])).Nodup) {state : WriterState κ γ}
    (done : writes env before writer = (.ok (), state))
    (accepts : state.Accepts item.coll item.record)
    (held : writer.HoldsUncommitted item.coll item.key) :
    RefusedAt digest codecs writer (before.length + 1) env before item := by
  rw [digests_snoc] at nodup
  obtain ⟨others, _, apart⟩ := List.nodup_append.mp nodup
  have new : digest item.coll item.key ∉ digests digest before := fun there =>
    apart _ there _ (List.mem_singleton_self _) rfl
  obtain ⟨_, same⟩ := writes_holds digest holds done
  refine ⟨_, puts_of_writes done others (Nat.lt_succ_self _), ?_⟩
  exact refuses_iff.mpr ⟨_, flushRepeated_new new, accepts, (same _ _ new).mpr held⟩

/-! ### What is in the store at the end -/

theorem load_nil : load digest codecs env [] (new writer threshold) =
    (.ok (), (new writer threshold).withFaults (env 0).faults) := rfl

theorem load_ok {items : List BulkPut} (holds : Holds schema given writer)
    (done : load digest codecs env items (new writer threshold) = (.ok (), bulk))
    (more : items ≠ []) :
    Holds schema (givenAfter schema given items) bulk.writer ∧ AllCommitted bulk.writer := by
  obtain ⟨_, reached, put, rest⟩ := bind_eq_ok.mp done
  obtain ⟨_, _, entered, last⟩ := bind_eq_ok.mp rest
  obtain rfl := modify_eq_ok.mp entered
  have loading := loading_of_puts holds put
  have kept := loading.holds.withFaults (env items.length).faults
  rcases flush_ok last with ⟨nothing, rfl⟩ | ⟨committed, commits, rfl⟩
  · have settled := (loading.landed nothing).resolve_left more
    exact ⟨kept, settled.staged, settled.pending, settled.unflushed, settled.durable,
      settled.committed⟩
  · exact kept.commit commits

theorem givenAfter_dated (dated : AllDated given) (items : List BulkPut) :
    AllDated (givenAfter schema given items) := by
  induction items using List.reverseRecOn with
  | nil => exact dated
  | append_singleton items item ih =>
      rw [givenAfter_snoc]
      unfold BulkPut.gives
      cases schema.bound item.coll with
      | none => exact ih
      | some found =>
          refine ih.update _ ?_
          rintro _ ⟨⟩
          rfl

theorem readVectors_withFaults (lossy : κ → List F32 → List F32) (engine : StoreEngine κ)
    (faults : StorePoint → Bool) (vecFields : List (Nat × String)) (items : List (Nat × Nat)) :
    Reader.readVectors lossy { engine with faults } vecFields items =
      Reader.readVectors lossy engine vecFields items := by
  induction items with
  | nil => rfl
  | cons item rest ih =>
      unfold Reader.readVectors
      rw [ih]
      rfl

theorem get_withFaults (lossy : κ → List F32 → List F32) (faults : StorePoint → Bool) (coll : String)
    (key : Key) :
    Reader.get lossy (writer.withFaults faults) coll key = Reader.get lossy writer coll key := by
  simp only [Reader.get, Reader.materialize, WriterState.withFaults, readVectors_withFaults]

theorem sameAnswer_refl (answer : Result (Option StoredRecord)) : SameAnswer answer answer := by
  rcases answer with (_ | stored) | error | _
  · trivial
  · exact ⟨rfl, rfl, fun _ => Iff.rfl⟩
  · exact rfl
  · trivial

/-- A collection that is not there, or that has no shape, is reported the same way. -/
theorem get_unbound (lossy : κ → List F32 → List F32) {coll : String}
    (unbound : schema.bound coll = none) : ∃ error, ∀ state : WriterState κ γ,
      state.schema.collections = schema.collections → ∀ key,
        Reader.get lossy state coll key = .err error := by
  unfold SchemaRegistry.bound at unbound
  cases known : schema.collections.lookup coll with
  | none =>
      refine ⟨.format s!"unknown collection '{coll}'", fun state same key => ?_⟩
      simp only [Reader.get, Reader.resolveFields, same, known, required]
      rfl
  | some record =>
      obtain ⟨collectionId, _ | shape⟩ := record
      · refine ⟨.format s!"collection '{coll}' has no schema in this process; call collection(name, schema)",
          fun state same key => ?_⟩
        simp only [Reader.get, Reader.resolveFields, same, known, required, Outcome.ok_bind]
        rfl
      · rw [known] at unbound
        cases unbound

theorem carries_names {lossy : κ → List F32 → List F32} {state : WriterState κ γ} {shape : Shape}
    {record : Record} {stored : StoredRecord}
    (carries : CarriesRecord lossy state shape record stored) (name : String) :
    name ∈ stored.vectors.map (·.1) ↔ name ∈ record.vectorValues.map (·.1) := by
  obtain ⟨read, fields, same⟩ := carries.vectors
  have names : read.map (·.1) = record.vectorValues.map (·.1) := by
    clear same
    generalize record.vectorValues = values at fields
    induction fields with
    | nil => rfl
    | cons first _ ih => rw [List.map_cons, List.map_cons, first.1, ih]
  rw [(same.map _).mem_iff, names]

/-- What is read after a commit depends on the records that were given, but for the codecs. -/
theorem get_sameAnswer {first second : WriterState κ γ} (dated : AllDated given)
    (firstHolds : Holds schema given first) (secondHolds : Holds schema given second)
    (firstSettled : AllCommitted first) (secondSettled : AllCommitted second)
    (lossy : κ → List F32 → List F32) (coll : String) (key : Key) :
    SameAnswer (Reader.get lossy first coll key) (Reader.get lossy second coll key) := by
  cases bound : schema.bound coll with
  | none =>
      obtain ⟨error, fails⟩ := get_unbound lossy bound
      rw [fails first firstHolds.collections key, fails second secondHolds.collections key]
      exact rfl
  | some found =>
      obtain ⟨collectionId, shape⟩ := found
      have one := firstHolds.exact.get firstSettled lossy
        ((SchemaRegistry.bound_congr firstHolds.collections coll).trans bound) key
      have two := secondHolds.exact.get secondSettled lossy
        ((SchemaRegistry.bound_congr secondHolds.collections coll).trans bound) key
      cases was : given (collectionId, key.encode) with
      | none =>
          rw [was] at one two
          rw [one, two]
          trivial
      | some record =>
          rw [was] at one two
          obtain ⟨_, stored, read, _, _, carries⟩ := one
          obtain ⟨_, other, again, _, _, others⟩ := two
          obtain ⟨time, created⟩ := Option.isSome_iff_exists.mp (dated _ record was)
          rw [read, again]
          refine ⟨carries.text.trans others.text.symm, ?_, fun name => ?_⟩
          · exact (carries.created time created).trans (others.created time created).symm
          · exact (carries_names carries name).trans (carries_names others name).symm

end Windows

/-- The threshold of a loader makes no difference exactly when, up to the first repeated key, it is
given no key but the first that the writer already held with uncommitted vectors. -/
theorem sizeIndependent_iff {κ γ : Type} (digest : String → Key → UInt64)
    (codecs : StoreCodecs κ γ) {store : OpenStore κ γ}
    (reachable : Reachable OpenStore.Created (OpenStore.Step codecs) store)
    (items : List BulkPut) :
    SizeIndependent digest codecs store.state items ↔ WindowFree digest store.state items := by
  obtain ⟨given, exact, dated⟩ := (OpenStore.reachable_held reachable).exact
  have holds : Holds store.state.schema given store.state := ⟨exact, rfl⟩
  constructor
  · intro independent before item after parts more nodup ⟨env, state, wrote, accepts⟩ held
    have refused := refusedAt_of_writes codecs holds nodup wrote accepts held
    have agree := (independent (before.length + 1) 1 env env).1 before item after parts
    exact not_refusedAt_one holds more (agree.mp refused)
  · intro free first second firstEnv secondEnv
    constructor
    · intro before item after parts
      by_cases more : before = []
      · obtain rfl := more
        rw [refusedAt_first, refusedAt_first]
      · have never (threshold : Nat) (env : Nat → CallEnv) :
            ¬RefusedAt digest codecs store.state threshold env before item := by
          intro refused
          obtain ⟨nodup, reaches, held⟩ := of_refusedAt holds refused
          exact free before item after parts more nodup reaches held
        exact ⟨fun refused => absurd refused (never _ _), fun refused => absurd refused (never _ _)⟩
    · intro firstBulk secondBulk firstDone secondDone coll key
      by_cases more : items = []
      · obtain rfl := more
        rw [load_nil] at firstDone secondDone
        obtain rfl := (Prod.mk.inj firstDone).2
        obtain rfl := (Prod.mk.inj secondDone).2
        change SameAnswer (Reader.get _ (store.state.withFaults _) _ _)
          (Reader.get _ (store.state.withFaults _) _ _)
        rw [get_withFaults, get_withFaults]
        exact sameAnswer_refl _
      · obtain ⟨firstHolds, firstSettled⟩ := load_ok holds firstDone more
        obtain ⟨secondHolds, secondSettled⟩ := load_ok holds secondDone more
        exact get_sameAnswer (givenAfter_dated dated items) firstHolds secondHolds firstSettled
          secondSettled codecs.lossy coll key

section Examples

open StoreSession (note noteKey notesSchema notesSchema_sound exactCodecs)

def numberDigest (_ : String) : Key → UInt64
  | .u64 number => number
  | _ => 0

def notePut (number : UInt64) : BulkPut where
  coll := "notes"
  key := .u64 number
  fields := note.fields
  createdAt := 5

def notesOpen : OpenStore Unit Unit where
  declared := notesSchema
  engine := {}
  schema := notesSchema.restore []
  identity := {}
  writer := some []

def noteKept : OpenStore Unit Unit :=
  notesOpen.wrote (Writer.put "notes" noteKey note 5 notesOpen.state).2

def noteCalibrated : OpenStore Unit Unit :=
  noteKept.wrote (Writer.commit exactCodecs noteKept.state).2

/-- The first note has calibrated its space; the second is not committed. -/
def heldNote : OpenStore Unit Unit :=
  noteCalibrated.wrote (Writer.put "notes" (.u64 8) note 5 noteCalibrated.state).2

theorem heldNote_reachable : Reachable OpenStore.Created (OpenStore.Step exactCodecs) heldNote := by
  have created : ({ notesOpen with writer := none } : OpenStore Unit Unit).Created :=
    ⟨notesSchema, [], [], fun _ => false, notesSchema_sound 0, nofun, rfl⟩
  have opened : Reachable OpenStore.Created (OpenStore.Step exactCodecs) notesOpen :=
    .step (.start created) (.openWriter rfl)
  have kept : Reachable OpenStore.Created (OpenStore.Step exactCodecs) noteKept :=
    opened.step (.put nofun (Prod.ext (by decide +kernel) rfl))
  have calibrated : Reachable OpenStore.Created (OpenStore.Step exactCodecs) noteCalibrated :=
    kept.step (.commit nofun (Prod.ext (by decide +kernel) rfl))
  exact calibrated.step (.put nofun (Prod.ext (by decide +kernel) rfl))

/-- A loader that is given the held note first. -/
theorem heldFirst_independent :
    SizeIndependent numberDigest exactCodecs heldNote.state [notePut 8, notePut 9] := by
  refine (sizeIndependent_iff numberDigest exactCodecs heldNote_reachable _).mpr ?_
  intro before item after parts more _ _
  rintro ⟨record, entry, known, found, _⟩
  have second : item = notePut 9 := by
    rcases before with _ | ⟨one, _ | ⟨two, rest⟩⟩
    · exact absurd rfl more
    · exact (List.cons.inj (List.cons.inj parts).2).1.symm
    · exact absurd (congrArg List.length parts) (by simp)
  obtain rfl := second
  have there : (heldNote.state.schema.collections.lookup "notes").map (·.collectionId) = some 0 := by
    decide +kernel
  have known : heldNote.state.schema.collections.lookup "notes" = some record := known
  rw [known] at there
  have found : heldNote.state.identity.get record.collectionId (Key.u64 9).encode = some entry :=
    found
  rw [show record.collectionId = 0 from Option.some.inj there] at found
  have absent : heldNote.state.identity.get 0 (Key.u64 9).encode = none := by decide +kernel
  rw [absent] at found
  cases found

/-- Given another note first, the loader puts the held note when it commits after each put, and is
refused when it commits after two. -/
theorem sizeIndependent_fails : ¬∀ (store : OpenStore Unit Unit) (items : List BulkPut),
    Reachable OpenStore.Created (OpenStore.Step exactCodecs) store →
      SizeIndependent numberDigest exactCodecs store.state items := by
  intro always
  have independent := always heldNote [notePut 9, notePut 8] heldNote_reachable
  have agree := (independent 2 1 (fun _ => {}) fun _ => {}).1 [notePut 9] (notePut 8) [] rfl
  have refused : RefusedAt numberDigest exactCodecs heldNote.state 2 (fun _ => {}) [notePut 9]
      (notePut 8) := by
    refine ⟨_, Prod.ext (by decide +kernel) rfl, _, Prod.ext (by decide +kernel) rfl, ?_⟩
    decide +kernel
  obtain ⟨given, exact, _⟩ := (OpenStore.reachable_held heldNote_reachable).exact
  exact not_refusedAt_one ⟨exact, rfl⟩ (List.cons_ne_nil _ _) (agree.mp refused)

example : (load numberDigest exactCodecs (fun _ => {}) [notePut 9, notePut 8]
    (new heldNote.state 1)).1 = .ok () := by decide +kernel

end Examples

end Bulk

end Valise
