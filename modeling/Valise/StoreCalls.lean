import Valise.StoreEngine

/-!
What the calls of the engine do to its rows when they succeed, and what they never do: a row that is
there stays, apart from its flags.
-/

namespace Valise

open Commands Command Outcomes

/-- Rows are only appended or flagged. -/
structure StoreTables.Grows {κ : Type} (before after : StoreTables κ) : Prop where
  frames : ∀ (frameId : Nat) (row : FrameRow), before.frames[frameId]? = some row →
    ∃ active, after.frames[frameId]? = some { row with active }
  vectors : ∀ (vectorId : Nat) (row : VectorRow), before.vectors[vectorId]? = some row →
    ∃ active stored, after.vectors[vectorId]? = some { row with active, stored }
  codecs : before.codecs <+: after.codecs
  spaces : before.spaces <+: after.spaces
  postings : before.postings <+: after.postings

namespace StoreTables.Grows

variable {κ : Type} {before middle after : StoreTables κ}

theorem refl (tables : StoreTables κ) : tables.Grows tables where
  frames _ row found := ⟨row.active, found⟩
  vectors _ row found := ⟨row.active, row.stored, found⟩
  codecs := List.prefix_refl _
  spaces := List.prefix_refl _
  postings := List.prefix_refl _

theorem trans (first : before.Grows middle) (second : middle.Grows after) : before.Grows after where
  frames := by
    intro frameId row found
    obtain ⟨_, there⟩ := first.frames frameId row found
    obtain ⟨active, still⟩ := second.frames frameId _ there
    exact ⟨active, still⟩
  vectors := by
    intro vectorId row found
    obtain ⟨_, _, there⟩ := first.vectors vectorId row found
    obtain ⟨active, stored, still⟩ := second.vectors vectorId _ there
    exact ⟨active, stored, still⟩
  codecs := first.codecs.trans second.codecs
  spaces := first.spaces.trans second.spaces
  postings := first.postings.trans second.postings

theorem addFrames (tables : StoreTables κ) (rows : List FrameRow) :
    tables.Grows { tables with frames := tables.frames ++ rows } :=
  { refl tables with
    frames := fun _ row found =>
      ⟨row.active, List.getElem?_append_left (List.getElem?_eq_some_iff.mp found).1 ▸ found⟩ }

theorem addVectors (tables : StoreTables κ) (rows : List VectorRow) :
    tables.Grows { tables with vectors := tables.vectors ++ rows } :=
  { refl tables with
    vectors := fun _ row found => ⟨row.active, row.stored,
      List.getElem?_append_left (List.getElem?_eq_some_iff.mp found).1 ▸ found⟩ }

theorem addCodec (tables : StoreTables κ) (codec : κ) :
    tables.Grows { tables with codecs := tables.codecs ++ [codec] } :=
  { refl tables with codecs := List.prefix_append .. }

theorem addSpace (tables : StoreTables κ) (space : SpaceRow) :
    tables.Grows { tables with spaces := tables.spaces ++ [space] } :=
  { refl tables with spaces := List.prefix_append .. }

theorem addPosting (tables : StoreTables κ) (posting : Nat × Nat) :
    tables.Grows { tables with postings := tables.postings ++ [posting] } :=
  { refl tables with postings := List.prefix_append .. }

theorem tombstoneFrame (tables : StoreTables κ) (frameId : Nat) :
    tables.Grows (tables.tombstoneFrame frameId) :=
  { refl tables with
    frames := by
      intro other row found
      by_cases same : frameId = other
      · exact ⟨false, by simp [StoreTables.tombstoneFrame, found, same]⟩
      · exact ⟨row.active, by simp [StoreTables.tombstoneFrame, found, same]⟩ }

theorem tombstoneVector (tables : StoreTables κ) (vectorId : Nat) :
    tables.Grows (tables.tombstoneVector vectorId) :=
  { refl tables with
    vectors := by
      intro other row found
      by_cases same : vectorId = other
      · exact ⟨false, row.stored, by simp [StoreTables.tombstoneVector, found, same]⟩
      · exact ⟨row.active, row.stored, by simp [StoreTables.tombstoneVector, found, same]⟩ }

theorem loseVector (tables : StoreTables κ) (vectorId : Nat) :
    tables.Grows (tables.loseVector vectorId) :=
  { refl tables with
    vectors := by
      intro other row found
      by_cases same : vectorId = other
      · exact ⟨row.active, false, by simp [StoreTables.loseVector, found, same]⟩
      · exact ⟨row.active, row.stored, by simp [StoreTables.loseVector, found, same]⟩ }

theorem loseVectors (vectorIds : List Nat) (tables : StoreTables κ) :
    tables.Grows (vectorIds.foldl StoreTables.loseVector tables) := by
  induction vectorIds generalizing tables with
  | nil => exact refl tables
  | cons vectorId rest ih => exact (loseVector tables vectorId).trans (ih _)

end StoreTables.Grows

namespace StoreEngine

variable {κ : Type} {start : StoreTables κ} {engine final : StoreEngine κ}

/-! ### What every call keeps -/

def GrownFrom (start : StoreTables κ) (engine : StoreEngine κ) : Prop :=
  start.Grows engine.tables

theorem keeps_fallible {property : StoreEngine κ → Prop} (point : StorePoint) :
    Keeps property (fallible point) :=
  keeps_bind keeps_get fun _ => keeps_lift _

theorem keeps_setTables {change : StoreTables κ → StoreTables κ}
    (grows : ∀ tables : StoreTables κ, tables.Grows (change tables)) :
    Keeps (GrownFrom start) (setTables change) :=
  keeps_modify fun engine grown => StoreTables.Grows.trans grown (grows engine.tables)

theorem flushFull_keeps : Keeps (GrownFrom start) (flushFull (κ := κ)) :=
  keeps_bind keeps_get fun _ =>
    keeps_ite (keeps_bind (keeps_fallible _) fun _ => keeps_modify fun _ grown => grown)
      (keeps_pure ())

theorem putFrame_keeps (row : FrameRow) : Keeps (GrownFrom start) (putFrame row) :=
  keeps_bind (keeps_fallible _) fun _ => keeps_bind keeps_get fun _ =>
    keeps_bind (keeps_modify fun engine grown =>
      StoreTables.Grows.trans grown (.addFrames engine.tables [row])) fun _ =>
        keeps_bind flushFull_keeps fun _ => keeps_pure _

theorem indexFrameText_keeps (frameId textSpaceId : Nat) :
    Keeps (GrownFrom start) (indexFrameText frameId textSpaceId) :=
  keeps_bind keeps_get fun _ => keeps_bind (keeps_lift _) fun _ =>
    keeps_bind (keeps_fallible _) fun _ => keeps_setTables fun tables => .addPosting tables _

theorem putVector_keeps (owner spaceId : Nat) (values : List F32) :
    Keeps (GrownFrom start) (putVector owner spaceId values) :=
  keeps_bind keeps_get fun _ => keeps_bind (keeps_lift _) fun _ =>
    keeps_bind (keeps_lift _) fun _ => keeps_bind (keeps_fallible _) fun _ =>
      keeps_bind (keeps_modify fun engine grown =>
        StoreTables.Grows.trans grown (.addVectors engine.tables [{ owner, spaceId, values }]))
          fun _ => keeps_bind (keeps_fallible _) fun _ => keeps_pure _

theorem deleteVector_keeps (vectorId : Nat) : Keeps (GrownFrom start) (deleteVector vectorId) :=
  keeps_bind keeps_get fun _ => keeps_bind (keeps_lift _) fun _ =>
    keeps_bind (keeps_lift _) fun _ => keeps_setTables fun tables => .tombstoneVector tables vectorId

theorem deleteFrame_keeps (frameId : Nat) : Keeps (GrownFrom start) (deleteFrame frameId) :=
  keeps_bind keeps_get fun _ => keeps_bind (keeps_lift _) fun _ =>
    keeps_bind (keeps_fallible _) fun _ =>
      keeps_setTables fun tables => .tombstoneFrame tables frameId

theorem registerCodec_keeps (codec : κ) : Keeps (GrownFrom start) (registerCodec codec) :=
  keeps_bind (keeps_fallible _) fun _ => keeps_bind keeps_get fun _ =>
    keeps_bind (keeps_setTables fun tables => .addCodec tables codec) fun _ =>
      keeps_bind (keeps_fallible _) fun _ => keeps_pure _

theorem registerSpace_keeps (model : String) (dim codecId : Nat) :
    Keeps (GrownFrom start) (registerSpace model dim codecId) :=
  keeps_bind (keeps_fallible _) fun _ => keeps_bind keeps_get fun _ =>
    keeps_bind (keeps_setTables fun tables => .addSpace tables ⟨model, dim, codecId⟩) fun _ =>
      keeps_pure _

theorem flushBatch_keeps (spaceId : Nat) : Keeps (GrownFrom start) (flushBatch spaceId) :=
  keeps_bind keeps_get fun _ => keeps_bind (keeps_modify fun _ grown => grown) fun _ =>
    keeps_ite (keeps_bind (keeps_setTables fun tables => .loseVectors _ tables) fun _ =>
      keeps_lift _) (keeps_pure ())

theorem commit_keeps : Keeps (GrownFrom start) (commit (κ := κ)) :=
  keeps_bind (keeps_fallible _) fun _ => keeps_bind (keeps_modify fun _ grown => grown) fun _ =>
    keeps_bind keeps_get fun _ => keeps_bind (keeps_forEach flushBatch_keeps _) fun _ =>
      keeps_bind (keeps_fallible _) fun _ =>
        keeps_bind (keeps_modify fun _ grown => grown) fun _ => keeps_fallible _

/-! ### What a call that succeeds did -/

theorem fallible_ok {point : StorePoint} {value : Unit} :
    fallible point engine = (.ok value, final) ↔ engine.faults point = false ∧ engine = final := by
  simp only [fallible, bind_eq_ok, get_eq_ok, lift_eq_ok, Outcome.ensure_eq_ok]
  constructor
  · rintro ⟨_, _, ⟨rfl, rfl⟩, sound, rfl⟩
    exact ⟨sound, rfl⟩
  · rintro ⟨sound, rfl⟩
    exact ⟨_, _, ⟨rfl, rfl⟩, sound, rfl⟩

/-- Only what waits in the buffers is different. -/
structure SameRows (before after : StoreEngine κ) : Prop where
  tables : after.tables = before.tables
  durable : after.durable = before.durable
  pending : after.pending = before.pending
  unflushed : ∀ frameId ∈ after.unflushed, frameId ∈ before.unflushed

theorem flushFull_ok {value : Unit} (done : flushFull engine = (.ok value, final)) :
    engine.SameRows final := by
  simp only [flushFull, bind_eq_ok, get_eq_ok] at done
  obtain ⟨_, _, ⟨rfl, rfl⟩, flushed⟩ := done
  split at flushed
  · simp only [bind_eq_ok, fallible_ok, modify_eq_ok] at flushed
    obtain ⟨_, _, ⟨_, rfl⟩, rfl⟩ := flushed
    exact ⟨rfl, rfl, rfl, by simp [flush]⟩
  · obtain ⟨_, rfl⟩ := pure_eq_ok.mp flushed
    exact ⟨rfl, rfl, rfl, fun _ waits => waits⟩

/-- The rows that a call which succeeds leaves, with what no call but a commit changes. -/
structure Leaves (before : StoreEngine κ) (tables : StoreTables κ) (after : StoreEngine κ) :
    Prop where
  tables : after.tables = tables
  durable : after.durable = before.durable
  unflushed : ∀ frameId ∈ after.unflushed,
    frameId ∈ before.unflushed ∨ before.tables.frames.length ≤ frameId

theorem putFrame_ok {row : FrameRow} {frameId : Nat}
    (done : putFrame row engine = (.ok frameId, final)) :
    frameId = engine.tables.frames.length ∧ final.pending = engine.pending ∧
      engine.Leaves { engine.tables with frames := engine.tables.frames ++ [row] } final := by
  simp only [putFrame, bind_eq_ok, fallible_ok, get_eq_ok, modify_eq_ok, pure_eq_ok] at done
  obtain ⟨_, _, ⟨_, rfl⟩, _, _, ⟨rfl, rfl⟩, _, _, rfl, _, _, flushed, rfl, rfl⟩ := done
  have same := flushFull_ok flushed
  refine ⟨rfl, same.pending, same.tables, same.durable, ?_⟩
  intro frameId waits
  rcases List.mem_append.mp (same.unflushed frameId waits) with old | new
  · exact .inl old
  · exact .inr (List.mem_singleton.mp new).ge

theorem indexFrameText_ok {frameId textSpaceId : Nat} {value : Unit}
    (done : indexFrameText frameId textSpaceId engine = (.ok value, final)) :
    final = { engine with tables := { engine.tables with
      postings := engine.tables.postings ++ [(frameId, textSpaceId)] } } := by
  simp only [indexFrameText, setTables, bind_eq_ok, fallible_ok, get_eq_ok, modify_eq_ok,
    lift_eq_ok] at done
  obtain ⟨_, _, ⟨rfl, rfl⟩, _, _, ⟨_, rfl⟩, _, _, ⟨_, rfl⟩, rfl⟩ := done
  rfl

theorem putVector_ok {owner spaceId vectorId : Nat} {values : List F32}
    (done : putVector owner spaceId values engine = (.ok vectorId, final)) :
    engine.tables.activeFrame owner = true ∧ vectorId = engine.tables.vectors.length ∧
      final = { engine with
        tables := { engine.tables with
          vectors := engine.tables.vectors ++ [{ owner, spaceId, values }] }
        pending := engine.pending ++ [vectorId] } := by
  simp only [putVector, bind_eq_ok, fallible_ok, get_eq_ok, modify_eq_ok, lift_eq_ok, pure_eq_ok,
    Outcome.ensure_eq_ok] at done
  obtain ⟨_, _, ⟨rfl, rfl⟩, _, _, ⟨active, rfl⟩, _, _, ⟨_, rfl⟩, _, _, ⟨_, rfl⟩, _, _, rfl, _, _,
    ⟨_, rfl⟩, rfl, rfl⟩ := done
  exact ⟨active, rfl, rfl⟩

theorem deleteVector_ok {vectorId : Nat} {value : Unit}
    (done : deleteVector vectorId engine = (.ok value, final)) :
    final = { engine with tables := engine.tables.tombstoneVector vectorId } := by
  simp only [deleteVector, setTables, bind_eq_ok, get_eq_ok, modify_eq_ok, lift_eq_ok] at done
  obtain ⟨_, _, ⟨rfl, rfl⟩, _, _, ⟨_, rfl⟩, _, _, ⟨_, rfl⟩, rfl⟩ := done
  rfl

theorem deleteFrame_ok {frameId : Nat} {value : Unit}
    (done : deleteFrame frameId engine = (.ok value, final)) :
    final = { engine with tables := engine.tables.tombstoneFrame frameId } := by
  simp only [deleteFrame, setTables, bind_eq_ok, fallible_ok, get_eq_ok, modify_eq_ok,
    lift_eq_ok] at done
  obtain ⟨_, _, ⟨rfl, rfl⟩, _, _, ⟨_, rfl⟩, _, _, ⟨_, rfl⟩, rfl⟩ := done
  rfl

theorem registerCodec_ok {codec : κ} {codecId : Nat}
    (done : registerCodec codec engine = (.ok codecId, final)) :
    codecId = engine.tables.codecs.length ∧ final = { engine with
      tables := { engine.tables with codecs := engine.tables.codecs ++ [codec] } } := by
  simp only [registerCodec, setTables, bind_eq_ok, fallible_ok, get_eq_ok, modify_eq_ok,
    pure_eq_ok] at done
  obtain ⟨_, _, ⟨_, rfl⟩, _, _, ⟨rfl, rfl⟩, _, _, rfl, _, _, ⟨_, rfl⟩, rfl, rfl⟩ := done
  exact ⟨rfl, rfl⟩

theorem registerSpace_ok {model : String} {dim codecId spaceId : Nat}
    (done : registerSpace model dim codecId engine = (.ok spaceId, final)) :
    spaceId = engine.tables.spaces.length ∧ final = { engine with
      tables := { engine.tables with
        spaces := engine.tables.spaces ++ [⟨model, dim, codecId⟩] } } := by
  simp only [registerSpace, setTables, bind_eq_ok, fallible_ok, get_eq_ok, modify_eq_ok,
    pure_eq_ok] at done
  obtain ⟨_, _, ⟨_, rfl⟩, _, _, ⟨rfl, rfl⟩, _, _, rfl, rfl, rfl⟩ := done
  exact ⟨rfl, rfl⟩

/-- No batch of the space waits any more, and no other does that did not before. -/
theorem flushBatch_ok {spaceId : Nat} {value : Unit}
    (done : flushBatch spaceId engine = (.ok value, final)) :
    final = { engine with pending := engine.pending.filter (· ∉ engine.batch spaceId) } := by
  simp only [flushBatch, bind_eq_ok, get_eq_ok, modify_eq_ok] at done
  obtain ⟨_, _, ⟨rfl, rfl⟩, _, _, rfl, flushed⟩ := done
  split at flushed
  · simp only [setTables, bind_eq_ok, modify_eq_ok, lift_eq_ok] at flushed
    obtain ⟨_, _, _, failed, _⟩ := flushed
    cases failed
  · exact (pure_eq_ok.mp flushed).2.symm

theorem flushBatches_ok {spaceIds : List Nat} {value : Unit}
    (done : forEach spaceIds flushBatch engine = (.ok value, final)) :
    final = { engine with pending := final.pending } ∧
      ∀ vectorId ∈ final.pending, vectorId ∈ engine.pending ∧
        ∀ spaceId ∈ spaceIds, vectorId ∉ engine.batch spaceId := by
  induction spaceIds generalizing engine with
  | nil =>
    obtain ⟨_, rfl⟩ := pure_eq_ok.mp done
    exact ⟨rfl, fun _ waits => ⟨waits, by simp⟩⟩
  | cons spaceId rest ih =>
    simp only [forEach, bind_eq_ok] at done
    obtain ⟨_, middle, first, others⟩ := done
    obtain rfl := flushBatch_ok first
    obtain ⟨same, waiting⟩ := ih others
    refine ⟨same, ?_⟩
    intro vectorId waits
    obtain ⟨left, apart⟩ := waiting vectorId waits
    obtain ⟨before, notTaken⟩ := List.mem_filter.mp left
    refine ⟨before, ?_⟩
    intro other member taken
    rcases List.mem_cons.mp member with rfl | later
    · exact absurd taken (by simpa using notTaken)
    · refine apart other later (List.mem_filter.mpr ⟨left, ?_⟩)
      exact (List.mem_filter.mp taken).2

/-- Every row is durable, and only vectors of no space at all still wait. -/
structure Committed (before after : StoreEngine κ) : Prop where
  tables : after.tables = before.tables
  durable : after.durable = before.tables
  unflushed : after.unflushed = []
  pending : ∀ vectorId ∈ after.pending, vectorId ∈ before.pending ∧
    ∀ row, before.tables.vectors[vectorId]? = some row →
      before.tables.spaces.length ≤ row.spaceId

theorem commit_ok {value : Unit} (done : commit engine = (.ok value, final)) :
    engine.Committed final := by
  simp only [commit, bind_eq_ok, fallible_ok, get_eq_ok, modify_eq_ok] at done
  obtain ⟨_, _, ⟨_, rfl⟩, _, _, rfl, _, _, ⟨rfl, rfl⟩, _, flushed, batches, _, _, ⟨_, rfl⟩, _, _,
    rfl, _, rfl⟩ := done
  obtain ⟨same, waiting⟩ := flushBatches_ok batches
  rw [same]
  refine ⟨rfl, rfl, rfl, ?_⟩
  intro vectorId waits
  obtain ⟨before, apart⟩ := waiting vectorId waits
  refine ⟨before, ?_⟩
  intro row found
  by_contra inside
  refine apart row.spaceId (List.mem_range.mpr (by simpa [flush] using inside)) ?_
  refine List.mem_filter.mpr ⟨before, ?_⟩
  simp [flush, found]

end StoreEngine

end Valise
