import Valise.StoreCalls
import Valise.Writer

/-!
What the calls of a writer do: a call that fails touches rows only, and what one that succeeds
leaves in the rows, the index and the staged vectors.
-/

namespace Valise

open ByteLists Commands Command Outcomes

/-- The rows have grown and nothing else is different. -/
structure WriterState.Untouched {κ γ : Type} (before after : WriterState κ γ) : Prop where
  grows : before.engine.tables.Grows after.engine.tables
  schema : after.schema = before.schema
  identity : after.identity = before.identity
  staged : after.staged = before.staged

namespace Writer

variable {κ γ : Type} {start state final : WriterState κ γ}

theorem untouched_refl (state : WriterState κ γ) : state.Untouched state :=
  ⟨.refl _, rfl, rfl, rfl⟩

/-! ### Calls that fail -/

theorem keeps_onEngine {α : Type} {call : StoreEngine.Call κ α}
    (keeps : Keeps (StoreEngine.GrownFrom start.engine.tables) call) :
    Keeps (start.Untouched) (onEngine (γ := γ) call) := by
  intro state untouched
  exact ⟨keeps state.engine untouched.grows, untouched.schema, untouched.identity,
    untouched.staged⟩

theorem tombstoneVersion_keeps (entry : Entry) :
    Keeps (start.Untouched) (tombstoneVersion (κ := κ) (γ := γ) entry) :=
  keeps_ite
    (keeps_bind (keeps_forEach (fun item : Nat × Nat => keeps_onEngine
      (StoreEngine.deleteVector_keeps item.2)) _) fun _ =>
        keeps_onEngine (StoreEngine.deleteFrame_keeps _))
    (keeps_onEngine (StoreEngine.deleteFrame_keeps _))

theorem tombstonePrior_keeps (existing : Option Entry) :
    Keeps (start.Untouched) (tombstonePrior (κ := κ) (γ := γ) existing) := by
  cases existing with
  | none => exact keeps_pure ()
  | some entry => exact tombstoneVersion_keeps entry

theorem indexText_keeps (frameId : Nat) (textSpaceId : Option Nat) :
    Keeps (start.Untouched) (indexText (κ := κ) (γ := γ) frameId textSpaceId) := by
  cases textSpaceId with
  | none => exact keeps_pure ()
  | some textSpaceId => exact keeps_onEngine (StoreEngine.indexFrameText_keeps _ _)

theorem putReady_keeps (frameId : Nat) (ready : List (Nat × List F32)) :
    Keeps (start.Untouched) (putReady (κ := κ) (γ := γ) frameId ready) :=
  keeps_foldEach (fun _ _ => keeps_bind (keeps_onEngine (StoreEngine.putVector_keeps _ _ _))
    fun _ => keeps_pure _) _ _

/-- The last steps of a put and of a delete cannot fail. -/
theorem meets_dropPrior (existing : Option Entry) {before failed : WriterState κ γ → Prop}
    {next : Unit → WriterCall κ γ Unit} (change : WriterState κ γ → WriterState κ γ)
    (modifies : next () = Command.modify change) :
    Meets before (dropPrior existing >>= next) (fun _ _ => True) failed := by
  refine meets_bind (m := fun _ _ => True) ?_ fun _ => modifies ▸ meets_modify fun _ _ => trivial
  cases existing with
  | none => exact meets_pure () fun _ _ => trivial
  | some entry => exact meets_modify fun _ _ => trivial

/-- A put that fails leaves the index and the staged vectors as they were. -/
theorem put_fails (coll : String) (key : Key) (record : Record) (now : Int64) :
    Meets (start.Untouched) (put coll key record now) (fun _ _ => True) (start.Untouched) := by
  refine meets_bind keeps_get.meets fun read => ?_
  refine meets_bind (keeps_lift _).meets fun plan => ?_
  refine meets_bind (keeps_lift _).meets fun parent => ?_
  refine meets_bind (keeps_lift _).meets fun _ => ?_
  refine meets_bind (keeps_onEngine (StoreEngine.putFrame_keeps _)).meets fun frameId => ?_
  refine meets_bind (indexText_keeps _ _).meets fun _ => ?_
  refine meets_bind (putReady_keeps _ _).meets fun vectors => ?_
  refine meets_bind (tombstonePrior_keeps _).meets fun _ => ?_
  exact meets_dropPrior _ _ rfl

theorem delete_fails (coll : String) (key : Key) :
    Meets (start.Untouched) (delete coll key) (fun _ _ => True) (start.Untouched) := by
  refine meets_get_bind fun read untouched => ?_
  refine meets_lift_bind (fun record _ => ?_) fun _ same => same ▸ untouched
  cases read.identity.get record.collectionId key.encode with
  | none => exact meets_pure _ fun _ _ => trivial
  | some entry =>
    refine (?_ : Meets (start.Untouched) _ _ _).weaken (fun _ same => same ▸ untouched)
      (fun _ _ reached => reached) fun _ reached => reached
    refine meets_bind (keeps_lift _).meets fun _ => ?_
    refine meets_bind (tombstoneVersion_keeps _).meets fun _ => ?_
    refine meets_bind (m := fun _ _ => True) (meets_modify fun _ _ => trivial) fun _ => ?_
    exact meets_bind (m := fun _ _ => True) (meets_modify fun _ _ => trivial) fun _ =>
      meets_pure _ fun _ _ => trivial

variable {codecs : StoreCodecs κ γ}

theorem calibrateSpace_keeps (calibrated : Calibrated) (item : String × VectorSpaceEntry γ) :
    Keeps (start.Untouched) (calibrateSpace codecs calibrated item) := by
  unfold calibrateSpace
  split
  · exact keeps_pure _
  · refine keeps_bind keeps_get fun _ => keeps_ite (keeps_pure _) ?_
    refine keeps_bind (keeps_lift _) fun _ => ?_
    refine keeps_bind (keeps_onEngine (StoreEngine.registerCodec_keeps _)) fun _ => ?_
    exact keeps_bind (keeps_onEngine (StoreEngine.registerSpace_keeps _ _ _)) fun _ => keeps_pure _

theorem putStaged_keeps (resolved : List (String × Nat)) (pushes : Pushes) (item : StagedVector) :
    Keeps (start.Untouched) (putStaged (κ := κ) (γ := γ) resolved pushes item) := by
  unfold putStaged
  split
  · exact keeps_pure _
  · exact keeps_bind (keeps_onEngine (StoreEngine.putVector_keeps _ _ _)) fun _ => keeps_pure _

theorem flushDeferred_fails :
    Meets (start.Untouched) (flushDeferred codecs) (fun _ _ => True) (start.Untouched) := by
  refine meets_bind keeps_get.meets fun read => ?_
  refine meets_bind (keeps_lift _).meets fun entries => ?_
  refine meets_bind (keeps_foldEach calibrateSpace_keeps _ _).meets fun calibrated => ?_
  refine meets_bind (keeps_foldEach (putStaged_keeps _) _ _).meets fun pushes => ?_
  exact meets_modify fun _ _ => trivial

/-! ### Calls that succeed -/

theorem onEngine_ok {α : Type} {call : StoreEngine.Call κ α} {value : α} :
    onEngine (γ := γ) call state = (.ok value, final) ↔
      ∃ engine, call state.engine = (.ok value, engine) ∧ final = { state with engine } := by
  unfold onEngine
  cases result : call state.engine with
  | mk outcome engine =>
    simp only [Prod.mk.injEq]
    constructor
    · rintro ⟨rfl, rfl⟩
      exact ⟨engine, ⟨rfl, rfl⟩, rfl⟩
    · rintro ⟨_, ⟨rfl, rfl⟩, rfl⟩
      exact ⟨rfl, rfl⟩

/-- The ids that rows get when they are appended one after the other. -/
def readyIds (base : Nat) (ready : List (Nat × List F32)) : List (Nat × Nat) :=
  (ready.zipIdx base).map fun item => (item.1.1, item.2)

def readyRows (frameId : Nat) (ready : List (Nat × List F32)) : List VectorRow :=
  ready.map fun item => { owner := frameId, spaceId := item.1, values := item.2 }

/-- Rows of vectors were appended and wait. -/
def addVectors (state : WriterState κ γ) (rows : List VectorRow) : WriterState κ γ :=
  { state with engine := { state.engine with
      tables := { state.engine.tables with vectors := state.engine.tables.vectors ++ rows }
      pending := state.engine.pending ++
        List.range' state.engine.tables.vectors.length rows.length } }

theorem addVectors_nil (state : WriterState κ γ) : addVectors state [] = state := by
  simp [addVectors]

theorem addVectors_append (state : WriterState κ γ) (row : VectorRow) (rows : List VectorRow) :
    addVectors (addVectors state [row]) rows = addVectors state (row :: rows) := by
  simp [addVectors, List.range'_succ]

theorem putVector_added {owner spaceId vectorId : Nat} {values : List F32}
    (done : onEngine (γ := γ) (StoreEngine.putVector owner spaceId values) state =
      (.ok vectorId, final)) :
    vectorId = state.engine.tables.vectors.length ∧
      final = addVectors state [{ owner, spaceId, values }] := by
  obtain ⟨engine, put, rfl⟩ := onEngine_ok.mp done
  obtain ⟨_, rfl, rfl⟩ := StoreEngine.putVector_ok put
  exact ⟨rfl, rfl⟩

theorem putReady_ok {frameId : Nat} {ready : List (Nat × List F32)} {vectors : List (Nat × Nat)}
    (done : putReady frameId ready state = (.ok vectors, final)) :
    vectors = readyIds state.engine.tables.vectors.length ready ∧
      final = addVectors state (readyRows frameId ready) := by
  suffices general : ∀ (known : List (Nat × Nat)) (state : WriterState κ γ),
      foldEach ready known (fun vectors item => do
        let vectorId ← onEngine (StoreEngine.putVector frameId item.1 item.2)
        return vectors ++ [(item.1, vectorId)]) state = (.ok vectors, final) →
      vectors = known ++ readyIds state.engine.tables.vectors.length ready ∧
        final = addVectors state (readyRows frameId ready) by
    simpa using general [] state done
  clear done
  induction ready with
  | nil =>
    intro known state done
    obtain ⟨rfl, rfl⟩ := pure_eq_ok.mp done
    exact ⟨by simp [readyIds], by simp [readyRows, addVectors_nil]⟩
  | cons item rest ih =>
    intro known state done
    simp only [foldEach, bind_eq_ok, pure_eq_ok] at done
    obtain ⟨_, middle, ⟨vectorId, _, put, rfl, rfl⟩, others⟩ := done
    obtain ⟨rfl, rfl⟩ := putVector_added put
    obtain ⟨rfl, rfl⟩ := ih _ _ others
    refine ⟨?_, ?_⟩
    · simp [readyIds, addVectors]
    · exact addVectors_append _ _ _

/-- The rows without a version that is replaced or deleted. -/
def withdraw (entry : Entry) (tables : StoreTables κ) : StoreTables κ :=
  (if entry.committed then
    entry.vectors.foldl (fun tables item => tables.tombstoneVector item.2) tables
  else tables).tombstoneFrame entry.frameId

def withdrawPrior : Option Entry → StoreTables κ → StoreTables κ
  | none => id
  | some entry => withdraw entry

def withTables (state : WriterState κ γ) (tables : StoreTables κ) : WriterState κ γ :=
  { state with engine := { state.engine with tables } }

theorem deleteVectors_ok {vectors : List (Nat × Nat)} {value : Unit}
    (done : forEach vectors (fun item => onEngine (γ := γ) (StoreEngine.deleteVector item.2))
      state = (.ok value, final)) :
    final = withTables state (vectors.foldl (fun tables item => tables.tombstoneVector item.2)
      state.engine.tables) := by
  induction vectors generalizing state with
  | nil =>
    obtain ⟨_, rfl⟩ := pure_eq_ok.mp done
    rfl
  | cons item rest ih =>
    simp only [forEach, bind_eq_ok, onEngine_ok] at done
    obtain ⟨_, _, ⟨engine, first, rfl⟩, others⟩ := done
    obtain rfl := StoreEngine.deleteVector_ok first
    obtain rfl := ih others
    rfl

theorem deleteFrame_withdrawn {frameId : Nat} {value : Unit}
    (done : onEngine (γ := γ) (StoreEngine.deleteFrame frameId) state = (.ok value, final)) :
    final = withTables state (state.engine.tables.tombstoneFrame frameId) := by
  obtain ⟨engine, deleted, rfl⟩ := onEngine_ok.mp done
  obtain rfl := StoreEngine.deleteFrame_ok deleted
  rfl

theorem tombstoneVersion_ok {entry : Entry} {value : Unit}
    (done : tombstoneVersion entry state = (.ok value, final)) :
    final = withTables state (withdraw entry state.engine.tables) := by
  unfold tombstoneVersion at done
  unfold withdraw
  split at done
  · rename_i committed
    obtain ⟨_, middle, vectors, frame⟩ := bind_eq_ok.mp done
    obtain rfl := deleteVectors_ok vectors
    obtain rfl := deleteFrame_withdrawn frame
    rw [if_pos committed]
    rfl
  · rename_i uncommitted
    obtain rfl := deleteFrame_withdrawn done
    rw [if_neg uncommitted]

theorem tombstonePrior_ok {existing : Option Entry} {value : Unit}
    (done : tombstonePrior existing state = (.ok value, final)) :
    final = withTables state (withdrawPrior existing state.engine.tables) := by
  cases existing with
  | none =>
    obtain ⟨_, rfl⟩ := pure_eq_ok.mp done
    rfl
  | some entry => exact tombstoneVersion_ok done

/-- The staged vectors without those of a version that is replaced. -/
def keepStaged (existing : Option Entry) (staged : List StagedVector) : List StagedVector :=
  match existing with
  | none => staged
  | some entry => staged.filter (·.ownerFrame ≠ entry.frameId)

theorem dropPrior_ok {existing : Option Entry} {value : Unit}
    (done : dropPrior existing state = (.ok value, final)) :
    final = { state with staged := keepStaged existing state.staged } := by
  cases existing with
  | none =>
    obtain ⟨_, rfl⟩ := pure_eq_ok.mp done
    rfl
  | some entry =>
    unfold dropPrior dropStaged at done
    exact (modify_eq_ok.mp done).symm

def addPosting (frameId : Nat) (textSpaceId : Option Nat) (tables : StoreTables κ) :
    StoreTables κ :=
  { tables with postings := tables.postings ++ (textSpaceId.map fun id => (frameId, id)).toList }

theorem indexText_ok {frameId : Nat} {textSpaceId : Option Nat} {value : Unit}
    (done : indexText frameId textSpaceId state = (.ok value, final)) :
    final = withTables state (addPosting frameId textSpaceId state.engine.tables) := by
  cases textSpaceId with
  | none =>
    obtain ⟨_, rfl⟩ := pure_eq_ok.mp done
    simp [withTables, addPosting]
  | some textSpaceId =>
    unfold indexText at done
    obtain ⟨engine, indexed, rfl⟩ := onEngine_ok.mp done
    obtain rfl := StoreEngine.indexFrameText_ok indexed
    rfl

/-- The rows of a record: its frame, its posting and the vectors of its ready spaces. -/
def enter (row : FrameRow) (plan : PutPlan) (tables : StoreTables κ) : StoreTables κ where
  frames := tables.frames ++ [row]
  vectors := tables.vectors ++ readyRows tables.frames.length plan.ready
  codecs := tables.codecs
  spaces := tables.spaces
  postings := tables.postings ++
    (plan.textSpaceId.map fun id => (tables.frames.length, id)).toList

/-- What a put that succeeds did: `parent` and `now` only go into the row. -/
structure PutDone (coll : String) (key : Key) (record : Record) (now : Int64) (plan : PutPlan)
    (before after : WriterState κ γ) : Prop where
  planned : resolvePlan before.schema coll record = .ok plan
  replaceable : ∀ entry, before.identity.get plan.collectionId key.encode = some entry →
    entry.committed = true ∨ entry.vectors = []
  tables : ∃ parent, after.engine.tables = withdrawPrior
    (before.identity.get plan.collectionId key.encode)
    (enter (recordRow record plan.collectionId key.encode parent now) plan before.engine.tables)
  durable : after.engine.durable = before.engine.durable
  pending : after.engine.pending = before.engine.pending ++
    List.range' before.engine.tables.vectors.length plan.ready.length
  unflushed : ∀ frameId ∈ after.engine.unflushed,
    frameId ∈ before.engine.unflushed ∨ before.engine.tables.frames.length ≤ frameId
  schema : after.schema = before.schema
  identity : after.identity = before.identity.insert plan.collectionId key.encode
    ⟨before.engine.tables.frames.length,
      readyIds before.engine.tables.vectors.length plan.ready, false⟩
  staged : after.staged = keepStaged (before.identity.get plan.collectionId key.encode)
      before.staged ++ plan.deferred.map fun item =>
    ⟨item.1, plan.collectionId, key.encode, before.engine.tables.frames.length, item.2⟩

theorem put_ok {coll : String} {key : Key} {record : Record} {now : Int64} {value : Unit}
    (done : put coll key record now state = (.ok value, final)) :
    ∃ plan, PutDone coll key record now plan state final := by
  simp only [put, bind_eq_ok, get_eq_ok, lift_eq_ok, modify_eq_ok] at done
  obtain ⟨_, _, ⟨rfl, rfl⟩, plan, _, ⟨planned, rfl⟩, parent, _, ⟨parented, rfl⟩, _, _,
    ⟨checked, rfl⟩, frameId, _, framed, _, _, indexed, vectors, _, ready, _, _, withdrawn, _, _,
    dropped, rfl⟩ := done
  obtain ⟨engine, entered, rfl⟩ := onEngine_ok.mp framed
  obtain ⟨rfl, pending, left⟩ := StoreEngine.putFrame_ok entered
  obtain rfl := indexText_ok indexed
  obtain ⟨rfl, rfl⟩ := putReady_ok ready
  obtain rfl := tombstonePrior_ok withdrawn
  obtain rfl := dropPrior_ok dropped
  refine ⟨plan, planned, ?_, ⟨parent, ?_⟩, left.durable, ?_, left.unflushed, rfl, ?_, rfl⟩
  · intro entry existing
    rw [existing] at checked
    exact Outcome.ensure_eq_ok.mp checked
  · simp [withTables, addVectors, addPosting, left.tables, enter]
  · simp [withTables, addVectors, addPosting, left.tables, pending, readyRows]
  · simp [withTables, addVectors, addPosting, left.tables]

theorem required_eq_ok {α : Type} {message : String} {found : Option α} {value : α} :
    required message found = .ok value ↔ found = some value := by
  cases found <;> simp [required]

/-- What a delete that succeeds did. -/
inductive DeleteDone (coll : String) (key : Key) (before after : WriterState κ γ) : Bool → Prop
    where
  | missing {record : CollectionRecord} : before.schema.collections.lookup coll = some record →
      before.identity.get record.collectionId key.encode = none → after = before →
      DeleteDone coll key before after false
  | deleted {record : CollectionRecord} {entry : Entry} :
      before.schema.collections.lookup coll = some record →
      before.identity.get record.collectionId key.encode = some entry →
      (entry.committed = true ∨ entry.vectors = []) →
      after = { withTables before (withdraw entry before.engine.tables) with
        staged := keepStaged (some entry) before.staged
        identity := before.identity.remove record.collectionId key.encode } →
      DeleteDone coll key before after true

theorem delete_ok {coll : String} {key : Key} {found : Bool}
    (done : delete coll key state = (.ok found, final)) :
    DeleteDone coll key state final found := by
  simp only [delete, bind_eq_ok, get_eq_ok, lift_eq_ok, required_eq_ok] at done
  obtain ⟨_, _, ⟨rfl, rfl⟩, record, _, ⟨known, rfl⟩, rest⟩ := done
  cases existing : state.identity.get record.collectionId key.encode with
  | none =>
    rw [existing] at rest
    obtain ⟨rfl, rfl⟩ := pure_eq_ok.mp rest
    exact .missing known existing rfl
  | some entry =>
    rw [existing] at rest
    simp only [bind_eq_ok, lift_eq_ok, modify_eq_ok, pure_eq_ok, checkReplaceable,
      Outcome.ensure_eq_ok, dropStaged] at rest
    obtain ⟨_, _, ⟨replaceable, rfl⟩, _, _, withdrawn, _, _, rfl, _, _, rfl, rfl, rfl⟩ := rest
    obtain rfl := tombstoneVersion_ok withdrawn
    exact .deleted known existing replaceable rfl

/-! ### Calibration -/

def addCodecSpace (tables : StoreTables κ) (name : String) (dim : Nat) (codec : κ) :
    StoreTables κ :=
  { tables with
    codecs := tables.codecs ++ [codec]
    spaces := tables.spaces ++ [⟨name, dim, tables.codecs.length⟩] }

def sampleOf (staged : List StagedVector) (name : String) (sampleTarget : Nat) : List (List F32) :=
  ((staged.filter (·.spaceName = name)).take sampleTarget).map (·.values)

/-- What the names of staged vectors resolve to, one after the other, and the spaces registered. -/
inductive Calibrates (codecs : StoreCodecs κ γ) (staged : List StagedVector) :
    List (String × VectorSpaceEntry γ) → StoreTables κ → List (String × Nat) → List SpaceRow →
      StoreTables κ → Prop where
  | nil (tables) : Calibrates codecs staged [] tables [] [] tables
  | ready {name dim spaceId rest before found rows after} :
      Calibrates codecs staged rest before found rows after →
      Calibrates codecs staged ((name, ⟨dim, .ready spaceId⟩) :: rest) before
        ((name, spaceId) :: found) rows after
  | skipped {name dim sampleTarget spec rest before found rows after} :
      sampleOf staged name sampleTarget = [] →
      Calibrates codecs staged rest before found rows after →
      Calibrates codecs staged ((name, ⟨dim, .deferred sampleTarget spec⟩) :: rest) before found
        rows after
  | fresh {name dim sampleTarget spec rest before codec found rows after} :
      codecs.calibrate dim spec (sampleOf staged name sampleTarget) = .ok codec →
      Calibrates codecs staged rest (addCodecSpace before name dim codec) found rows after →
      Calibrates codecs staged ((name, ⟨dim, .deferred sampleTarget spec⟩) :: rest) before
        ((name, before.spaces.length) :: found) (⟨name, dim, before.codecs.length⟩ :: rows) after

/-- The ids that the registered spaces got. -/
def freshIds (base : Nat) (rows : List SpaceRow) : List (String × Nat) :=
  (rows.zipIdx base).map fun item => (item.1.model, item.2)

theorem calibrateSpaces_ok {entries : List (String × VectorSpaceEntry γ)}
    {known calibrated : Calibrated}
    (done : foldEach entries known (calibrateSpace codecs) state = (.ok calibrated, final)) :
    ∃ found rows tables, Calibrates codecs state.staged entries state.engine.tables found rows
        tables ∧ final = withTables state tables ∧
      calibrated = ⟨known.resolved ++ found,
        known.newlyReady ++ freshIds state.engine.tables.spaces.length rows⟩ := by
  induction entries generalizing known state with
  | nil =>
    obtain ⟨rfl, rfl⟩ := pure_eq_ok.mp done
    exact ⟨[], [], _, .nil _, rfl, by simp [freshIds]⟩
  | cons item rest ih =>
    obtain ⟨name, dim, stage⟩ := item
    obtain ⟨middle, reached, first, others⟩ := bind_eq_ok.mp done
    cases stage with
    | ready spaceId =>
      obtain ⟨rfl, rfl⟩ := pure_eq_ok.mp first
      obtain ⟨found, rows, tables, calibrates, rfl, rfl⟩ := ih others
      exact ⟨_, rows, tables, .ready calibrates, rfl, by simp⟩
    | deferred sampleTarget spec =>
      simp only [calibrateSpace, bind_eq_ok, get_eq_ok] at first
      obtain ⟨_, _, ⟨rfl, rfl⟩, rest⟩ := first
      split at rest
      · rename_i empty
        obtain ⟨rfl, rfl⟩ := pure_eq_ok.mp rest
        obtain ⟨found, rows, tables, calibrates, rfl, rfl⟩ := ih others
        exact ⟨found, rows, tables, .skipped empty calibrates, rfl, rfl⟩
      · simp only [bind_eq_ok, lift_eq_ok, pure_eq_ok] at rest
        obtain ⟨codec, _, ⟨fitted, rfl⟩, codecId, _, codecDone, spaceId, _, spaceDone, rfl, rfl⟩ :=
          rest
        obtain ⟨_, codecRow, rfl⟩ := onEngine_ok.mp codecDone
        obtain ⟨rfl, rfl⟩ := StoreEngine.registerCodec_ok codecRow
        obtain ⟨_, spaceRow, rfl⟩ := onEngine_ok.mp spaceDone
        obtain ⟨rfl, rfl⟩ := StoreEngine.registerSpace_ok spaceRow
        obtain ⟨found, rows, tables, calibrates, rfl, rfl⟩ := ih others
        refine ⟨_, _, tables, .fresh fitted calibrates, rfl, ?_⟩
        simp [freshIds]

/-- The staged vectors whose space resolved, with the ids they got. -/
def pushesOf (resolved : List (String × Nat)) : Nat → List StagedVector → Pushes
  | _, [] => []
  | base, item :: rest =>
      match resolved.lookup item.spaceName with
      | none => pushesOf resolved base rest
      | some spaceId => (item, spaceId, base) :: pushesOf resolved (base + 1) rest

def pushRows (pushes : Pushes) : List VectorRow :=
  pushes.map fun push =>
    { owner := push.1.ownerFrame, spaceId := push.2.1, values := push.1.values }

theorem putStaged_ok {resolved : List (String × Nat)} {items : List StagedVector}
    {known pushes : Pushes}
    (done : foldEach items known (putStaged resolved) state = (.ok pushes, final)) :
    pushes = known ++ pushesOf resolved state.engine.tables.vectors.length items ∧
      final = addVectors state
        (pushRows (pushesOf resolved state.engine.tables.vectors.length items)) := by
  induction items generalizing known state with
  | nil =>
    obtain ⟨rfl, rfl⟩ := pure_eq_ok.mp done
    exact ⟨by simp [pushesOf], by simp [pushesOf, pushRows, addVectors_nil]⟩
  | cons item rest ih =>
    obtain ⟨middle, reached, first, others⟩ := bind_eq_ok.mp done
    unfold putStaged at first
    unfold pushesOf
    cases resolves : resolved.lookup item.spaceName with
    | none =>
      rw [resolves] at first
      obtain ⟨rfl, rfl⟩ := pure_eq_ok.mp first
      exact ih others
    | some spaceId =>
      rw [resolves] at first
      obtain ⟨vectorId, _, put, rest⟩ := bind_eq_ok.mp first
      obtain ⟨rfl, rfl⟩ := putVector_added put
      obtain ⟨rfl, rfl⟩ := pure_eq_ok.mp rest
      obtain ⟨rfl, rfl⟩ := ih others
      refine ⟨by simp [addVectors], ?_⟩
      rw [addVectors_append]
      simp [addVectors, pushRows]

/-- What a flush of staged vectors that succeeds did. -/
structure FlushDone (codecs : StoreCodecs κ γ) (before after : WriterState κ γ) : Prop where
  flushed : ∃ entries found rows tables,
    spaceEntries before.schema (stagedNames before.staged) = .ok entries ∧
    Calibrates codecs before.staged entries before.engine.tables found rows tables ∧
    after = { addVectors (withTables before tables)
        (pushRows (pushesOf found tables.vectors.length before.staged)) with
      schema := before.schema.promote (freshIds before.engine.tables.spaces.length rows)
      identity := attach before.identity (pushesOf found tables.vectors.length before.staged)
      staged := [] }

theorem flushDeferred_ok {value : Unit}
    (done : flushDeferred codecs state = (.ok value, final)) : FlushDone codecs state final := by
  simp only [flushDeferred, bind_eq_ok, get_eq_ok, lift_eq_ok, modify_eq_ok] at done
  obtain ⟨_, _, ⟨rfl, rfl⟩, entries, _, ⟨known, rfl⟩, calibrated, _, spaces, pushes, _, put, rfl⟩ :=
    done
  obtain ⟨found, rows, tables, calibrates, rfl, rfl⟩ := calibrateSpaces_ok spaces
  obtain ⟨rfl, rfl⟩ := putStaged_ok put
  exact ⟨entries, found, rows, tables, known, calibrates, by simp [withTables, addVectors]⟩

end Writer

end Valise
