import Valise.Commit

/-!
The byte lock of a file's writer slot during a commit: which step takes it, which steps run under it,
and which ways out of the commit give it back.
-/

namespace Valise

open Commands Command Outcomes

/-- The steps that fail for reasons of their own, besides those of the engine. -/
inductive LockedStep where
  | contended
  | readLength
  | cloneFile
  | syncParentDir
deriving DecidableEq, Repr

/-- A handle and the writer slot of its file. `watched` and `held` are kept for the statements only:
whether the running commit has taken the lock, and whether each step since then found it taken. -/
structure LockedFile where
  handle : ValiseFile
  writable : Bool := true
  coordRegionActive : Bool := true
  stops : LockedStep → Bool := fun _ => false
  locked : Bool := false
  watched : Bool := false
  held : List Bool := []

abbrev LockedCall (α : Type) := Command LockedFile Error α

/-- The two ways to run a commit: on the handle itself, and through a connection, which lets go of
the handle during the fsync and does not sync the directory. -/
inductive CommitPath where
  | handle
  | connection
deriving DecidableEq, Repr

inductive CommitWritePhaseResult where
  | noOp
  | prepared (prepared : PreparedCommit) (writerLockAcquired : Bool)

namespace LockedFile

/-- A step of the engine has run. -/
def ran (state : LockedFile) (handle : ValiseFile) : LockedFile :=
  { state with
    handle
    held := if state.watched then state.held ++ [state.locked] else state.held }

def onHandle {α : Type} (call : Engine α) : LockedCall α := fun state =>
  ((call state.handle).1, state.ran (call state.handle).2)

/-- A step that does nothing here but fail or not. -/
def attempt (step : LockedStep) : LockedCall Unit := do
  let state ← Command.get
  onHandle (lift (Outcome.ensure (state.stops step = false) .io))

def coordAcquireWriterLock : LockedCall Bool := do
  let state ← Command.get
  if state.coordRegionActive = false then return false
  else do
    onHandle (fallible .writerLock)
    lift (Outcome.ensure (state.stops .contended = false)
      (.busy "writer slot lock contended past max attempts"))
    Command.modify fun state => { state with locked := true, watched := true }
    return true

def coordReleaseWriterLock : LockedCall Unit :=
  Command.modify fun state => { state with locked := false, watched := false }

/-- A commit whose file has no name any more releases the lock before it fails. -/
def checkInode : LockedCall Unit := do
  let state ← Command.get
  if state.handle.faults .staleInode then do
    coordReleaseWriterLock
    lift (.err (.busy
      "commit aborted: the file was replaced by a concurrent compaction (stale inode); reopen the Store"))
  else return ()

/-- The part of the write phase that runs once the lock is taken. -/
def writeUnderLock (writerLockAcquired : Bool) : LockedCall CommitWritePhaseResult := do
  onHandle flushPendingPayloads
  onHandle flushPendingVectorBatches
  let prepared ← onHandle ValiseFile.writeCatalogSegments
  onHandle (fallible .encodeFooter)
  attempt .readLength
  checkInode
  onHandle (fallible .appendFooter)
  onHandle (fallible .publishCoordination)
  onHandle (fallible .writeHeader)
  onHandle (Command.modify fun handle => { handle with published := prepared.body })
  return .prepared prepared writerLockAcquired

def commitPhaseWrites : LockedCall CommitWritePhaseResult := do
  let state ← Command.get
  lift (Outcome.ensure (state.writable = true) (.unsupported "file opened read-only"))
  if state.handle.dirty = false then return .noOp
  else do
    let writerLockAcquired ← coordAcquireWriterLock
    writeUnderLock writerLockAcquired

/-- The fsync of a commit; through a connection, other commits may share it. -/
def runCommitFsync : CommitPath → LockedCall Unit
  | .handle => do
      attempt .cloneFile
      onHandle (fallible .commitFsync)
      attempt .syncParentDir
  | .connection => do
      attempt .cloneFile
      onHandle (fallible .commitFsync)

def commitPhasePublish (prepared : PreparedCommit) (writerLockAcquired : Bool) :
    LockedCall Unit := do
  onHandle (ValiseFile.commitPhasePublish prepared)
  if writerLockAcquired then coordReleaseWriterLock else return ()

/-- Whether anything changed. -/
def finishCommit (path : CommitPath) : CommitWritePhaseResult → LockedCall Bool
  | .noOp => return false
  | .prepared prepared writerLockAcquired => do
      runCommitFsync path
      commitPhasePublish prepared writerLockAcquired
      return true

def commit (path : CommitPath) : LockedCall Bool := do
  let result ← commitPhaseWrites
  finishCommit path result

/-! ### The commit of the engine, with its lock -/

/-- A file whose lock this handle can have for the asking. -/
structure Quiet (state : LockedFile) : Prop where
  writable : state.writable = true
  active : state.coordRegionActive = true
  stops : ∀ step, state.stops step = false

/-- The call does to the handle what the engine's call does, and succeeds when that does. -/
def Projects {α : Type} (call : LockedCall α) (engine : Engine α) : Prop :=
  ∀ state, Quiet state → Quiet (call state).2 ∧
    (call state).2.handle = (engine state.handle).2 ∧
    (call state).1.toOption = (engine state.handle).1.toOption

theorem projects_bind {α β : Type} {first : LockedCall α} {next : α → LockedCall β}
    {engineFirst : Engine α} {engineNext : α → Engine β} (here : Projects first engineFirst)
    (rest : ∀ value, Projects (next value) (engineNext value)) :
    Projects (first >>= next) (engineFirst >>= engineNext) := by
  intro state quiet
  obtain ⟨after, handle, same⟩ := here state quiet
  change Quiet (Command.bind first next state).2 ∧
    (Command.bind first next state).2.handle =
      (Command.bind engineFirst engineNext state.handle).2 ∧
    (Command.bind first next state).1.toOption =
      (Command.bind engineFirst engineNext state.handle).1.toOption
  unfold Command.bind
  rcases locked : first state with ⟨value | _ | _, final⟩ <;>
    rcases bare : engineFirst state.handle with ⟨other | _ | _, finalHandle⟩ <;>
    rw [locked] at after handle same <;> rw [bare] at handle same
  case ok.ok =>
    obtain rfl : value = other := Option.some.inj same
    have moved : final.handle = finalHandle := handle
    subst moved
    exact rest value final after
  all_goals first
    | exact ⟨after, handle, rfl⟩
    | exact absurd same (by simp [Outcome.toOption])

theorem projects_onHandle {α : Type} (call : Engine α) : Projects (onHandle call) call :=
  fun _ quiet => ⟨⟨quiet.writable, quiet.active, quiet.stops⟩, rfl, rfl⟩

/-- A step that does not stop can be left out. -/
theorem projects_skip {α β : Type} {call : LockedCall α} {next : α → LockedCall β}
    {engine : Engine β} (value : α) (passes : ∀ state, Quiet state → Quiet (call state).2 ∧
      (call state).1 = .ok value ∧ (call state).2.handle = state.handle)
    (rest : Projects (next value) engine) : Projects (call >>= next) engine := by
  intro state quiet
  obtain ⟨after, done, handle⟩ := passes state quiet
  have ran : (call >>= next) state = next value (call state).2 := bind_of_ok (Prod.ext done rfl)
  rw [ran, ← handle]
  exact rest _ after

theorem projects_pure {α : Type} (value : α) : Projects (pure value) (pure value) :=
  fun _ quiet => ⟨quiet, rfl, rfl⟩

theorem attempt_passes (step : LockedStep) (state : LockedFile) (quiet : Quiet state) :
    Quiet (attempt step state).2 ∧ (attempt step state).1 = .ok () ∧
      (attempt step state).2.handle = state.handle := by
  refine ⟨⟨quiet.writable, quiet.active, quiet.stops⟩, ?_, rfl⟩
  exact Outcome.ensure_true _ (quiet.stops step)

theorem checkInode_projects : Projects checkInode (fallible .staleInode) := by
  intro state quiet
  cases stale : state.handle.faults .staleInode with
  | true =>
      have stopped : fallible .staleInode state.handle = (.err .io, state.handle) := by
        unfold fallible
        rw [bind_of_ok (get_apply _), lift_apply, Outcome.ensure_false _ (by simp [stale])]
      have released : checkInode state = (.err (.busy
          "commit aborted: the file was replaced by a concurrent compaction (stale inode); reopen the Store"),
          { state with locked := false, watched := false }) := by
        unfold checkInode
        rw [bind_of_ok (get_apply _), if_pos stale]
        rfl
      rw [released, stopped]
      exact ⟨⟨quiet.writable, quiet.active, quiet.stops⟩, rfl, rfl⟩
  | false =>
      have passed : fallible .staleInode state.handle = (.ok (), state.handle) := by
        unfold fallible
        rw [bind_of_ok (get_apply _), lift_apply, Outcome.ensure_true _ stale]
      have named : checkInode state = (.ok (), state) := by
        unfold checkInode
        rw [bind_of_ok (get_apply _), if_neg (by simp [stale])]
        rfl
      rw [named, passed]
      exact ⟨quiet, rfl, rfl⟩

theorem acquire_projects {β : Type} {next : Bool → LockedCall β} {engine : Engine β}
    (rest : Projects (next true) engine) :
    Projects (coordAcquireWriterLock >>= next) (fallible .writerLock >>= fun _ => engine) := by
  intro state quiet
  have active : ¬state.coordRegionActive = false := by simp [quiet.active]
  have taken : (coordAcquireWriterLock >>= next) state =
      (onHandle (fallible .writerLock) >>= fun _ =>
        lift (Outcome.ensure (state.stops .contended = false)
          (.busy "writer slot lock contended past max attempts")) >>= fun _ =>
        Command.modify (fun state => { state with locked := true, watched := true }) >>= fun _ =>
        next true) state := by
    unfold coordAcquireWriterLock
    rw [bind_bind, bind_of_ok (get_apply _), if_neg active]
    simp only [bind_bind, bind_value]
  rw [taken, Outcome.ensure_true _ (quiet.stops .contended)]
  refine projects_bind (projects_onHandle _) (fun _ => ?_) state quiet
  refine projects_skip () (fun _ quiet => ⟨quiet, rfl, rfl⟩) ?_
  exact projects_skip () (fun _ quiet =>
    ⟨⟨quiet.writable, quiet.active, quiet.stops⟩, rfl, rfl⟩) rest

theorem fsync_projects {β : Type} (path : CommitPath) {next : Unit → LockedCall β}
    {engine : Engine β} (rest : Projects (next ()) engine) :
    Projects (runCommitFsync path >>= next) (fallible .commitFsync >>= fun _ => engine) := by
  cases path with
  | handle =>
      simp only [runCommitFsync, bind_bind]
      refine projects_skip () (attempt_passes _) ?_
      exact projects_bind (projects_onHandle _) fun _ => projects_skip () (attempt_passes _) rest
  | connection =>
      simp only [runCommitFsync, bind_bind]
      exact projects_skip () (attempt_passes _) (projects_bind (projects_onHandle _) fun _ => rest)

/-- The commit with its lock does to the handle what the engine's commit does. -/
theorem commit_projects (path : CommitPath) : Projects (commit path) ValiseFile.commit := by
  intro state quiet
  unfold commit commitPhaseWrites ValiseFile.commit
  rw [bind_bind, bind_of_ok (get_apply _), bind_bind, Outcome.ensure_true _ quiet.writable,
    bind_of_ok (lift_apply _ _), bind_of_ok (get_apply _)]
  by_cases clean : state.handle.dirty = false
  · rw [if_pos clean, if_neg (by simp [clean])]
    exact ⟨quiet, rfl, rfl⟩
  · rw [if_neg clean, if_pos (by simpa using clean)]
    refine (?_ : Projects _ _) state quiet
    simp only [ValiseFile.commitPhaseWrites, writeUnderLock, bind_bind, bind_value]
    refine acquire_projects (projects_bind (projects_onHandle _) fun _ =>
      projects_bind (projects_onHandle _) fun _ => projects_bind (projects_onHandle _)
      fun prepared => projects_bind (projects_onHandle _) fun _ =>
      projects_skip () (attempt_passes _) (projects_bind checkInode_projects fun _ =>
      projects_bind (projects_onHandle _) fun _ => projects_bind (projects_onHandle _) fun _ =>
      projects_bind (projects_onHandle _) fun _ => projects_bind (projects_onHandle _) fun _ => ?_))
    simp only [finishCommit, commitPhasePublish, if_true, bind_bind]
    refine fsync_projects path (projects_bind (projects_onHandle _) fun _ => ?_)
    exact projects_skip () (fun _ quiet =>
      ⟨⟨quiet.writable, quiet.active, quiet.stops⟩, rfl, rfl⟩) (projects_pure true)

/-! ### Every step finds the lock as it was left -/

variable {property : LockedFile → Prop}

theorem keeps_onHandle (ran : ∀ state handle, property state → property (state.ran handle))
    {α : Type} (call : Engine α) : Keeps property (onHandle call) :=
  fun state holds => ran state _ holds

theorem keeps_attempt (ran : ∀ state handle, property state → property (state.ran handle))
    (step : LockedStep) : Keeps property (attempt step) :=
  keeps_bind keeps_get fun _ => keeps_onHandle ran _

/-- What the engine's steps, an acquisition and a release keep is kept by a commit. -/
theorem commit_keeps (path : CommitPath)
    (ran : ∀ state handle, property state → property (state.ran handle))
    (acquired : ∀ state, state.coordRegionActive = true → property state →
      property { state with locked := true, watched := true })
    (released : ∀ state, property state →
      property { state with locked := false, watched := false }) :
    Keeps property (commit path) := by
  have engine {α : Type} (call : Engine α) : Keeps property (onHandle call) :=
    keeps_onHandle ran call
  have acquire : Keeps property coordAcquireWriterLock := by
    refine (meets_get_bind fun read holds => ?_).keeps
    split
    · exact meets_pure _ fun _ same => same ▸ holds
    · rename_i active
      have active : read.coordRegionActive = true := by simpa using active
      have kept : Keeps (fun state => property state ∧ state.coordRegionActive = true)
          (onHandle (fallible .writerLock)) :=
        fun state held => ⟨ran state _ held.1, held.2⟩
      refine (meets_bind (kept.meets.weaken (fun _ same => ?_) (fun _ _ held => held)
        fun _ held => held.1) fun _ => meets_lift_bind (fun _ _ => ?_) fun _ held => held.1)
      · exact same ▸ ⟨holds, active⟩
      · exact meets_bind (meets_modify fun state held => acquired state held.2 held.1) fun _ =>
          meets_pure _ fun _ held => held
  have release : Keeps property coordReleaseWriterLock := keeps_modify released
  have inode : Keeps property checkInode := by
    refine keeps_bind keeps_get fun state => keeps_ite ?_ (keeps_pure _)
    exact keeps_bind release fun _ => keeps_lift _
  have writes : Keeps property commitPhaseWrites := by
    refine keeps_bind keeps_get fun state => keeps_bind (keeps_lift _) fun _ =>
      keeps_ite (keeps_pure _) (keeps_bind acquire fun _ => ?_)
    refine keeps_bind (engine _) fun _ => keeps_bind (engine _) fun _ => keeps_bind (engine _)
      fun _ => keeps_bind (engine _) fun _ => keeps_bind (keeps_attempt ran _) fun _ =>
      keeps_bind inode fun _ => ?_
    exact keeps_bind (engine _) fun _ => keeps_bind (engine _) fun _ => keeps_bind (engine _)
      fun _ => keeps_bind (engine _) fun _ => keeps_pure _
  have fsync : Keeps property (runCommitFsync path) := by
    cases path with
    | handle =>
        exact keeps_bind (keeps_attempt ran _) fun _ => keeps_bind (engine _) fun _ =>
          keeps_attempt ran _
    | connection => exact keeps_bind (keeps_attempt ran _) fun _ => engine _
  refine keeps_bind writes fun result => ?_
  cases result with
  | noOp => exact keeps_pure _
  | prepared prepared writerLockAcquired =>
      refine keeps_bind fsync fun _ => keeps_bind (keeps_bind (engine _) fun _ => ?_) fun _ =>
        keeps_pure _
      exact keeps_ite release (keeps_pure _)

/-- The lock is there from its acquisition to its release. -/
def Watchful (state : LockedFile) : Prop :=
  (∀ held ∈ state.held, held = true) ∧ (state.watched = true → state.locked = true)

theorem commit_watchful (path : CommitPath) : Keeps Watchful (commit path) := by
  refine commit_keeps path ?_ ?_ ?_
  · rintro state handle ⟨held, watched⟩
    refine ⟨fun entry member => ?_, watched⟩
    by_cases seen : state.watched = true
    · simp only [ran, seen, if_true, List.mem_append, List.mem_singleton] at member
      rcases member with before | here
      · exact held entry before
      · exact here.trans (watched seen)
    · simp only [ran, seen] at member
      exact held entry member
  · rintro state _ ⟨held, -⟩
    exact ⟨held, fun _ => rfl⟩
  · rintro state ⟨held, -⟩
    exact ⟨held, nofun⟩

/-- Without a coordination region there is no lock. -/
theorem commit_unlocked (path : CommitPath) :
    Keeps (fun state => state.coordRegionActive = false ∧ state.locked = false) (commit path) := by
  refine commit_keeps path ?_ ?_ ?_
  · exact fun _ _ holds => holds
  · rintro state active ⟨inactive, -⟩
    exact nomatch active.symm.trans inactive
  · exact fun _ holds => ⟨holds.1, rfl⟩

/-! ### Which commits give the lock back -/

/-- The lock is held from its acquisition until the commit returns or publishes, and not after. -/
def Balanced (path : CommitPath) (state : LockedFile) : Prop :=
  (∀ held ∈ (commit path state).2.held, held = true) ∧ (commit path state).2.locked = false

/-- A file on which no commit runs and whose lock this handle does not have. -/
def idle (handle : ValiseFile) (writable coordRegionActive : Bool) (stops : LockedStep → Bool) :
    LockedFile :=
  { handle, writable, coordRegionActive, stops }

/-- The engine's steps up to the reading of the length of the file. -/
def flushes : Engine PreparedCommit := do
  flushPendingPayloads
  flushPendingVectorBatches
  let prepared ← ValiseFile.writeCatalogSegments
  fallible .encodeFooter
  return prepared

/-- The engine's steps from the check of the inode on. -/
def afterInode (prepared : PreparedCommit) : Engine Unit := do
  fallible .appendFooter
  fallible .publishCoordination
  fallible .writeHeader
  Command.modify fun handle => { handle with published := prepared.body }
  fallible .commitFsync
  ValiseFile.commitPhasePublish prepared

/-- No step stops before the inode is checked, and either that check stops the commit or no later
step does. -/
def Unhindered (state : LockedFile) (path : CommitPath) : Prop :=
  ∃ prepared handle, flushes state.handle = (.ok prepared, handle) ∧
    state.stops .readLength = false ∧
    (handle.faults .staleInode = true ∨
      state.stops .cloneFile = false ∧ (path = .handle → state.stops .syncParentDir = false) ∧
        ∃ final, afterInode prepared handle = (.ok (), final))

/-- The commit does not get to take the lock. -/
def TakesNone (state : LockedFile) : Prop :=
  state.writable = false ∨ state.handle.dirty = false ∨ state.coordRegionActive = false ∨
    state.handle.faults .writerLock = true ∨ state.stops .contended = true

def Freed {α : Type} (run : Outcome Error α × LockedFile) : Prop := run.2.locked = false

@[simp] theorem ran_handle (state : LockedFile) (handle : ValiseFile) :
    (state.ran handle).handle = handle := rfl

@[simp] theorem ran_stops (state : LockedFile) (handle : ValiseFile) :
    (state.ran handle).stops = state.stops := rfl

@[simp] theorem ran_locked (state : LockedFile) (handle : ValiseFile) :
    (state.ran handle).locked = state.locked := rfl

section Locked

variable {state : LockedFile} {α β : Type}

/-- Under the lock, a step that fails leaves it taken. -/
theorem freed_onHandle_bind (locked : state.locked = true) (call : Engine α)
    (next : α → LockedCall β) : Freed ((onHandle call >>= next) state) ↔
      ∃ value handle, call state.handle = (.ok value, handle) ∧
        Freed (next value (state.ran handle)) := by
  change Freed (Command.bind (onHandle call) next state) ↔ _
  unfold Command.bind onHandle
  rcases result : call state.handle with ⟨value | _ | _, handle⟩
  · simp
  · simp [Freed, locked]
  · simp [Freed, locked]

theorem freed_attempt_bind (locked : state.locked = true) (step : LockedStep)
    (next : Unit → LockedCall β) : Freed ((attempt step >>= next) state) ↔
      state.stops step = false ∧ Freed (next () (state.ran state.handle)) := by
  have once := freed_onHandle_bind locked
    (lift (Outcome.ensure (state.stops step = false) Error.io)) next
  have same : (attempt step >>= next) state =
      (onHandle (lift (Outcome.ensure (state.stops step = false) .io)) >>= next) state := rfl
  rw [same, once]
  constructor
  · rintro ⟨_, handle, done, freed⟩
    obtain ⟨clear, rfl⟩ := lift_eq_ok.mp done
    exact ⟨Outcome.ensure_eq_ok.mp clear, freed⟩
  · rintro ⟨clear, freed⟩
    exact ⟨(), state.handle, lift_eq_ok.mpr ⟨Outcome.ensure_true _ clear, rfl⟩, freed⟩

theorem freed_checkInode_bind (next : Unit → LockedCall β) :
    Freed ((checkInode >>= next) state) ↔
      state.handle.faults .staleInode = true ∨
        state.handle.faults .staleInode = false ∧ Freed (next () state) := by
  cases stale : state.handle.faults .staleInode with
  | true =>
      have stopped : (checkInode >>= next) state = (.err (.busy
          "commit aborted: the file was replaced by a concurrent compaction (stale inode); reopen the Store"),
          { state with locked := false, watched := false }) := by
        change Command.bind checkInode next state = _
        have inode : checkInode state = (.err (.busy
            "commit aborted: the file was replaced by a concurrent compaction (stale inode); reopen the Store"),
            { state with locked := false, watched := false }) := by
          change (if state.handle.faults .staleInode = true then _ else _ : LockedCall Unit) state = _
          rw [if_pos stale]
          rfl
        unfold Command.bind
        rw [inode]
      simp [stopped, Freed]
  | false =>
      have passed : checkInode state = (.ok (), state) := by
        change (if state.handle.faults .staleInode = true then _ else _ : LockedCall Unit) state = _
        rw [if_neg (by simp [stale])]
        rfl
      rw [bind_of_ok passed]
      simp

theorem freed_release : Freed ((coordReleaseWriterLock >>= fun _ => (pure true : LockedCall Bool))
    state) := rfl

theorem freed_finishCommit (locked : state.locked = true) (path : CommitPath)
    (prepared : PreparedCommit) : Freed (finishCommit path (.prepared prepared true) state) ↔
      state.stops .cloneFile = false ∧ (path = .handle → state.stops .syncParentDir = false) ∧
        ∃ synced final, fallible .commitFsync state.handle = (.ok (), synced) ∧
          ValiseFile.commitPhasePublish prepared synced = (.ok (), final) := by
  cases path with
  | handle =>
      simp (disch := simp [locked]) only [finishCommit, runCommitFsync, commitPhasePublish,
        bind_bind, freed_onHandle_bind, freed_attempt_bind, ran_handle, ran_stops, if_true,
        freed_release]
      constructor
      · rintro ⟨clone, _, synced, fsync, parent, _, final, published, -⟩
        exact ⟨clone, fun _ => parent, synced, final, fsync, published⟩
      · rintro ⟨clone, parent, synced, final, fsync, published⟩
        exact ⟨clone, (), synced, fsync, parent trivial, (), final, published, trivial⟩
  | connection =>
      simp (disch := simp [locked]) only [finishCommit, runCommitFsync, commitPhasePublish,
        bind_bind, freed_onHandle_bind, freed_attempt_bind, ran_handle, if_true, freed_release]
      constructor
      · rintro ⟨clone, _, synced, fsync, _, final, published, -⟩
        exact ⟨clone, nofun, synced, final, fsync, published⟩
      · rintro ⟨clone, -, synced, final, fsync, published⟩
        exact ⟨clone, (), synced, fsync, (), final, published, trivial⟩

theorem freed_writeUnderLock (locked : state.locked = true) (path : CommitPath) :
    Freed ((writeUnderLock true >>= finishCommit path) state) ↔ state.Unhindered path := by
  simp (disch := simp [locked]) only [writeUnderLock, bind_bind, bind_value, freed_onHandle_bind,
    freed_attempt_bind, freed_checkInode_bind, freed_finishCommit, ran_handle, ran_stops]
  simp only [Unhindered, flushes, afterInode, bind_eq_ok, pure_eq_ok]
  constructor
  · rintro ⟨_, payloads, flushed, _, vectors, batches, prepared, body, wrote, _, encoded, packed,
      length, rest⟩
    refine ⟨prepared, encoded, ⟨_, payloads, flushed, _, vectors, batches, prepared, body, wrote,
      _, encoded, packed, rfl, rfl⟩, length, ?_⟩
    rcases rest with stale | ⟨-, _, footer, appended, _, coordination, published, _, header, written,
      _, named, modified, clone, parent, synced, final, fsync, done⟩
    · exact .inl stale
    · exact .inr ⟨clone, parent, final, _, footer, appended, _, coordination, published, _, header,
        written, _, named, modified, _, synced, fsync, done⟩
  · rintro ⟨prepared, encoded, ⟨_, payloads, flushed, _, vectors, batches, _, body, wrote, _, _,
      packed, rfl, rfl⟩, length, rest⟩
    refine ⟨_, payloads, flushed, _, vectors, batches, _, body, wrote, _, _, packed, length, ?_⟩
    rcases rest with stale | ⟨clone, parent, final, _, footer, appended, _, coordination, published,
      _, header, written, _, named, modified, _, synced, fsync, done⟩
    · exact .inl stale
    · refine (Bool.eq_false_or_eq_true _).imp id fun current => ?_
      exact ⟨current, _, footer, appended, _, coordination, published, _, header, written, _, named,
        modified, clone, parent, synced, final, fsync, done⟩

end Locked

theorem acquires {state : LockedFile} (takes : ¬state.TakesNone) :
    coordAcquireWriterLock state =
      (.ok true, { state.ran state.handle with locked := true, watched := true }) := by
  simp only [TakesNone, not_or, Bool.not_eq_false, Bool.not_eq_true] at takes
  obtain ⟨-, -, active, free, quiet⟩ := takes
  have passes : fallible .writerLock state.handle = (.ok (), state.handle) := by
    unfold fallible
    rw [bind_of_ok (get_apply _), lift_apply, Outcome.ensure_true _ free]
  have ran : onHandle (fallible .writerLock) state = (.ok (), state.ran state.handle) := by
    rw [onHandle, passes]
  unfold coordAcquireWriterLock
  rw [bind_of_ok (get_apply _), if_neg (by simp [active]), bind_of_ok ran, Outcome.ensure_true _ quiet,
    bind_of_ok (lift_apply _ _), bind_of_ok (modify_apply _ _), pure_apply]

/-- A commit that takes the lock goes on to its steps under it. -/
theorem commit_underLock {state : LockedFile} (path : CommitPath) (takes : ¬state.TakesNone) :
    commit path state = (writeUnderLock true >>= finishCommit path)
      { state.ran state.handle with locked := true, watched := true } := by
  have acquired := acquires takes
  simp only [TakesNone, not_or, Bool.not_eq_false, Bool.not_eq_true] at takes
  obtain ⟨writable, dirty, -⟩ := takes
  unfold commit commitPhaseWrites
  rw [bind_bind, bind_of_ok (get_apply _), bind_bind, Outcome.ensure_true _ writable,
    bind_of_ok (lift_apply _ _), if_neg (by simp [dirty]), bind_bind, bind_of_ok acquired]

/-- A lock that is not granted is not taken. -/
theorem acquire_refused {state : LockedFile} (active : state.coordRegionActive = true)
    (refused : state.handle.faults .writerLock = true ∨ state.stops .contended = true) :
    ∃ outcome, coordAcquireWriterLock state = (outcome, state.ran state.handle) ∧
      ∀ value, outcome ≠ .ok value := by
  unfold coordAcquireWriterLock
  rw [bind_of_ok (get_apply _), if_neg (by simp [active])]
  cases faulty : state.handle.faults .writerLock with
  | true =>
      have stops : fallible .writerLock state.handle = (.err .io, state.handle) := by
        unfold fallible
        rw [bind_of_ok (get_apply _), lift_apply, Outcome.ensure_false _ (by simp [faulty])]
      have stopped : onHandle (fallible .writerLock) state = (.err .io, state.ran state.handle) := by
        rw [onHandle, stops]
      exact ⟨.err .io, by
        change Command.bind _ _ state = _
        rw [Command.bind, stopped], nofun⟩
  | false =>
      have contended := refused.resolve_left (by simp [faulty])
      have passes : fallible .writerLock state.handle = (.ok (), state.handle) := by
        unfold fallible
        rw [bind_of_ok (get_apply _), lift_apply, Outcome.ensure_true _ faulty]
      have ran : onHandle (fallible .writerLock) state = (.ok (), state.ran state.handle) := by
        rw [onHandle, passes]
      rw [bind_of_ok ran, Outcome.ensure_false _ (by simp [contended])]
      exact ⟨.err (.busy "writer slot lock contended past max attempts"), rfl, nofun⟩

/-- What stops before the lock is taken leaves it free. -/
theorem commit_noLock {state : LockedFile} (path : CommitPath) (none : state.TakesNone)
    (locked : state.locked = false) : (commit path state).2.locked = false := by
  by_cases writable : state.writable = true
  · have allowed : commit path state = ((if state.handle.dirty = false then return .noOp
        else do
          let writerLockAcquired ← coordAcquireWriterLock
          writeUnderLock writerLockAcquired) >>= finishCommit path) state := by
      unfold commit commitPhaseWrites
      rw [bind_bind, bind_of_ok (get_apply _), bind_bind, Outcome.ensure_true _ writable,
        bind_of_ok (lift_apply _ _)]
    rw [allowed]
    by_cases clean : state.handle.dirty = false
    · rw [if_pos clean]
      exact locked
    · by_cases inactive : state.coordRegionActive = false
      · rw [← allowed]
        exact (commit_unlocked path state ⟨inactive, locked⟩).2
      · have refused : state.handle.faults .writerLock = true ∨ state.stops .contended = true := by
          rcases none with readonly | settled | off | refused
          · exact absurd readonly (by simp [writable])
          · exact absurd settled clean
          · exact absurd off inactive
          · exact refused
        obtain ⟨outcome, stopped, failed⟩ := acquire_refused (by simpa using inactive) refused
        rw [if_neg clean, bind_bind, bind_of_failed stopped failed]
        exact locked
  · have stopped : commitPhaseWrites state =
        (.err (.unsupported "file opened read-only"), state) := by
      unfold commitPhaseWrites
      rw [bind_of_ok (get_apply _), Outcome.ensure_false _ writable]
      rfl
    unfold commit
    rw [bind_of_failed stopped nofun]
    exact locked

/-- On an idle file, a commit gives the lock back exactly when it takes none or no step under it
stops. -/
theorem commit_balanced_iff (path : CommitPath) (handle : ValiseFile)
    (writable coordRegionActive : Bool) (stops : LockedStep → Bool) :
    Balanced path (idle handle writable coordRegionActive stops) ↔
      (idle handle writable coordRegionActive stops).TakesNone ∨
        (idle handle writable coordRegionActive stops).Unhindered path := by
  have watchful : Watchful (commit path (idle handle writable coordRegionActive stops)).2 :=
    commit_watchful path _ ⟨nofun, nofun⟩
  by_cases none : (idle handle writable coordRegionActive stops).TakesNone
  · exact ⟨fun _ => .inl none, fun _ => ⟨watchful.1, commit_noLock path none rfl⟩⟩
  · have freed := @freed_writeUnderLock { (idle handle writable coordRegionActive stops).ran handle
      with locked := true, watched := true } rfl path
    rw [Balanced, commit_underLock path none] at *
    constructor
    · rintro ⟨-, free⟩
      exact .inr (freed.mp free)
    · rintro (taken | unhindered)
      · exact absurd taken none
      · exact ⟨watchful.1, freed.mpr unhindered⟩

/-- A collection was created, and the disk is full when the footer is written. -/
def fullDisk : ValiseFile :=
  { (createCollectionAt "notes" 0 {}).2 with faults := fun point => point = .appendFooter }

/-- The commit fails and keeps the lock. -/
theorem balanced_fails :
    ¬(∀ (path : CommitPath) (handle : ValiseFile) (writable coordRegionActive : Bool)
      (stops : LockedStep → Bool), Balanced path (idle handle writable coordRegionActive stops)) := by
  intro balanced
  have kept : (commit .handle (idle fullDisk true true fun _ => false)).2.locked = true := by
    decide +kernel
  exact nomatch kept.symm.trans (balanced .handle fullDisk true true fun _ => false).2

end LockedFile

end Valise
