import Valise.Library.Runs

/-!
The registry of open databases of a process: opening and creating look a file up by its path, enter
the database under the inode that the path had, and the last handle takes the entry out again.
-/

namespace Valise

open Runs

/-- A database is entered under `inodeKey` and has `file` open; `handles` is its strong count. -/
structure OpenDatabase (Inode : Type) where
  inodeKey : Inode
  file : Inode
  handles : Nat
deriving DecidableEq, Repr

/-- Where a call stands between two of its steps. -/
inductive RegistryCall (Path Inode : Type) where
  | idle
  | opening (path : Path)
  | openKeyed (path : Path) (key : Inode)
  | openMissed (path : Path) (key : Inode)
  | openLoaded (key file : Inode)
  | creating (path : Path)
  | created (path : Path) (file : Inode)
  | createKeyed (key file : Inode)
  | dropping (database : Nat)
deriving DecidableEq, Repr

namespace RegistryCall

variable {Path Inode : Type}

/-- The metadata call, the open and the create itself are what may fail. -/
def mayFail : RegistryCall Path Inode → Bool
  | .opening _ => true
  | .openMissed _ _ => true
  | .creating _ => true
  | .created _ _ => true
  | _ => false

/-- The file that the call has open itself. -/
def file : RegistryCall Path Inode → Option Inode
  | .openLoaded _ file => some file
  | .created _ file => some file
  | .createKeyed _ file => some file
  | _ => none

end RegistryCall

/-- The directory, the databases made so far, the weak entries of the registry, and the calls. -/
structure Process (Path Inode ι : Type) where
  paths : Path → Option Inode := fun _ => none
  databases : List (OpenDatabase Inode) := []
  registry : Inode → Option Nat := fun _ => none
  calls : ι → RegistryCall Path Inode := fun _ => .idle

namespace Process

variable {Path Inode ι : Type}

/-- A weak entry of the registry can be upgraded. -/
def Live (process : Process Path Inode ι) (database : Nat) : Prop :=
  ∃ held, process.databases[database]? = some held ∧ 0 < held.handles

/-- No live database is entered under the key. -/
def Unregistered (process : Process Path Inode ι) (key : Inode) : Prop :=
  ∀ database, process.registry key = some database → ¬process.Live database

/-- An inode is free when no path, database or call has it. -/
structure Free (process : Process Path Inode ι) (inode : Inode) : Prop where
  path : ∀ path, process.paths path ≠ some inode
  database : ∀ (database : Nat) (held : OpenDatabase Inode),
    process.databases[database]? = some held → 0 < held.handles → held.file ≠ inode
  dropping : ∀ (call : ι) (database : Nat) (held : OpenDatabase Inode),
    process.calls call = .dropping database → process.databases[database]? = some held →
    held.file ≠ inode
  call : ∀ call, (process.calls call).file ≠ some inode

def addHandles (process : Process Path Inode ι) (database : Nat)
    (change : Nat → Nat) : Process Path Inode ι :=
  { process with databases := process.databases.modify database fun held =>
      { held with handles := change held.handles } }

def move [DecidableEq ι] (process : Process Path Inode ι) (call : ι)
    (next : RegistryCall Path Inode) : Process Path Inode ι :=
  { process with calls := Function.update process.calls call next }

@[simp] theorem move_calls [DecidableEq ι] (process : Process Path Inode ι) (call : ι)
    (next : RegistryCall Path Inode) : (process.move call next).calls call = next :=
  Function.update_self ..

@[simp] theorem move_move [DecidableEq ι] (process : Process Path Inode ι) (call : ι)
    (first second : RegistryCall Path Inode) :
    (process.move call first).move call second = process.move call second := by
  simp [move]

/-- Enter a new database under the key, whatever was there. -/
def register [DecidableEq Inode] (process : Process Path Inode ι) (key file : Inode) :
    Process Path Inode ι :=
  { process with
    databases := process.databases ++ [⟨key, file, 1⟩]
    registry := Function.update process.registry key (some process.databases.length) }

/-- `Drop` takes the entry out unless a live database is there. -/
def evict [DecidableEq Inode] (process : Process Path Inode ι) (key : Inode) :
    Process Path Inode ι :=
  { process with registry := Function.update process.registry key none }

def rename [DecidableEq Path] (process : Process Path Inode ι) (source target : Path) :
    Process Path Inode ι :=
  { process with paths := Function.update (Function.update process.paths target
      (process.paths source)) source none }

/-- A process that has made no database yet, over any directory. -/
def Fresh (process : Process Path Inode ι) : Prop :=
  process = { paths := process.paths }

/-- No two live databases hold one file, and each is entered under the inode it has open. -/
structure SingleHandles (process : Process Path Inode ι) : Prop where
  distinct : ∀ (database other : Nat) (held rival : OpenDatabase Inode),
    process.databases[database]? = some held → 0 < held.handles →
    process.databases[other]? = some rival → 0 < rival.handles →
    held.file = rival.file → database = other
  registered : ∀ (database : Nat) (held : OpenDatabase Inode),
    process.databases[database]? = some held → 0 < held.handles →
    process.registry held.file = some database

/-- The keys that databases and calls carry are the inodes of the files they have open. -/
structure Keyed (process : Process Path Inode ι) : Prop where
  database : ∀ (database : Nat) (held : OpenDatabase Inode),
    process.databases[database]? = some held → 0 < held.handles →
    held.inodeKey = held.file ∧ process.registry held.inodeKey = some database
  opened : ∀ (call : ι) (key file : Inode), process.calls call = .openLoaded key file → key = file
  created : ∀ (call : ι) (key file : Inode), process.calls call = .createKeyed key file → key = file

theorem Keyed.singleHandles {process : Process Path Inode ι} (keyed : process.Keyed) :
    process.SingleHandles where
  distinct := by
    intro database other held rival found live foundOther liveOther same
    have first := keyed.database database held found live
    have second := keyed.database other rival foundOther liveOther
    have registered := first.2
    rw [first.1, same, ← second.1, second.2] at registered
    exact (Option.some.inj registered).symm
  registered := by
    intro database held found live
    have entered := keyed.database database held found live
    exact entered.1 ▸ entered.2

section Keyed

variable {process : Process Path Inode ι}

theorem Keyed.fresh (fresh : process.Fresh) : process.Keyed := by
  rw [fresh]
  exact ⟨nofun, nofun, nofun⟩

theorem Keyed.move [DecidableEq ι] (keyed : process.Keyed) (call : ι)
    (next : RegistryCall Path Inode)
    (opened : ∀ key file, next = .openLoaded key file → key = file)
    (created : ∀ key file, next = .createKeyed key file → key = file) :
    (process.move call next).Keyed where
  database := keyed.database
  opened := by
    intro other key file stands
    simp only [Process.move, Function.update_apply] at stands
    split at stands
    · exact opened key file stands
    · exact keyed.opened other key file stands
  created := by
    intro other key file stands
    simp only [Process.move, Function.update_apply] at stands
    split at stands
    · exact created key file stands
    · exact keyed.created other key file stands

/-- Handles come and go, as long as no dropped database comes back. -/
theorem Keyed.addHandles (keyed : process.Keyed) (database : Nat) (change : Nat → Nat)
    (kept : ∀ held, process.databases[database]? = some held → 0 < change held.handles →
      0 < held.handles) : (process.addHandles database change).Keyed where
  database := by
    intro other held found live
    simp only [Process.addHandles, List.getElem?_modify] at found
    obtain ⟨before, foundBefore, rfl⟩ := Option.map_eq_some_iff.mp found
    by_cases changed : database = other
    · subst changed
      simp only [if_true] at live ⊢
      exact keyed.database database before foundBefore (kept before foundBefore live)
    · simp only [changed, if_false] at live ⊢
      exact keyed.database other before foundBefore live
  opened := keyed.opened
  created := keyed.created

theorem Keyed.share (keyed : process.Keyed) {database : Nat} (live : process.Live database) :
    (process.addHandles database (· + 1)).Keyed := by
  refine keyed.addHandles database (· + 1) ?_
  intro held found _
  obtain ⟨same, foundSame, positive⟩ := live
  rw [found] at foundSame
  exact Option.some.inj foundSame ▸ positive

theorem Keyed.release (keyed : process.Keyed) (database : Nat) :
    (process.addHandles database (· - 1)).Keyed :=
  keyed.addHandles database (· - 1) fun held _ left => by omega

theorem Keyed.directory (keyed : process.Keyed) (paths : Path → Option Inode) :
    ({ process with paths } : Process Path Inode ι).Keyed where
  database := keyed.database
  opened := keyed.opened
  created := keyed.created

theorem Keyed.register [DecidableEq Inode] (keyed : process.Keyed) {key : Inode}
    (free : process.Unregistered key) :
    (process.register key key).Keyed where
  database := by
    intro database held found live
    simp only [Process.register] at found ⊢
    rcases Nat.lt_or_ge database process.databases.length with old | new
    · rw [List.getElem?_append_left old] at found
      have entered := keyed.database database held found live
      have other : held.inodeKey ≠ key := by
        intro same
        exact free database (same ▸ entered.2) ⟨held, found, live⟩
      rw [Function.update_of_ne other]
      exact entered
    · rw [List.getElem?_append_right new] at found
      obtain ⟨last, rfl⟩ : database - process.databases.length = 0 ∧
          OpenDatabase.mk key key 1 = held := by
        simpa [List.getElem?_singleton] using found
      have place : database = process.databases.length := by omega
      exact ⟨rfl, by rw [Function.update_self, place]⟩
  opened := keyed.opened
  created := keyed.created

theorem Keyed.evict [DecidableEq Inode] (keyed : process.Keyed) {key : Inode}
    (free : process.Unregistered key) :
    (process.evict key).Keyed where
  database := by
    intro database held found live
    have entered := keyed.database database held found live
    have other : held.inodeKey ≠ key := by
      intro same
      exact free database (same ▸ entered.2) ⟨held, found, live⟩
    refine ⟨entered.1, ?_⟩
    change Function.update process.registry key none held.inodeKey = some database
    rw [Function.update_of_ne other]
    exact entered.2
  opened := keyed.opened
  created := keyed.created

end Keyed

/-- The path still names the file a call looked up or made, and what `create` made has not been
opened by anyone else. -/
def Undisturbed (process next : Process Path Inode ι) (call : ι) : Prop :=
  match process.calls call, next.calls call with
  | .openMissed path key, .openLoaded _ _ => process.paths path = some key
  | .created path file, .createKeyed _ _ => process.paths path = some file
  | .createKeyed key _, .idle => process.Unregistered key
  | _, _ => True

/-- A call that a step leaves alone is not disturbed by it. -/
theorem undisturbed_move [DecidableEq ι] {process next : Process Path Inode ι} {call : ι}
    {stage : RegistryCall Path Inode} (others : next.calls = process.calls)
    (own : process.Undisturbed (next.move call stage) call) (other : ι) :
    process.Undisturbed (next.move call stage) other := by
  by_cases same : other = call
  · exact same ▸ own
  · have kept : (next.move call stage).calls other = process.calls other := by
      simp [Process.move, same, others]
    unfold Undisturbed
    rw [kept]
    cases process.calls other <;> trivial

section Steps

variable [DecidableEq Path] [DecidableEq Inode] [DecidableEq ι]

/-- One step of a call, or of whoever else changes the directory: a compaction removes a stale
temporary file, makes a new one and renames it over the path. -/
inductive Step : Process Path Inode ι → Process Path Inode ι → Prop where
  | openBegan {process} (call path) : process.calls call = .idle →
      Step process (process.move call (.opening path))
  | openKeyed {process call path key} : process.calls call = .opening path →
      process.paths path = some key → Step process (process.move call (.openKeyed path key))
  | openHit {process call path key database} : process.calls call = .openKeyed path key →
      process.registry key = some database → process.Live database →
      Step process ((process.addHandles database (· + 1)).move call .idle)
  | openMissed {process call path key} : process.calls call = .openKeyed path key →
      process.Unregistered key → Step process (process.move call (.openMissed path key))
  | openLoaded {process call path key file} : process.calls call = .openMissed path key →
      process.paths path = some file → Step process (process.move call (.openLoaded key file))
  | openJoined {process call key file database} : process.calls call = .openLoaded key file →
      process.registry key = some database → process.Live database →
      Step process ((process.addHandles database (· + 1)).move call .idle)
  | openRegistered {process call key file} : process.calls call = .openLoaded key file →
      process.Unregistered key → Step process ((process.register key file).move call .idle)
  | createBegan {process} (call path) : process.calls call = .idle →
      Step process (process.move call (.creating path))
  | created {process call path} (file) : process.calls call = .creating path →
      process.paths path = none → process.Free file →
      Step process (({ process with paths := Function.update process.paths path (some file) } :
        Process Path Inode ι).move call (.created path file))
  | createKeyed {process call path key file} : process.calls call = .created path file →
      process.paths path = some key → Step process (process.move call (.createKeyed key file))
  | createRegistered {process call key file} : process.calls call = .createKeyed key file →
      Step process ((process.register key file).move call .idle)
  | failed {process call} : (process.calls call).mayFail → Step process (process.move call .idle)
  | cloned {process database} : process.Live database →
      Step process (process.addHandles database (· + 1))
  | released {process call database held} : process.calls call = .idle →
      process.databases[database]? = some held → 1 < held.handles →
      Step process (process.addHandles database (· - 1))
  | lastReleased {process call database held} : process.calls call = .idle →
      process.databases[database]? = some held → held.handles = 1 →
      Step process ((process.addHandles database (· - 1)).move call (.dropping database))
  | evicted {process call database held} : process.calls call = .dropping database →
      process.databases[database]? = some held → process.Unregistered held.inodeKey →
      Step process ((process.evict held.inodeKey).move call .idle)
  | kept {process call database held other} : process.calls call = .dropping database →
      process.databases[database]? = some held → process.registry held.inodeKey = some other →
      process.Live other → Step process (process.move call .idle)
  | linked {process path} (file) : process.paths path = none → process.Free file →
      Step process { process with paths := Function.update process.paths path (some file) }
  | renamed {process source file} (target) : process.paths source = some file →
      source ≠ target → Step process (process.rename source target)
  | removed {process} (path) :
      Step process { process with paths := Function.update process.paths path none }

def UndisturbedStep (process next : Process Path Inode ι) : Prop :=
  Step process next ∧ ∀ call, process.Undisturbed next call

theorem Keyed.step {process next : Process Path Inode ι} (keyed : process.Keyed)
    (step : process.UndisturbedStep next) : next.Keyed := by
  obtain ⟨taken, undisturbed⟩ := step
  cases taken with
  | openBegan call path idle => exact keyed.move call _ nofun nofun
  | @openKeyed call path key stands named => exact keyed.move call _ nofun nofun
  | @openHit call path key database stands entered live =>
    exact (keyed.share live).move call _ nofun nofun
  | @openMissed call path key stands free => exact keyed.move call _ nofun nofun
  | @openLoaded call path key file stands named =>
    -- the path still names the inode that was looked up
    have still : process.paths path = some key := by
      simpa [Undisturbed, stands, move_calls] using undisturbed call
    refine keyed.move call _ ?_ nofun
    intro entered opened same
    obtain ⟨rfl, rfl⟩ := RegistryCall.openLoaded.inj same
    exact Option.some.inj (still.symm.trans named)
  | @openJoined call key file database stands entered live =>
    exact (keyed.share live).move call _ nofun nofun
  | @openRegistered call key file stands free =>
    obtain rfl : key = file := keyed.opened call key file stands
    exact (keyed.register free).move call _ nofun nofun
  | createBegan call path idle => exact keyed.move call _ nofun nofun
  | @created call path file stands unnamed free =>
    exact (keyed.directory _).move call _ nofun nofun
  | @createKeyed call path key file stands named =>
    have still : process.paths path = some file := by
      simpa [Undisturbed, stands, move_calls] using undisturbed call
    refine keyed.move call _ nofun ?_
    intro entered opened same
    obtain ⟨rfl, rfl⟩ := RegistryCall.createKeyed.inj same
    exact Option.some.inj (named.symm.trans still)
  | @createRegistered call key file stands =>
    -- nobody has opened and entered the new file in the meantime
    have free : process.Unregistered key := by
      simpa [Undisturbed, stands, move_calls] using undisturbed call
    obtain rfl : key = file := keyed.created call key file stands
    exact (keyed.register free).move call _ nofun nofun
  | @failed call fallible => exact keyed.move call _ nofun nofun
  | cloned live => exact keyed.share live
  | @released call database held idle found several => exact keyed.release database
  | @lastReleased call database held idle found last =>
    exact (keyed.release database).move call _ nofun nofun
  | @evicted call database held stands found free =>
    exact (keyed.evict free).move call _ nofun nofun
  | @kept call database held other stands found entered live =>
    exact keyed.move call _ nofun nofun
  | linked file unnamed free => exact keyed.directory _
  | renamed target named apart => exact keyed.directory _
  | removed path => exact keyed.directory _

/-- The databases of a process stay apart as long as the directory keeps still under a call. -/
theorem undisturbed_singleHandles {process : Process Path Inode ι}
    (reachable : Reachable Fresh UndisturbedStep process) : process.SingleHandles :=
  (reachable.invariant (fun _ fresh => Keyed.fresh fresh)
    (fun _ _ keyed step => Keyed.step keyed step)).singleHandles

end Steps

section Examples

/-- A directory with one file, under inode 7. -/
def storedProcess : Process Nat Nat Nat where
  paths := Function.update (fun _ => none) 0 (some 7)

theorem storedProcess_loaded :
    Reachable Fresh UndisturbedStep (storedProcess.move 0 (.openLoaded 7 7)) := by
  have began : Reachable Fresh UndisturbedStep (storedProcess.move 0 (.opening 0)) :=
    .step (.start (rfl : storedProcess.Fresh))
      ⟨.openBegan 0 0 rfl, undisturbed_move rfl trivial⟩
  have keyed : Reachable Fresh UndisturbedStep (storedProcess.move 0 (.openKeyed 0 7)) :=
    move_move storedProcess .. ▸
      began.step ⟨.openKeyed (move_calls ..) rfl, undisturbed_move rfl trivial⟩
  have missed : Reachable Fresh UndisturbedStep (storedProcess.move 0 (.openMissed 0 7)) :=
    move_move storedProcess .. ▸
      keyed.step ⟨.openMissed (move_calls ..) nofun, undisturbed_move rfl trivial⟩
  exact move_move storedProcess .. ▸
    missed.step ⟨.openLoaded (move_calls ..) rfl, undisturbed_move rfl rfl⟩

theorem openedAlone_singleHandles :
    ((storedProcess.move 0 (.openLoaded 7 7)).register 7 7 |>.move 0 .idle).SingleHandles :=
  undisturbed_singleHandles (storedProcess_loaded.step
    ⟨.openRegistered (move_calls ..) nofun, undisturbed_move rfl trivial⟩)

def blankProcess : Process Nat Nat Nat := {}

/-- `create` has made inode 7 and not entered its database yet. -/
def creatingProcess : Process Nat Nat Nat :=
  storedProcess.move 0 (.created 0 7)

theorem creatingProcess_reachable : Reachable Fresh Step creatingProcess := by
  have began : Reachable Fresh Step (blankProcess.move 0 (.creating 0)) :=
    .step (.start (rfl : blankProcess.Fresh)) (.createBegan 0 0 rfl)
  have free : (blankProcess.move 0 (.creating 0)).Free 7 := by
    refine ⟨nofun, nofun, nofun, ?_⟩
    intro call
    simp only [Process.move, Function.update_apply]
    split <;> nofun
  have made := began.step (.created 7 (move_calls ..) rfl free)
  simpa [creatingProcess, storedProcess, blankProcess, Process.move] using made

/-- Another call opens and enters the new file first. -/
def overtakenProcess : Process Nat Nat Nat :=
  ((creatingProcess.move 1 (.openLoaded 7 7)).register 7 7).move 1 .idle

theorem overtakenProcess_reachable : Reachable Fresh Step overtakenProcess := by
  have began := creatingProcess_reachable.step (.openBegan 1 0 rfl)
  have keyed : Reachable Fresh Step (creatingProcess.move 1 (.openKeyed 0 7)) :=
    move_move creatingProcess .. ▸ began.step (.openKeyed (move_calls ..) rfl)
  have missed : Reachable Fresh Step (creatingProcess.move 1 (.openMissed 0 7)) :=
    move_move creatingProcess .. ▸ keyed.step (.openMissed (move_calls ..) nofun)
  have loaded : Reachable Fresh Step (creatingProcess.move 1 (.openLoaded 7 7)) :=
    move_move creatingProcess .. ▸ missed.step (.openLoaded (move_calls ..) rfl)
  exact loaded.step (.openRegistered (move_calls ..) nofun)

theorem singleHandles_fails :
    ∃ process : Process Nat Nat Nat, Reachable Fresh Step process ∧ ¬process.SingleHandles := by
  have keyed : Reachable Fresh Step (overtakenProcess.move 0 (.createKeyed 7 7)) :=
    overtakenProcess_reachable.step
      (.createKeyed (show overtakenProcess.calls 0 = .created 0 7 from rfl) rfl)
  refine ⟨_, keyed.step (.createRegistered (move_calls ..)), ?_⟩
  intro single
  have same := single.distinct 0 1 ⟨7, 7, 1⟩ ⟨7, 7, 1⟩ rfl (by decide) rfl (by decide) rfl
  exact absurd same (by decide)

end Examples

end Process

end Valise
