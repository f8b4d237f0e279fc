import Valise.KeyedRuns

/-!
Several open stores on one file in one process. They share the engine, and each has its own writer
lock, schema and identity index, which are built once, when it is opened.
-/

namespace Valise

open Commands Command Outcomes Runs Writer

/-- What an open store has for itself. -/
structure StoreView (γ : Type) where
  schema : SchemaRegistry γ
  identity : IdentityIndex
  writer : Option (List StagedVector) := none

/-- The stores of a process that are open on one file; the last one that closes drops the engine. -/
structure SharedStores (ι κ γ : Type) where
  declared : SchemaRegistry γ
  engine : StoreEngine κ
  stores : ι → Option (StoreView γ) := fun _ => none
  given : RecordId → Option Given := fun _ => none
  committed : RecordId → Option Given := fun _ => none
  settled : Bool := true

inductive StoreMove (ι : Type) where
  | openStore (store : ι)
  | closeStore (store : ι)
  | openWriter (store : ι)
  | put (store : ι) (coll : String) (key : Key) (record : Record) (now : Int64)
  | delete (store : ι) (coll : String) (key : Key)
  | commit (store : ι)
  | dropWriter (store : ι)

namespace SharedStores

variable {ι κ γ : Type} [DecidableEq ι] (shared : SharedStores ι κ γ)

/-- The file as one of its stores sees it. -/
def session (view : StoreView γ) : StoreSession κ γ where
  engine := shared.engine
  schema := view.schema
  identity := view.identity
  writer := view.writer
  given := shared.given
  settled := shared.settled

def keyed (view : StoreView γ) : KeyedStore κ γ where
  declared := shared.declared
  session := shared.session view
  committed := shared.committed

/-- A call of one store was made. -/
def called (store : ι) (session : StoreSession κ γ) : SharedStores ι κ γ :=
  { shared with
    engine := session.engine
    stores := Function.update shared.stores store
      (some ⟨session.schema, session.identity, session.writer⟩)
    given := session.given
    settled := session.settled }

/-- No store is open: the file is opened on what is durable. -/
def openFirst (store : ι) : SharedStores ι κ γ :=
  { shared with
    engine := shared.engine.reopen
    stores := Function.update shared.stores store (some {
      schema := shared.declared.restore shared.engine.durable.spaces
      identity := IdentityIndex.rebuild shared.engine.reopen })
    given := shared.committed
    settled := true }

/-- Another store is open: its engine is shared, and the index is built from the rows as they are. -/
def openNext (store : ι) : SharedStores ι κ γ :=
  { shared with
    stores := Function.update shared.stores store (some {
      schema := shared.declared.restore shared.engine.tables.spaces
      identity := IdentityIndex.rebuild shared.engine }) }

/-- The moves whose calls return `Ok`. -/
inductive Moves (codecs : StoreCodecs κ γ) :
    SharedStores ι κ γ → StoreMove ι → SharedStores ι κ γ → Prop where
  | openFirst {shared : SharedStores ι κ γ} {store} : (∀ other, shared.stores other = none) →
      Moves codecs shared (.openStore store) (shared.openFirst store)
  | openNext {shared : SharedStores ι κ γ} {store other view} : shared.stores store = none →
      shared.stores other = some view →
      Moves codecs shared (.openStore store) (shared.openNext store)
  | closeStore {shared : SharedStores ι κ γ} {store view} : shared.stores store = some view →
      view.writer = none →
      Moves codecs shared (.closeStore store)
        { shared with stores := Function.update shared.stores store none }
  | openWriter {shared : SharedStores ι κ γ} {store view} : shared.stores store = some view →
      view.writer = none →
      Moves codecs shared (.openWriter store)
        (shared.called store { shared.session view with writer := some [] })
  | put {shared : SharedStores ι κ γ} {store view coll key record now} :
      shared.stores store = some view → view.writer ≠ none → record.SetsOnce →
      (Writer.put coll key record now (shared.session view).state).1 = .ok () →
      Moves codecs shared (.put store coll key record now)
        (shared.called store ((shared.session view).put coll key record now))
  | delete {shared : SharedStores ι κ γ} {store view coll key found} :
      shared.stores store = some view → view.writer ≠ none →
      (Writer.delete coll key (shared.session view).state).1 = .ok found →
      Moves codecs shared (.delete store coll key)
        (shared.called store ((shared.session view).delete coll key))
  | commit {shared : SharedStores ι κ γ} {store view} :
      shared.stores store = some view → view.writer ≠ none →
      (Writer.commit codecs (shared.session view).state).1 = .ok () →
      Moves codecs shared (.commit store)
        { shared.called store ((shared.session view).commit codecs) with
          committed := shared.given }
  | dropWriter {shared : SharedStores ι κ γ} {store view} : shared.stores store = some view →
      view.writer ≠ none →
      Moves codecs shared (.dropWriter store)
        (shared.called store { shared.session view with writer := none })

/-- A store writes only while it is the only one that is open, another one is opened only while
nothing is uncommitted, and a writer is dropped only with nothing staged. -/
def Careful : StoreMove ι → Prop
  | .openStore _ => ∀ other view, shared.stores other = some view → shared.settled = true
  | .put store _ _ _ _ => ∀ other view, shared.stores other = some view → other = store
  | .delete store _ _ => ∀ other view, shared.stores other = some view → other = store
  | .dropWriter store => ∀ view, shared.stores store = some view → view.writer = some []
  | _ => True

def Created : Prop :=
  ∃ (declared : SchemaRegistry γ) (codecs : List κ) (spaces : List SpaceRow),
    (declared.restore spaces).Sound spaces.length ∧
    (∀ row ∈ spaces, row.codecId < codecs.length) ∧
    shared = { declared, engine := { tables := { codecs, spaces }, durable := { codecs, spaces } } }

/-- After a commit each key has one active frame at most, and every store reads the records of the
last commit. -/
def Agrees (lossy : κ → List F32 → List F32) : Prop :=
  shared.settled = true →
    (∀ id first second, ActiveFrame shared.engine.tables id first →
      ActiveFrame shared.engine.tables id second → first = second) ∧
    ∀ store view, shared.stores store = some view → (shared.keyed view).Refines lossy

/-- What opening the file anew would lead to. -/
def reopened : KeyedStore κ γ where
  declared := shared.declared
  session := {
    engine := shared.engine.reopen
    schema := shared.declared.restore shared.engine.durable.spaces
    identity := IdentityIndex.rebuild shared.engine.reopen
    given := shared.committed
    settled := true }
  committed := shared.committed

structure Agreeing : Prop where
  keeps : ∀ store view, shared.stores store = some view → (shared.keyed view).Keeps
  alone : shared.settled = false → ∀ first second view other,
    shared.stores first = some view → shared.stores second = some other → first = second
  durable : shared.reopened.Keeps
  landed : shared.settled = true → shared.engine.durable = shared.engine.tables

section Steps

variable {codecs : StoreCodecs κ γ} {shared} {store : ι} {view : StoreView γ}

omit [DecidableEq ι] in
theorem Created.agreeing (created : shared.Created) : shared.Agreeing := by
  obtain ⟨declared, codecs, spaces, sound, coded, rfl⟩ := created
  refine ⟨nofun, nofun, ?_, fun _ => rfl⟩
  have keeps : ({
      declared
      session := {
        engine := { tables := { codecs, spaces }, durable := { codecs, spaces } }
        schema := declared.restore spaces
        identity := {} } } : KeyedStore κ γ).Keeps :=
    KeyedStore.Created.keeps ⟨declared, codecs, spaces, _, sound, coded, rfl⟩
  exact keeps.reopen

/-- The only open store made a call. -/
theorem agreeing_called {session : StoreSession κ γ} {committed : RecordId → Option Given}
    (only : ∀ other view, shared.stores other = some view → other = store)
    (keeps : ({ declared := shared.declared, session, committed } : KeyedStore κ γ).Keeps) :
    ({ shared.called store session with committed } : SharedStores ι κ γ).Agreeing := by
  have one (other : ι) (view : StoreView γ)
      (found : Function.update shared.stores store
        (some ⟨session.schema, session.identity, session.writer⟩) other = some view) :
      other = store ∧ view = ⟨session.schema, session.identity, session.writer⟩ := by
    by_cases same : other = store
    · rw [same, Function.update_self] at found
      exact ⟨same, (Option.some.inj found).symm⟩
    · rw [Function.update_of_ne same] at found
      exact absurd (only other view found) same
  refine ⟨?_, ?_, keeps.reopen, ?_⟩
  · intro other view found
    obtain ⟨_, rfl⟩ := one other view found
    exact keeps
  · intro _ first second view other firstOpen secondOpen
    rw [(one first view firstOpen).1, (one second other secondOpen).1]
  · exact fun settled => (keeps.settled settled).1.durable

/-- One store got another view, and the engine is as it was. -/
theorem Agreeing.setView (agreeing : shared.Agreeing)
    (opened : shared.settled = true ∨ ∃ view, shared.stores store = some view)
    {next : StoreView γ} (keeps : (shared.keyed next).Keeps) :
    ({ shared with stores := Function.update shared.stores store (some next) } :
      SharedStores ι κ γ).Agreeing := by
  have was (unsettled : shared.settled = false) (other : ι) (found : StoreView γ)
      (there : Function.update shared.stores store (some next) other = some found) :
      ∃ view, shared.stores other = some view := by
    by_cases same : other = store
    · rw [same]
      exact opened.resolve_left (by simp [unsettled])
    · rw [Function.update_of_ne same] at there
      exact ⟨found, there⟩
  refine ⟨?_, ?_, agreeing.durable, agreeing.landed⟩
  · intro other found there
    have there : Function.update shared.stores store (some next) other = some found := there
    by_cases same : other = store
    · rw [same, Function.update_self] at there
      exact Option.some.inj there ▸ keeps
    · rw [Function.update_of_ne same] at there
      exact agreeing.keeps other found there
  · intro unsettled first second _ _ firstOpen secondOpen
    obtain ⟨one, firstWas⟩ := was unsettled first _ firstOpen
    obtain ⟨other, secondWas⟩ := was unsettled second _ secondOpen
    exact agreeing.alone unsettled first second one other firstWas secondWas

omit [DecidableEq ι] in
theorem Agreeing.writer (agreeing : shared.Agreeing) (opened : shared.stores store = some view)
    (writer : Option (List StagedVector)) (same : writer.getD [] = view.writer.getD []) :
    (shared.keyed { view with writer }).Keeps :=
  (agreeing.keeps store view opened).writer writer same

/-- A commit while nothing is uncommitted changes nothing that another store sees. -/
theorem Agreeing.commitIdle (agreeing : shared.Agreeing) (opened : shared.stores store = some view)
    (settled : shared.settled = true)
    (returned : (Writer.commit codecs (shared.session view).state).1 = .ok ()) :
    ({ shared.called store ((shared.session view).commit codecs) with committed := shared.given } :
      SharedStores ι κ γ).Agreeing := by
  have own : ({
      declared := shared.declared
      session := (shared.session view).commit codecs
      committed := shared.given } : KeyedStore κ γ).Keeps :=
    (agreeing.keeps store view opened).commit returned
  obtain ⟨landed, same⟩ := (agreeing.keeps store view opened).settled settled
  unfold StoreSession.commit at own ⊢
  cases result : Writer.commit codecs (shared.session view).state with
  | mk outcome after =>
    obtain rfl : outcome = .ok () := by rwa [result] at returned
    rw [result] at own
    have after_landed := (own.settled rfl).1
    have rows : after.engine.tables = shared.engine.tables ∧
        after.engine.durable = shared.engine.durable := by
      obtain ⟨middle, engine, flushed, committed, rfl⟩ := (commit_ok result).committed
      rcases flushed with ⟨_, rfl⟩ | ⟨staged, _⟩
      · exact ⟨committed.tables, committed.durable.trans landed.durable.symm⟩
      · exact absurd landed.staged staged
    refine ⟨?_, nofun, own.reopen, fun _ => after_landed.durable⟩
    intro other found there
    have there : Function.update shared.stores store
      (some ⟨after.schema, after.identity, some after.staged⟩) other = some found := there
    by_cases sameStore : other = store
    · rw [sameStore, Function.update_self] at there
      exact Option.some.inj there ▸ own
    · rw [Function.update_of_ne sameStore] at there
      have kept := (agreeing.keeps other found there).sameRows settled rows.1 rows.2
        after_landed.pending after_landed.unflushed
      have committed : shared.given = shared.committed := same
      simpa only [keyed, session, called, StoreSession.wrote, committed, settled] using kept

theorem Agreeing.move {next : SharedStores ι κ γ} {move : StoreMove ι}
    (agreeing : shared.Agreeing) (careful : shared.Careful move)
    (moves : Moves codecs shared move next) : next.Agreeing := by
  cases moves with
  | @openFirst store closed =>
    have opened : (shared.reopened).Keeps := agreeing.durable
    exact agreeing_called (fun other view found => by rw [closed other] at found; cases found) opened
  | @openNext store other view absent opened =>
    have settled := careful other view opened
    have keeps := agreeing.keeps other view opened
    obtain ⟨landed, same⟩ := keeps.settled settled
    obtain ⟨exact, committed⟩ := keeps.exact.rebuild landed.staged landed.unflushed
    refine agreeing.setView (.inl settled) ?_
    have schema : shared.declared.restore shared.engine.tables.spaces = view.schema :=
      keeps.restored.symm
    rw [schema]
    refine ⟨?_, keeps.restored, keeps.spaces, keeps.once, keeps.durable,
      fun _ => ⟨⟨rfl, landed.pending, landed.unflushed, landed.durable, committed⟩, same⟩⟩
    have staged : view.writer.getD [] = [] := landed.staged
    have exact : Exact ⟨shared.engine, view.schema, IdentityIndex.rebuild shared.engine,
      view.writer.getD []⟩ shared.given := exact
    rw [staged] at exact
    exact exact
  | @closeStore store view opened closed =>
    have was (other : ι) (found : StoreView γ)
        (there : Function.update shared.stores store none other = some found) :
        shared.stores other = some found := by
      by_cases same : other = store
      · rw [same, Function.update_self] at there
        cases there
      · rwa [Function.update_of_ne same] at there
    refine ⟨fun other found there => agreeing.keeps other found (was other found there), ?_,
      agreeing.durable, agreeing.landed⟩
    intro unsettled first second _ _ firstOpen secondOpen
    exact agreeing.alone unsettled first second _ _ (was first _ firstOpen) (was second _ secondOpen)
  | openWriter opened closed =>
    exact agreeing.setView (.inr ⟨_, opened⟩) (agreeing.writer opened (some []) (by rw [closed]; rfl))
  | put opened _ once returned =>
    exact agreeing_called careful ((agreeing.keeps _ _ opened).put once returned)
  | delete opened _ returned =>
    exact agreeing_called careful ((agreeing.keeps _ _ opened).delete returned)
  | @commit store view opened _ returned =>
    cases settled : shared.settled with
    | true => exact agreeing.commitIdle opened settled returned
    | false =>
      exact agreeing_called (fun other found there =>
        agreeing.alone settled other store found view there opened)
        ((agreeing.keeps _ _ opened).commit returned)
  | dropWriter opened _ =>
    have empty := careful _ opened
    exact agreeing.setView (.inr ⟨_, opened⟩) (agreeing.writer opened none (by rw [empty]; rfl))

omit [DecidableEq ι] in
theorem Agreeing.agrees (agreeing : shared.Agreeing) (lossy : κ → List F32 → List F32) :
    shared.Agrees lossy := by
  intro settled
  refine ⟨?_, fun store view opened => (agreeing.keeps store view opened).refines lossy⟩
  intro id first second one other
  have mirrors := agreeing.durable.exact.mirrors
  have tables : (shared.reopened).session.state.engine.tables = shared.engine.tables :=
    agreeing.landed settled
  rw [tables] at mirrors
  obtain ⟨entry, found, same⟩ := mirrors.frame_unique one
  obtain ⟨entry', found', same'⟩ := mirrors.frame_unique other
  obtain rfl := Option.some.inj (found.symm.trans found')
  exact same.symm.trans same'

end Steps

/-- Stores on one file agree after every commit, so long as a store writes only while it is the only
one that is open, another is opened only while nothing is uncommitted, and no writer is dropped with
staged vectors. -/
theorem careful_agrees (codecs : StoreCodecs κ γ) {shared : SharedStores ι κ γ}
    (reachable : Reachable Created (fun before after => ∃ move,
      before.Careful move ∧ Moves codecs before move after) shared) :
    shared.Agrees codecs.lossy := by
  have agreeing : shared.Agreeing := reachable.invariant (fun _ created => Created.agreeing created)
    fun _ _ agreeing ⟨_, careful, moves⟩ => agreeing.move careful moves
  exact agreeing.agrees codecs.lossy

section Examples

open StoreSession

/-- A file with the schema of the notes, and two stores that may be open on it. -/
def notesFile : SharedStores Bool Unit Unit where
  declared := notesSchema
  engine := {}

theorem notesFile_created : notesFile.Created :=
  ⟨notesSchema, [], [], notesSchema_sound 0, nofun, rfl⟩

def viewOf (shared : SharedStores Bool Unit Unit) (store : Bool) : StoreView Unit :=
  (shared.stores store).getD ⟨notesSchema, {}, none⟩

theorem stores_eq_viewOf {shared : SharedStores Bool Unit Unit} {store : Bool}
    (opened : (shared.stores store).isSome = true) :
    shared.stores store = some (shared.viewOf store) := by
  obtain ⟨view, found⟩ := Option.isSome_iff_exists.mp opened
  rw [viewOf, found]
  rfl

def withWriter (shared : SharedStores Bool Unit Unit) (store : Bool) :
    SharedStores Bool Unit Unit :=
  shared.called store { shared.session (shared.viewOf store) with writer := some [] }

def notePut (shared : SharedStores Bool Unit Unit) (store : Bool) : SharedStores Bool Unit Unit :=
  shared.called store ((shared.session (shared.viewOf store)).put "notes" noteKey note 5)

def noteCommit (shared : SharedStores Bool Unit Unit) (store : Bool) :
    SharedStores Bool Unit Unit :=
  { shared.called store ((shared.session (shared.viewOf store)).commit exactCodecs) with
    committed := shared.given }

/-- One store is opened, puts a note and commits it. -/
def committedNote (shared : SharedStores Bool Unit Unit) : SharedStores Bool Unit Unit :=
  ((shared.withWriter false).notePut false).noteCommit false

/-- One store puts a note and commits it, and the other is opened then. -/
def openedAfter : SharedStores Bool Unit Unit :=
  ((notesFile.openFirst false).committedNote).openNext true

theorem openedAfter_agrees : openedAfter.Agrees exactCodecs.lossy := by
  have alone (shared : SharedStores Bool Unit Unit) (closed : (shared.stores true).isNone = true)
      (other : Bool) (view : StoreView Unit) (found : shared.stores other = some view) :
      other = false := by
    cases other with
    | false => rfl
    | true => simp [found] at closed
  have opened : Reachable Created (fun before after => ∃ move,
      before.Careful move ∧ Moves exactCodecs before move after) (notesFile.openFirst false) :=
    .step (.start notesFile_created) ⟨.openStore false, nofun, .openFirst fun _ => rfl⟩
  have writes := opened.step ⟨.openWriter false, trivial,
    .openWriter (stores_eq_viewOf (by decide +kernel)) (by decide +kernel)⟩
  have put := writes.step ⟨.put false "notes" noteKey note 5, alone _ (by decide +kernel),
    .put (stores_eq_viewOf (by decide +kernel)) (by decide +kernel) (by decide)
      (by decide +kernel)⟩
  have committed := put.step ⟨.commit false, trivial,
    .commit (stores_eq_viewOf (by decide +kernel)) (by decide +kernel) (by decide +kernel)⟩
  have settled : (notesFile.openFirst false).committedNote.settled = true := by decide +kernel
  exact careful_agrees exactCodecs (committed.step ⟨.openStore true, fun _ _ _ => settled,
    .openNext (Option.isNone_iff_eq_none.mp (by decide +kernel))
      (stores_eq_viewOf (by decide +kernel : ((notesFile.openFirst false).committedNote.stores
        false).isSome = true))⟩)

/-- Both stores are open when one of them puts a note and commits it. -/
def openedBefore : SharedStores Bool Unit Unit :=
  ((notesFile.openFirst false).openNext true).committedNote

theorem agrees_fails : ¬∀ shared : SharedStores Bool Unit Unit,
    Reachable Created (fun before after => ∃ move, Moves exactCodecs before move after) shared →
      shared.Agrees exactCodecs.lossy := by
  intro always
  have opened : Reachable Created (fun before after => ∃ move,
      Moves exactCodecs before move after) (notesFile.openFirst false) :=
    .step (.start notesFile_created) ⟨.openStore false, .openFirst fun _ => rfl⟩
  have both := opened.step ⟨.openStore true,
    .openNext (Option.isNone_iff_eq_none.mp (by decide +kernel))
      (stores_eq_viewOf (by decide +kernel : ((notesFile.openFirst false).stores
        false).isSome = true))⟩
  have writes := both.step ⟨.openWriter false,
    .openWriter (stores_eq_viewOf (by decide +kernel)) (by decide +kernel)⟩
  have put := writes.step ⟨.put false "notes" noteKey note 5,
    .put (stores_eq_viewOf (by decide +kernel)) (by decide +kernel) (by decide)
      (by decide +kernel)⟩
  have committed : Reachable Created (fun before after => ∃ move,
      Moves exactCodecs before move after) openedBefore := put.step ⟨.commit false,
    .commit (stores_eq_viewOf (by decide +kernel)) (by decide +kernel) (by decide +kernel)⟩
  have view := stores_eq_viewOf (by decide +kernel : (openedBefore.stores true).isSome = true)
  have agrees := (always openedBefore committed (by decide +kernel)).2 true _ view
  obtain ⟨finds, _⟩ := agrees (by decide +kernel) "notes" 0
    ⟨[("body", .text "words"), ("embedding", .vector "meaning" 1)]⟩ (by decide +kernel)
  have found := finds noteKey
  have was : openedBefore.committed (0, noteKey.encode) = some ⟨"notes", note⟩ := by
    decide +kernel
  have keyed : (openedBefore.keyed (openedBefore.viewOf true)).committed (0, noteKey.encode) =
    some ⟨"notes", note⟩ := was
  rw [keyed] at found
  obtain ⟨stored, read, _⟩ := found
  have missed : noteRead (openedBefore.session (openedBefore.viewOf true)) = .ok none := by
    decide +kernel
  exact absurd (read.symm.trans missed) (by simp)

end Examples

end SharedStores

end Valise
