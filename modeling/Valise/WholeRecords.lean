import Valise.IdentityRebuild
import Valise.Library.Runs
import Valise.StoredRecords

/-!
Writers of one store, one after the other: a writer puts, deletes and commits, and may be dropped
before it commits. What is staged in a writer is lost with it; what the engine holds is not.
-/

namespace Valise

open Commands Command Outcomes Runs Writer

structure StoreSession (κ γ : Type) where
  engine : StoreEngine κ
  schema : SchemaRegistry γ
  identity : IdentityIndex
  /-- The staged vectors of the writer, while there is one. -/
  writer : Option (List StagedVector) := none
  /-- The record of the last put that succeeded, of every key that was not deleted since. -/
  given : RecordId → Option Given := fun _ => none
  /-- Nothing was put or deleted since the last commit. -/
  settled : Bool := false

inductive StoreAction where
  | openWriter
  | put (coll : String) (key : Key) (record : Record) (now : Int64)
  | delete (coll : String) (key : Key)
  | commit
  | dropWriter
  | fail (faults : StorePoint → Bool)

namespace StoreSession

variable {κ γ : Type} (codecs : StoreCodecs κ γ)

/-- A store that was opened on the rows of its last commit. -/
def opened (engine : StoreEngine κ) (schema : SchemaRegistry γ) : StoreSession κ γ where
  engine := engine.reopen
  schema := schema
  identity := IdentityIndex.rebuild engine.reopen

def Opened (session : StoreSession κ γ) : Prop :=
  ∃ engine schema, SchemaRegistry.Sound schema engine.durable.spaces.length ∧
    session = opened engine schema

variable (session : StoreSession κ γ)

def state : WriterState κ γ :=
  ⟨session.engine, session.schema, session.identity, session.writer.getD []⟩

def wrote (state : WriterState κ γ) : StoreSession κ γ :=
  { session with
    engine := state.engine
    schema := state.schema
    identity := state.identity
    writer := some state.staged }

def giving (coll : String) (key : Key) (given : Option Given) : RecordId → Option Given :=
  match session.schema.collections.lookup coll with
  | none => session.given
  | some record => Function.update session.given (record.collectionId, key.encode) given

def put (coll : String) (key : Key) (record : Record) (now : Int64) : StoreSession κ γ :=
  let (outcome, state) := Writer.put coll key record now session.state
  match outcome with
  | .ok _ => { session.wrote state with
      given := session.giving coll key (some ⟨coll, record⟩), settled := false }
  | _ => { session.wrote state with settled := false }

def delete (coll : String) (key : Key) : StoreSession κ γ :=
  let (outcome, state) := Writer.delete coll key session.state
  match outcome with
  | .ok _ => { session.wrote state with given := session.giving coll key none, settled := false }
  | _ => { session.wrote state with settled := false }

def commit : StoreSession κ γ :=
  let (outcome, state) := Writer.commit codecs session.state
  match outcome with
  | .ok _ => { session.wrote state with settled := true }
  | _ => { session.wrote state with settled := false }

/-- What an action leads to; a writer is opened only while there is none. -/
def act : StoreAction → Option (StoreSession κ γ)
  | .openWriter => if session.writer = none then some { session with writer := some [] } else none
  | .put coll key record now =>
      if session.writer = none then none else some (session.put coll key record now)
  | .delete coll key => if session.writer = none then none else some (session.delete coll key)
  | .commit => if session.writer = none then none else some (session.commit codecs)
  | .dropWriter => if session.writer = none then none else some { session with writer := none }
  | .fail faults => some { session with engine := { session.engine with faults } }

/-- A writer that still has staged vectors is not dropped. -/
def Attended : StoreAction → Prop
  | .dropWriter => session.writer = some []
  | _ => True

/-- Every record that a commit made readable has all that its put was given. -/
def Whole : Prop :=
  session.settled = true → ∀ coll key stored,
    Reader.get codecs.lossy session.state coll key = .ok (some stored) →
    ∀ collectionId shape given, session.schema.bound coll = some (collectionId, shape) →
      session.given (collectionId, key.encode) = some given →
      CarriesRecord codecs.lossy session.state shape given.record stored ∧
      ∀ field space text, shape.textField = some (field, space) →
        given.record.textValue = some text →
        ∃ entry textSpaceId, session.identity.entryAt (collectionId, key.encode) = some entry ∧
          session.schema.textSpaceId space = some textSpaceId ∧
          (entry.frameId, textSpaceId) ∈ session.engine.durable.postings

/-- What every attended run keeps. -/
structure Tended : Prop where
  tracks : TracksRecords session.state session.given
  settled : session.settled = true →
    session.writer.getD [] = [] ∧ session.engine.durable = session.engine.tables

section Steps

variable {codecs} {session}

theorem giving_of_bound (session : StoreSession κ γ) {coll : String} (key : Key)
    {collectionId : Nat} {shape : Option Shape}
    (known : session.schema.collections.lookup coll = some ⟨collectionId, shape⟩)
    (given : Option Given) : session.giving coll key given =
      Function.update session.given (collectionId, key.encode) given := by
  unfold giving
  rw [known]

theorem Opened.tended (opened : session.Opened) : session.Tended := by
  obtain ⟨engine, schema, sound, rfl⟩ := opened
  refine ⟨⟨sound, ?_, nofun, nofun⟩, nofun⟩
  intro id entry found
  obtain ⟨first, was, rfl⟩ :=
    Option.map_eq_some_iff.mp ((IdentityIndex.entryAt_rebuild _ id).symm.trans found)
  obtain ⟨frameId, _, keyed, rfl⟩ := IdentityIndex.rebuiltFrames_sound was
  obtain ⟨row, there, _, uri, _, collection⟩ := IdentityIndex.keyed_eq_some.mp keyed
  have read : (engine.reopen).readFrameUri frameId = row.uri := by
    rw [StoreEngine.readFrameUri, there]
    rfl
  exact ⟨row, there, collection, read.symm.trans uri⟩

theorem Tended.put (tended : session.Tended) (coll : String) (key : Key) (record : Record)
    (now : Int64) : (session.put coll key record now).Tended := by
  unfold StoreSession.put
  have meets : Meets (session.state.Untouched) _ _ _ := put_fails coll key record now
  have fails := meets session.state (untouched_refl _)
  revert fails
  cases result : Writer.put coll key record now session.state with
  | mk outcome after =>
    cases outcome with
    | ok value =>
      intro _
      obtain ⟨plan, done⟩ := put_ok result
      obtain ⟨shape, plans⟩ := resolvePlan_ok done.planned
      have tracks := tended.tracks.put done
      have given := session.giving_of_bound key (SchemaRegistry.bound_eq_some.mp plans.bound)
        (some ⟨coll, record⟩)
      exact ⟨given ▸ tracks, nofun⟩
    | err error => exact fun untouched => ⟨tended.tracks.grow untouched, nofun⟩
    | panic => exact fun untouched => ⟨tended.tracks.grow untouched, nofun⟩

theorem Tended.delete (tended : session.Tended) (coll : String) (key : Key) :
    (session.delete coll key).Tended := by
  unfold StoreSession.delete
  have meets : Meets (session.state.Untouched) _ _ _ := delete_fails coll key
  have fails := meets session.state (untouched_refl _)
  revert fails
  cases result : Writer.delete coll key session.state with
  | mk outcome after =>
    cases outcome with
    | ok found =>
      intro _
      obtain ⟨record, known, tracks⟩ := tended.tracks.delete (delete_ok result)
      have given := session.giving_of_bound key known none
      exact ⟨given ▸ tracks, nofun⟩
    | err error => exact fun untouched => ⟨tended.tracks.grow untouched, nofun⟩
    | panic => exact fun untouched => ⟨tended.tracks.grow untouched, nofun⟩

theorem Tended.commit (tended : session.Tended) : (session.commit codecs).Tended := by
  unfold StoreSession.commit
  have tracks : TracksRecords (Writer.commit codecs session.state).2 session.given :=
    commit_keeps_tracks session.state tended.tracks
  revert tracks
  cases result : Writer.commit codecs session.state with
  | mk outcome after =>
    cases outcome with
    | ok value =>
      intro tracks
      have done := commit_ok result
      refine ⟨tracks, fun _ => ⟨done.staged_nil, ?_⟩⟩
      obtain ⟨middle, engine, _, committed, rfl⟩ := done.committed
      exact committed.durable.trans committed.tables.symm
    | err error => exact fun tracks => ⟨tracks, nofun⟩
    | panic => exact fun tracks => ⟨tracks, nofun⟩

theorem Tended.act (tended : session.Tended) {action : StoreAction} {next : StoreSession κ γ}
    (attended : session.Attended action) (acts : session.act codecs action = some next) :
    next.Tended := by
  cases action with
  | openWriter =>
    obtain ⟨closed, same⟩ := Option.ite_none_right_eq_some.mp acts
    obtain rfl := Option.some.inj same
    obtain ⟨tracks, settled⟩ := tended
    simp only [state, closed] at tracks settled
    exact ⟨tracks, settled⟩
  | put coll key record now =>
    obtain ⟨_, same⟩ := Option.ite_none_left_eq_some.mp acts
    exact Option.some.inj same ▸ tended.put coll key record now
  | delete coll key =>
    obtain ⟨_, same⟩ := Option.ite_none_left_eq_some.mp acts
    exact Option.some.inj same ▸ tended.delete coll key
  | commit =>
    obtain ⟨_, same⟩ := Option.ite_none_left_eq_some.mp acts
    exact Option.some.inj same ▸ tended.commit
  | dropWriter =>
    obtain ⟨_, same⟩ := Option.ite_none_left_eq_some.mp acts
    obtain rfl := Option.some.inj same
    obtain ⟨tracks, settled⟩ := tended
    have empty : session.writer = some [] := attended
    simp only [state, empty] at tracks settled
    exact ⟨tracks, settled⟩
  | fail faults =>
    cases acts
    exact ⟨tended.tracks.grow ⟨.refl _, rfl, rfl, rfl⟩, tended.settled⟩

theorem Tended.whole (tended : session.Tended) : session.Whole codecs := by
  intro settled coll key stored read collectionId shape given bound was
  obtain ⟨empty, durable⟩ := tended.settled settled
  obtain ⟨entry, found, describes⟩ := tended.tracks.described _ _ was
  obtain ⟨described, bound', _, frame, _⟩ := describes.frame
  have same : given.coll = coll := tended.tracks.schema.apart _ _ _ _
    (SchemaRegistry.bound_eq_some.mp bound') (SchemaRegistry.bound_eq_some.mp bound) rfl
  obtain rfl : described = shape :=
    (Prod.ext_iff.mp (Option.some.inj ((same ▸ bound').symm.trans bound))).2
  refine ⟨?_, ?_⟩
  · obtain ⟨collectionId', shape', bound'', rest⟩ := Reader.get_ok read
    obtain ⟨rfl, rfl⟩ := Prod.ext_iff.mp (Option.some.inj (bound''.symm.trans bound))
    have existing : session.state.identity.entryAt (collectionId', key.encode) = some entry := found
    rw [existing] at rest
    obtain ⟨_, ⟨⟩, materialized⟩ := rest
    exact describes.carries tended.tracks.schema bound' (by simp [state, empty, waiting]) materialized
  · intro field space text inShape set
    obtain ⟨textSpaceId, registered, posted⟩ := frame.posting field space text inShape set
    exact ⟨entry, textSpaceId, found, registered, durable ▸ posted⟩

end Steps

/-- Whatever writers do and whatever fails, commits publish whole records, so long as no writer is
dropped with vectors that are still staged. -/
theorem attended_whole (codecs : StoreCodecs κ γ) {session : StoreSession κ γ}
    (reachable : Reachable Opened (fun before after => ∃ action,
      before.Attended action ∧ before.act codecs action = some after) session) :
    session.Whole codecs := by
  have tended : session.Tended := reachable.invariant (fun _ opened => Opened.tended opened)
    fun _ _ tended ⟨_, attended, acts⟩ => tended.act attended acts
  exact tended.whole

/-! ### Runs -/

def run (codecs : StoreCodecs κ γ) (session : StoreSession κ γ) (actions : List StoreAction) :
    Option (StoreSession κ γ) :=
  actions.foldlM (act codecs) session

theorem run_reachable {codecs : StoreCodecs κ γ} {step : StoreSession κ γ → StoreSession κ γ → Prop}
    {actions : List StoreAction}
    (taken : ∀ action ∈ actions, ∀ before after, before.act codecs action = some after →
      step before after) {session final : StoreSession κ γ}
    (reachable : Reachable Opened step session) (runs : session.run codecs actions = some final) :
    Reachable Opened step final := by
  induction actions generalizing session with
  | nil =>
    cases runs
    exact reachable
  | cons action rest ih =>
    obtain ⟨next, acts, onward⟩ := Option.bind_eq_some_iff.mp runs
    exact ih (fun other later => taken other (List.mem_cons_of_mem _ later))
      (reachable.step (taken action List.mem_cons_self _ _ acts)) onward

section Examples

/-- Codes that lose nothing. -/
def exactCodecs : StoreCodecs Unit Unit where
  calibrate _ _ _ := .ok ()
  lossy _ values := values

/-- One collection with a text and a vector field, whose space is calibrated at a commit. -/
def notesSchema : SchemaRegistry Unit where
  vectorSpaces := [("meaning", ⟨1, .deferred 1 ()⟩)]
  textSpaces := [("words", 0)]
  collections := [("notes",
    ⟨0, some ⟨[("body", .text "words"), ("embedding", .vector "meaning" 1)]⟩⟩)]

def note : Record where
  fields := [("body", .text "a"), ("embedding", .vector [⟨0⟩])]

def noteKey : Key := .u64 7

theorem lookup_one {α : Type} {name key : String} {entry found : α}
    (known : [(name, entry)].lookup key = some found) : key = name ∧ found = entry := by
  obtain ⟨before, after, split, _⟩ := List.lookup_eq_some_iff.mp known
  have member : (key, found) ∈ [(name, entry)] := by simp [split]
  exact Prod.ext_iff.mp (List.mem_singleton.mp member)

theorem notesSchema_sound (spaceCount : Nat) : notesSchema.Sound spaceCount where
  ready := by
    intro name spaceId ready
    obtain ⟨dim, known⟩ := SchemaRegistry.vectorSpaceId_eq_some.mp ready
    cases (lookup_one known).2
  distinct := by
    intro first second spaceId ready
    obtain ⟨dim, known⟩ := SchemaRegistry.vectorSpaceId_eq_some.mp ready
    cases (lookup_one known).2
  sampled := by
    intro name dim sampleTarget codec known
    cases (lookup_one known).2
    decide
  shaped := by
    intro coll collectionId shape bound
    cases (lookup_one (SchemaRegistry.bound_eq_some.mp bound)).2
    exact ⟨by decide, by decide, by decide⟩
  apart := by
    intro first second _ _ one other _
    rw [(lookup_one one).1, (lookup_one other).1]

def notesStore : StoreSession Unit Unit := opened {} notesSchema

theorem notesStore_opened : Opened notesStore := ⟨{}, notesSchema, notesSchema_sound _, rfl⟩

def noteRead (session : StoreSession Unit Unit) : Result (Option StoredRecord) :=
  Reader.get exactCodecs.lossy session.state "notes" noteKey

/-- A note is put and committed by the writer that put it. -/
def keepNote : List StoreAction := [.openWriter, .put "notes" noteKey note 5, .commit]

theorem keepNote_whole : ∃ final, notesStore.run exactCodecs keepNote = some final ∧
    final.Whole exactCodecs ∧
    noteRead final = .ok (some ⟨noteKey, "notes", 5, some "a", [("embedding", [⟨0⟩])]⟩) := by
  have read : (notesStore.run exactCodecs keepNote).map noteRead =
    some (.ok (some ⟨noteKey, "notes", 5, some "a", [("embedding", [⟨0⟩])]⟩)) := by decide +kernel
  obtain ⟨final, runs, found⟩ := Option.map_eq_some_iff.mp read
  refine ⟨final, runs, attended_whole exactCodecs ?_, found⟩
  refine run_reachable ?_ (.start notesStore_opened) runs
  intro action member before after acts
  refine ⟨action, ?_, acts⟩
  simp only [keepNote, List.mem_cons, List.not_mem_nil, or_false] at member
  rcases member with rfl | rfl | rfl <;> trivial

/-- The note's writer is dropped, and another writer commits. -/
def abandonNote : List StoreAction :=
  [.openWriter, .put "notes" noteKey note 5, .dropWriter, .openWriter, .commit]

theorem whole_fails : ¬∀ final : StoreSession Unit Unit,
    Reachable Opened (fun before after => ∃ action, before.act exactCodecs action = some after)
      final → final.Whole exactCodecs := by
  intro always
  have read : (notesStore.run exactCodecs abandonNote).map (fun final => (noteRead final,
      final.settled)) = some (.ok (some ⟨noteKey, "notes", 5, some "a", []⟩), true) := by
    decide +kernel
  have put : (notesStore.run exactCodecs abandonNote).map (fun final =>
      (final.schema.bound "notes", final.given (0, noteKey.encode))) =
      some (notesSchema.bound "notes", some ⟨"notes", note⟩) := by
    decide +kernel
  obtain ⟨final, runs, facts⟩ := Option.map_eq_some_iff.mp read
  obtain ⟨found, settled⟩ := Prod.ext_iff.mp facts
  rw [runs] at put
  obtain ⟨bound, given⟩ := Prod.ext_iff.mp (Option.some.inj put)
  have reachable : Reachable Opened (fun before after => ∃ action,
      before.act exactCodecs action = some after) final :=
    run_reachable (fun action _ before after acts => ⟨action, acts⟩) (.start notesStore_opened) runs
  obtain ⟨⟨_, _, read, fields, same⟩, _⟩ :=
    always final reachable settled "notes" noteKey _ found 0 _ _ bound given
  have length := fields.length_eq.trans same.length_eq.symm
  exact absurd length (by decide)

end Examples

end StoreSession

end Valise
