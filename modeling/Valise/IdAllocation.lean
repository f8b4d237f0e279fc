import Valise.Changes
import Valise.Library.Runs
import Valise.Reopening
import Valise.StoredCatalog

/-!
Where ids come from: the counters are published with every footer and are moved past the ids of the
catalog that an open loads, so that no id is given out twice.
-/

namespace Valise

open Outcomes Runs

/-! ### The allocator -/

def CatalogTableKind.label : CatalogTableKind → String
  | .segment => "segment"
  | .collection => "collection"
  | .frame => "frame"
  | .textSpace => "text space"
  | .analyzer => "analyzer"
  | .fieldSchema => "field schema"
  | .retrievalProfile => "retrieval profile"
  | .embeddingSpace => "embedding space"
  | .codec => "codec"
  | .vector => "vector"
  | .fusionProfile => "fusion profile"

namespace IdAllocator

/-- A counter moves on only where its next value exists. -/
def allocateId (ids : IdAllocator) : CatalogTableKind → Result (Nat × IdAllocator)
  | .segment => do
      let (id, next) ← takeU64 "segment" ids.nextSegmentId
      return (id.toNat, { ids with nextSegmentId := next })
  | .collection => do
      let (id, next) ← takeU32 "collection" ids.nextCollectionId
      return (id.toNat, { ids with nextCollectionId := next })
  | .frame => do
      let (id, next) ← takeU64 "frame" ids.nextFrameId
      return (id.toNat, { ids with nextFrameId := next })
  | .textSpace => do
      let (id, next) ← takeU32 "text space" ids.nextTextSpaceId
      return (id.toNat, { ids with nextTextSpaceId := next })
  | .analyzer => do
      let (id, next) ← takeU32 "analyzer" ids.nextAnalyzerId
      return (id.toNat, { ids with nextAnalyzerId := next })
  | .fieldSchema => do
      let (id, next) ← takeU32 "field schema" ids.nextFieldSchemaId
      return (id.toNat, { ids with nextFieldSchemaId := next })
  | .retrievalProfile => do
      let (id, next) ← takeU32 "retrieval profile" ids.nextRetrievalProfileId
      return (id.toNat, { ids with nextRetrievalProfileId := next })
  | .embeddingSpace => do
      let (id, next) ← takeU32 "embedding space" ids.nextEmbeddingSpaceId
      return (id.toNat, { ids with nextEmbeddingSpaceId := next })
  | .codec => do
      let (id, next) ← takeU32 "codec" ids.nextCodecId
      return (id.toNat, { ids with nextCodecId := next })
  | .vector => do
      let (id, next) ← takeU64 "vector" ids.nextVectorId
      return (id.toNat, { ids with nextVectorId := next })
  | .fusionProfile => do
      let (id, next) ← takeU32 "fusion profile" ids.nextFusionProfileId
      return (id.toNat, { ids with nextFusionProfileId := next })

def observeId (ids : IdAllocator) (kind : CatalogTableKind) (id : Nat) : Result IdAllocator := do
  Outcome.ensure (id ≠ 0) (.format s!"{kind.label} id must be non-zero")
  Outcome.ensure (id + 1 < kind.idLimit) (.format s!"{kind.label} id space exhausted")
  return if ids.counter kind < id + 1 then ids.setCounter (id + 1) kind else ids

/-- An open expects that the ids of the catalog can be observed. -/
theorem observeIds_cons (kind : CatalogTableKind) (id : Nat) (rest : List Nat) (ids : IdAllocator) :
    observeIds kind (id :: rest) ids = match ids.observeId kind id with
      | .ok next => observeIds kind rest next
      | _ => .panic := by
  unfold observeId
  rw [observeIds]
  by_cases zero : id = 0
  · rw [if_pos (.inl zero), Outcome.ensure_false _ (not_not_intro zero)]
    rfl
  · rw [Outcome.ensure_true _ zero, Outcome.ok_bind]
    by_cases fits : id + 1 < kind.idLimit
    · rw [if_neg (by omega), Outcome.ensure_true _ fits]
      rfl
    · rw [if_pos (by omega), Outcome.ensure_false _ fits]
      rfl

variable {ids after : IdAllocator} {kind : CatalogTableKind} {id : Nat}

theorem takeU32_room (label : String) {next : UInt32} (positive : 0 < next.toNat)
    (room : next.toNat + 1 < 2 ^ 32) : takeU32 label next = .ok (next, next + 1) := by
  have nonzero : next ≠ 0 := by
    rintro rfl
    exact absurd positive (Nat.lt_irrefl 0)
  unfold takeU32
  rw [Outcome.ensure_true _ nonzero, Outcome.ok_bind, Outcome.ensure_true _ room]
  rfl

theorem takeU32_full (label : String) {next : UInt32} (positive : 0 < next.toNat)
    (full : 2 ^ 32 ≤ next.toNat + 1) :
    takeU32 label next = .err (.format s!"{label} id space exhausted") := by
  have nonzero : next ≠ 0 := by
    rintro rfl
    exact absurd positive (Nat.lt_irrefl 0)
  unfold takeU32
  rw [Outcome.ensure_true _ nonzero, Outcome.ok_bind, Outcome.ensure_false _ (Nat.not_lt.mpr full)]
  rfl

theorem takeU64_room (label : String) {next : UInt64} (positive : 0 < next.toNat)
    (room : next.toNat + 1 < 2 ^ 64) : takeU64 label next = .ok (next, next + 1) := by
  have nonzero : next ≠ 0 := by
    rintro rfl
    exact absurd positive (Nat.lt_irrefl 0)
  unfold takeU64
  rw [Outcome.ensure_true _ nonzero, Outcome.ok_bind, Outcome.ensure_true _ room]
  rfl

theorem takeU64_full (label : String) {next : UInt64} (positive : 0 < next.toNat)
    (full : 2 ^ 64 ≤ next.toNat + 1) :
    takeU64 label next = .err (.format s!"{label} id space exhausted") := by
  have nonzero : next ≠ 0 := by
    rintro rfl
    exact absurd positive (Nat.lt_irrefl 0)
  unfold takeU64
  rw [Outcome.ensure_true _ nonzero, Outcome.ok_bind, Outcome.ensure_false _ (Nat.not_lt.mpr full)]
  rfl

/-- An id that is returned is the counter of its kind, which moves past it. -/
theorem allocateId_took (done : ids.allocateId kind = .ok (id, after)) : ids.Took after kind id := by
  cases kind
  all_goals
    obtain ⟨⟨taken, next⟩, ran, same⟩ := Outcome.bind_eq_ok.mp done
    obtain ⟨rfl, rfl⟩ := Prod.mk.inj (Outcome.ok.inj same)
    first
    | obtain ⟨rfl, positive, step⟩ := takeU32_takes _ _ _ _ ran
      exact ⟨positive, rfl, step, fun other apart => by cases other <;> first | rfl | contradiction⟩
    | obtain ⟨rfl, positive, step⟩ := takeU64_takes _ _ _ _ ran
      exact ⟨positive, rfl, step, fun other apart => by cases other <;> first | rfl | contradiction⟩

/-- Without room for the next id the counter stands, and an error says so. -/
theorem allocateId_exhausted (positive : 0 < ids.counter kind)
    (full : kind.idLimit ≤ ids.counter kind + 1) :
    ids.allocateId kind = .err (.format s!"{kind.label} id space exhausted") := by
  cases kind
  all_goals
    simp only [allocateId]
    first
    | rw [takeU32_full _ positive full]
      rfl
    | rw [takeU64_full _ positive full]
      rfl

theorem allocateId_isOk (positive : 0 < ids.counter kind)
    (room : ids.counter kind + 1 < kind.idLimit) :
    ∃ after, ids.allocateId kind = .ok (ids.counter kind, after) := by
  cases kind
  all_goals
    simp only [allocateId]
    first
    | rw [takeU32_room _ positive room]
      exact ⟨_, rfl⟩
    | rw [takeU64_room _ positive room]
      exact ⟨_, rfl⟩

theorem observeId_counts (done : ids.observeId kind id = .ok after) :
    (∀ other, ids.counter other ≤ after.counter other) ∧ 0 < id ∧ id < after.counter kind := by
  have ran : observeIds kind [id] ids = .ok after := by
    rw [observeIds_cons, done]
    rfl
  obtain ⟨grown, behind⟩ := observeIds_counts ran
  exact ⟨grown, behind id List.mem_cons_self⟩

end IdAllocator

/-! ### Histories -/

/-- What a handle has, and the ids that were given out or observed on the way to it. -/
structure IdSession where
  ids : IdAllocator
  tables : Tables
  loaded : Tables
  given : List (CatalogTableKind × Nat)
  observed : List (CatalogTableKind × Nat)

namespace IdSession

def fresh : IdSession where
  ids := {}
  tables := fun _ => []
  loaded := fun _ => []
  given := []
  observed := []

def givenOf (session : IdSession) (kind : CatalogTableKind) : List Nat :=
  (session.given.filter fun entry => entry.1 = kind).map Prod.snd

/-- The operations of one handle; catalogs name ids that were given out or rows that were there. -/
inductive Step (before : IdSession) : IdSession → Prop
  | allocate {kind : CatalogTableKind} {id : Nat} {after : IdAllocator} :
      before.ids.allocateId kind = .ok (id, after) →
      Step before { before with ids := after, given := before.given ++ [(kind, id)] }
  | observe {kind : CatalogTableKind} {id : Nat} {after : IdAllocator} :
      before.ids.observeId kind id = .ok after →
      Step before { before with ids := after, observed := before.observed ++ [(kind, id)] }
  | change {tables : Tables} :
      (∀ kind, ∀ row ∈ tables kind, (kind, kind.rowId row) ∈ before.given ∨
        kind.rowId row ∈ (before.tables kind).map kind.rowId) →
      Step before { before with tables }

/-- A footer has the counters and the segments, and an open observes the tables that it loads. -/
def ReopenedFrom (session footer : IdSession) : Prop :=
  observeCatalogIds session.loaded CatalogTableKind.flushOrder footer.ids = .ok session.ids ∧
    session.loaded .segment = footer.tables .segment ∧ session.tables = session.loaded ∧
    session.given = footer.given ∧ session.observed = footer.observed

structure Sound (session : IdSession) : Prop where
  positive : ∀ kind, 0 < session.ids.counter kind
  given : ∀ kind id, (kind, id) ∈ session.given → 0 < id ∧ id < session.ids.counter kind
  observed : ∀ kind id, (kind, id) ∈ session.observed → id < session.ids.counter kind
  tables : ∀ kind, ∀ row ∈ session.tables kind,
    0 < kind.rowId row ∧ kind.rowId row < session.ids.counter kind
  loaded : ∀ kind, ∀ row ∈ session.loaded kind, kind.rowId row < session.ids.counter kind
  increasing : ∀ kind, (session.givenOf kind).Pairwise (· < ·)

theorem mem_givenOf {session : IdSession} {kind : CatalogTableKind} {id : Nat} :
    id ∈ session.givenOf kind ↔ (kind, id) ∈ session.given := by
  simp [givenOf]

theorem fresh_sound : fresh.Sound where
  positive kind := by cases kind <;> exact Nat.one_pos
  given _ _ member := absurd member List.not_mem_nil
  observed _ _ member := absurd member List.not_mem_nil
  tables _ _ member := absurd member List.not_mem_nil
  loaded _ _ member := absurd member List.not_mem_nil
  increasing _ := List.Pairwise.nil

variable {before after : IdSession}

theorem Sound.allocate {kind : CatalogTableKind} {id : Nat} {ids : IdAllocator}
    (sound : before.Sound) (done : before.ids.allocateId kind = .ok (id, ids)) :
    Sound { before with ids, given := before.given ++ [(kind, id)] } := by
  have took := IdAllocator.allocateId_took done
  have grown := took.grown
  refine ⟨fun other => Nat.lt_of_lt_of_le (sound.positive other) (grown other), ?_, ?_, ?_, ?_, ?_⟩
  · intro other given member
    rcases List.mem_append.mp member with old | new
    · obtain ⟨positive, below⟩ := sound.given other given old
      exact ⟨positive, Nat.lt_of_lt_of_le below (grown other)⟩
    · obtain ⟨rfl, rfl⟩ := Prod.mk.inj (List.mem_singleton.mp new)
      exact ⟨took.positive, took.named_lt⟩
  · intro other seen member
    exact Nat.lt_of_lt_of_le (sound.observed other seen member) (grown other)
  · intro other row member
    obtain ⟨positive, below⟩ := sound.tables other row member
    exact ⟨positive, Nat.lt_of_lt_of_le below (grown other)⟩
  · intro other row member
    exact Nat.lt_of_lt_of_le (sound.loaded other row member) (grown other)
  · intro other
    have split : givenOf { before with ids, given := before.given ++ [(kind, id)] } other =
        before.givenOf other ++ if kind = other then [id] else [] := by
      by_cases same : kind = other <;> simp [givenOf, same]
    rw [split]
    by_cases same : kind = other
    · rw [if_pos same, List.pairwise_append]
      refine ⟨sound.increasing other, List.pairwise_singleton _ _, ?_⟩
      intro given member next isNew
      subst same
      rw [List.mem_singleton.mp isNew, ← took.was]
      exact (sound.given _ given (mem_givenOf.mp member)).2
    · rw [if_neg same, List.append_nil]
      exact sound.increasing other

theorem Sound.step (sound : before.Sound) (taken : before.Step after) : after.Sound := by
  cases taken with
  | allocate done => exact sound.allocate done
  | observe done =>
      obtain ⟨grown, positive, below⟩ := IdAllocator.observeId_counts done
      refine ⟨fun other => Nat.lt_of_lt_of_le (sound.positive other) (grown other), ?_, ?_, ?_, ?_,
        sound.increasing⟩
      · intro other given member
        obtain ⟨here, older⟩ := sound.given other given member
        exact ⟨here, Nat.lt_of_lt_of_le older (grown other)⟩
      · intro other seen member
        rcases List.mem_append.mp member with old | new
        · exact Nat.lt_of_lt_of_le (sound.observed other seen old) (grown other)
        · obtain ⟨rfl, rfl⟩ := Prod.mk.inj (List.mem_singleton.mp new)
          exact below
      · intro other row member
        obtain ⟨here, older⟩ := sound.tables other row member
        exact ⟨here, Nat.lt_of_lt_of_le older (grown other)⟩
      · intro other row member
        exact Nat.lt_of_lt_of_le (sound.loaded other row member) (grown other)
  | change named =>
      refine ⟨sound.positive, sound.given, sound.observed, ?_, sound.loaded, sound.increasing⟩
      intro kind row member
      rcases named kind row member with given | kept
      · exact sound.given kind _ given
      · obtain ⟨old, inside, same⟩ := List.mem_map.mp kept
        rw [← same]
        exact sound.tables kind old inside

theorem Sound.reopened {session footer : IdSession} (sound : footer.Sound)
    (reopened : session.ReopenedFrom footer) : session.Sound := by
  obtain ⟨counted, segments, current, given, observed⟩ := reopened
  obtain ⟨grown, behind⟩ := observeCatalogIds_counts counted
  have loads : ∀ kind, ∀ row ∈ session.loaded kind,
      0 < kind.rowId row ∧ kind.rowId row < session.ids.counter kind := by
    intro kind row member
    by_cases registry : kind = .segment
    · subst registry
      rw [segments] at member
      obtain ⟨here, below⟩ := sound.tables .segment row member
      exact ⟨here, Nat.lt_of_lt_of_le below (grown .segment)⟩
    · exact behind kind ((CatalogTableKind.mem_flushOrder kind).mpr registry) row member
  refine ⟨fun other => Nat.lt_of_lt_of_le (sound.positive other) (grown other), ?_, ?_, ?_,
    fun kind row member => (loads kind row member).2, ?_⟩
  · intro other id member
    rw [given] at member
    obtain ⟨here, below⟩ := sound.given other id member
    exact ⟨here, Nat.lt_of_lt_of_le below (grown other)⟩
  · intro other id member
    rw [observed] at member
    exact Nat.lt_of_lt_of_le (sound.observed other id member) (grown other)
  · rw [current]
    exact loads
  · intro kind
    unfold givenOf
    rw [given]
    exact sound.increasing kind

end IdSession

/-- The footers in a file, and the handle that is open on it. -/
structure IdHistory where
  live : Option IdSession
  footers : List IdSession

namespace IdHistory

def Fresh (history : IdHistory) : Prop :=
  history = { live := some .fresh, footers := [.fresh] }

/-- An open may fall back to any footer that survives; what came after it is lost. -/
inductive Step : IdHistory → IdHistory → Prop
  | operate {before after : IdSession} {footers : List IdSession} :
      before.Step after → Step ⟨some before, footers⟩ ⟨some after, footers⟩
  | commit {session : IdSession} {footers : List IdSession} :
      Step ⟨some session, footers⟩ ⟨some session, footers ++ [session]⟩
  | crash {live : Option IdSession} {footers survive : List IdSession} :
      survive.Sublist footers → Step ⟨live, footers⟩ ⟨none, survive⟩
  | reopen {session footer : IdSession} {footers : List IdSession} :
      footer ∈ footers → session.ReopenedFrom footer →
      Step ⟨none, footers⟩ ⟨some session, footers⟩

structure Sound (history : IdHistory) : Prop where
  live : ∀ session ∈ history.live, session.Sound
  footers : ∀ footer ∈ history.footers, footer.Sound

theorem Sound.step {before after : IdHistory} (sound : before.Sound) (taken : before.Step after) :
    after.Sound := by
  cases taken with
  | operate ran =>
      refine ⟨fun session same => ?_, sound.footers⟩
      obtain rfl := Option.some.inj same
      exact (sound.live _ rfl).step ran
  | commit =>
      refine ⟨sound.live, fun footer member => ?_⟩
      rcases List.mem_append.mp member with old | new
      · exact sound.footers footer old
      · obtain rfl := List.mem_singleton.mp new
        exact sound.live _ rfl
  | crash survive =>
      exact ⟨fun _ none => (nomatch none), fun footer member => sound.footers footer (survive.mem member)⟩
  | reopen member reopened =>
      refine ⟨fun session same => ?_, sound.footers⟩
      obtain rfl := Option.some.inj same
      exact (sound.footers _ member).reopened reopened

theorem sound_of_reachable {history : IdHistory} (reachable : Reachable Fresh Step history) :
    history.Sound := by
  refine reachable.invariant ?_ fun _ _ sound taken => sound.step taken
  rintro _ rfl
  refine ⟨fun session same => ?_, fun footer member => ?_⟩
  · obtain rfl := Option.some.inj same
    exact IdSession.fresh_sound
  · obtain rfl := List.mem_singleton.mp member
    exact IdSession.fresh_sound

/-- No id of the history that survives and no id of the catalog is given out again. -/
theorem allocateId_fresh {history : IdHistory} {session : IdSession}
    (reachable : Reachable Fresh Step history) (live : history.live = some session)
    (kind : CatalogTableKind) :
    (session.givenOf kind).Pairwise (· < ·) ∧
      (kind.idLimit ≤ session.ids.counter kind + 1 →
        session.ids.allocateId kind = .err (.format s!"{kind.label} id space exhausted")) ∧
      (session.ids.counter kind + 1 < kind.idLimit →
        ∃ id after, session.ids.allocateId kind = .ok (id, after)) ∧
      ∀ id after, session.ids.allocateId kind = .ok (id, after) →
        0 < id ∧ id < kind.idLimit ∧ (∀ old ∈ session.givenOf kind, old < id) ∧
          (∀ row ∈ session.loaded kind, kind.rowId row < id) ∧
          (∀ row ∈ session.tables kind, kind.rowId row < id) ∧
          ∀ seen, (kind, seen) ∈ session.observed → seen < id := by
  have sound := (sound_of_reachable reachable).live session live
  have positive := sound.positive kind
  refine ⟨sound.increasing kind, IdAllocator.allocateId_exhausted positive, ?_, ?_⟩
  · intro room
    obtain ⟨after, done⟩ := IdAllocator.allocateId_isOk positive room
    exact ⟨_, after, done⟩
  · intro id after done
    obtain rfl := (IdAllocator.allocateId_took done).was
    refine ⟨positive, counter_lt session.ids kind, ?_, sound.loaded kind, ?_, sound.observed kind⟩
    · intro old member
      exact (sound.given kind old (IdSession.mem_givenOf.mp member)).2
    · intro row member
      exact (sound.tables kind row member).2

/-- The first collection was committed and its file opened again after a crash. -/
def secondSession : IdSession :=
  { IdSession.fresh with
    ids := { nextCollectionId := 2 }
    given := [(.collection, 1)] }

theorem secondSession_reachable :
    Reachable Fresh Step ⟨some secondSession, [.fresh, secondSession]⟩ := by
  have begun : Reachable Fresh Step ⟨some .fresh, [.fresh]⟩ := .start rfl
  have taken : IdAllocator.allocateId {} .collection = .ok (1, { nextCollectionId := 2 }) := rfl
  have given : Reachable Fresh Step ⟨some secondSession, [.fresh]⟩ :=
    begun.step (.operate (.allocate taken))
  have crashed : Reachable Fresh Step ⟨none, [.fresh, secondSession]⟩ :=
    (given.step .commit).step (.crash (List.Sublist.refl _))
  have reopened : secondSession.ReopenedFrom secondSession := ⟨rfl, rfl, rfl, rfl, rfl⟩
  exact crashed.step (.reopen (by simp) reopened)

theorem allocateId_fresh_second :
    secondSession.ids.allocateId .collection = .ok (2, { nextCollectionId := 3 }) ∧
      ∀ old ∈ secondSession.givenOf .collection, old < 2 :=
  ⟨rfl, ((allocateId_fresh secondSession_reachable rfl .collection).2.2.2 2 _ rfl).2.2.1⟩

end IdHistory

end Valise
