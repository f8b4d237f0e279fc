import Valise.CatalogRuns

/-!
Opening a file again: what the header of the file commits to through every change of a handle, and
the handle that an open makes of it.
-/

namespace Valise

open ByteLists Chains Commands Command DeltaTables Outcomes SortedTables

/-! ### What the header commits to -/

/-- The footer that the header names roots the tables. -/
structure Published (handle : ValiseFile) (tables : Tables) : Prop where
  rooted : Rooted handle.file tables handle.textOf handle.published fun _ => []
  ids : ∀ kind ∈ CatalogTableKind.flushOrder, ∀ row ∈ tables kind,
    0 < kind.rowId row ∧ kind.rowId row + 1 < kind.idLimit
  registered : ∀ entry ∈ tables .segment,
    entry.segmentId.toNat < handle.published.idAllocator.counter .segment
  loads : ∀ kind, ∀ row ∈ tables kind, RowLoads handle.file (tables .analyzer) kind row
  texts : ∀ textSpaceId,
    find (CatalogTableKind.rowId .textSpace) textSpaceId.toNat (tables .textSpace) = none →
      handle.published.textRootsOf textSpaceId = {}

section Changes

variable {leave : Leave} {handle after : ValiseFile} {tables : Tables}

theorem ValiseFile.Sound.published (sound : handle.Sound) {body : FooterBody}
    (roots : handle.RootsAll body) (header : handle.published = body) :
    Published handle handle.tables where
  rooted := header ▸ roots.rooted
  ids := sound.stored.validIds
  registered := by
    rw [header, roots.ids]
    exact sound.registered
  loads := sound.stored.loads
  texts textSpaceId unknown := by
    rw [header]
    refine roots.texts textSpaceId ?_
    by_contra known
    have there := sound.texts textSpaceId (Option.ne_none_iff_isSome.mp known)
    rw [unknown] at there
    cases there

/-- What a change does to the header and to the bytes behind it. -/
theorem Change.publishes (sound : handle.Sound) (change : Change leave handle after) :
    (∃ body, handle.dirty = true ∧ NothingWaits handle ∧ handle.RootsAll body ∧
        after = { handle with published := body }) ∨
      (after.published = handle.published ∧ (∃ later, after.file = handle.file ++ later) ∧
        ∀ textSpaceId, ∃ later,
          (after.textOf textSpaceId).file = (handle.textOf textSpaceId).file ++ later) := by
  have same : ∀ textSpaceId, ∃ later,
      (handle.textOf textSpaceId).file = (handle.textOf textSpaceId).file ++ later :=
    fun _ => ⟨[], (List.append_nil _).symm⟩
  have kept : ∃ later, handle.file = handle.file ++ later := ⟨[], (List.append_nil _).symm⟩
  have stored : ∀ {textSpaceId text}, (∃ later, text.file = (handle.textOf textSpaceId).file ++ later) →
      ∀ other, ∃ later, ((handle.setText textSpaceId text).textOf other).file =
        (handle.textOf other).file ++ later := by
    intro textSpaceId text grown other
    rw [textOf_setText]
    split
    · rename_i here
      exact here ▸ grown
    · exact same other
  cases change with
  | headerWritten dirty waits roots => exact .inl ⟨_, dirty, waits, roots, rfl⟩
  | appended segment => exact .inr ⟨rfl, ⟨[segment], rfl⟩, same⟩
  | segmentStored content =>
      rename_i ids segmentId _ _ _ _ _ _
      exact .inr ⟨rfl, ⟨[⟨segmentId, content⟩], rfl⟩, same⟩
  | codecEntered segmentTook took encoded instantiated =>
      rename_i segmentIds ids segmentId codecId params
      exact .inr ⟨rfl, ⟨[⟨segmentId, .codecParams params⟩], rfl⟩, same⟩
  | batchFlushed dirty found counted =>
      rename_i key batch
      exact .inr ⟨rfl, ⟨[⟨batch.segmentId, .vectorData (batch.append batch.rawValues).written⟩], rfl⟩,
        same⟩
  | textSpaceEntered row took loaded =>
      have unknown : valueAt UInt32.toNat row.textSpaceId handle.texts = none := by
        by_contra known
        have there := sound.texts row.textSpaceId (Option.ne_none_iff_isSome.mp known)
        rw [sound.fresh took] at there
        cases there
      have empty : (handle.textOf row.textSpaceId).file = [] := by
        simp [ValiseFile.textOf, unknown]
      exact .inr ⟨rfl, kept, @stored row.textSpaceId {} ⟨[], by simp [empty]⟩⟩
  | textIndexed textSpaceId =>
      exact .inr ⟨rfl, kept, @stored textSpaceId _ ⟨[], (List.append_nil _).symm⟩⟩
  | textFlushed textSpaceId roots grown => exact .inr ⟨rfl, kept, stored grown⟩
  | published header waits roots =>
      refine .inr ⟨rfl, kept, fun textSpaceId => ⟨[], ?_⟩⟩
      rw [(textOf_publish roots textSpaceId).1, List.append_nil]
  | frameEntered payload uri => cases uri <;> exact .inr ⟨rfl, kept, same⟩
  | _ => exact .inr ⟨rfl, kept, same⟩

/-- The file is only appended to. -/
theorem Reached.appends {start : ValiseFile} (sound : start.Sound) (reached : Reached leave start handle) :
    ∃ later, handle.file = start.file ++ later := by
  induction reached with
  | refl => exact ⟨[], (List.append_nil _).symm⟩
  | tail before change ih =>
      obtain ⟨first, grown⟩ := ih
      rcases change.publishes (Reached.sound before sound) with ⟨body, -, -, -, rfl⟩ | ⟨-, ⟨second, more⟩, -⟩
      · exact ⟨first, grown⟩
      · exact ⟨first ++ second, by rw [more, grown, List.append_assoc]⟩

/-- Bytes that are appended take nothing from what the header commits to. -/
theorem Published.grow (published : Published handle tables)
    (header : after.published = handle.published) (file : ∃ later, after.file = handle.file ++ later)
    (texts : ∀ textSpaceId, ∃ later,
      (after.textOf textSpaceId).file = (handle.textOf textSpaceId).file ++ later) :
    Published after tables := by
  obtain ⟨later, grown⟩ := file
  refine ⟨?_, published.ids, ?_, fun kind row member => ?_, ?_⟩
  · rw [header, grown]
    exact (published.rooted.append later).setText texts
  · rw [header]
    exact published.registered
  · rw [grown]
    exact (published.loads kind row member).append later
  · rw [header]
    exact published.texts

end Changes

/-- The header of a new file commits to empty tables. -/
theorem fresh_published {handle : ValiseFile} (fresh : Fresh handle) :
    Published handle handle.tables := by
  have sound := fresh_sound fresh
  obtain ⟨contract, rfl⟩ := fresh
  exact {
    rooted := sound.stored.rooted
    ids := by simp
    registered := by simp
    loads := by simp
    texts := fun _ _ => rfl }

/-! ### The opened handle -/

/-- What the open of a text space reads back. The batches that were flushed are kept for the
statements only. -/
def reopenText (body : FooterBody) (old : TextHandle) (textSpaceId : TextSpaceId)
    (state : TextSpaceState) : TextHandle where
  file := old.file
  roots := body.textRootsOf textSpaceId
  state := state
  pending := []
  flushed := old.flushed

/-- A handle on the same file, with the state that an open loaded from it. -/
def ValiseFile.reopen (handle : ValiseFile) (state : OpenState) : ValiseFile where
  file := handle.file
  published := handle.published
  footer := handle.published
  createContract := handle.createContract
  idAllocator := state.idAllocator
  tables := state.tables
  frameStubs := state.frameStubs
  codecCache := state.codecCache
  analyzerCache := state.analyzerCache
  texts := state.textSpaceStates.map fun (textSpaceId, text) =>
    (textSpaceId, reopenText handle.published (handle.textOf textSpaceId) textSpaceId text)
  collectionFilterCache := state.collectionFilterCache
  timeIndexCache := state.timeIndexCache

/-- What has to have succeeded for an open to succeed. -/
structure LoadedFrom (file : StoredFile) (textFiles : TextSpaceId → TextFile) (body : FooterBody)
    (state : OpenState) : Prop where
  ids : observeCatalogIds state.tables CatalogTableKind.flushOrder body.idAllocator =
    .ok state.idAllocator
  analyzers : buildAnalyzerCache (state.tables .analyzer) (state.tables .textSpace) [] =
    .ok state.analyzerCache
  texts : rebuildAllTextSpaceStates textFiles body (state.tables .textSpace) [] =
    .ok state.textSpaceStates

theorem loadOpenState_ok {file : StoredFile} {textFiles : TextSpaceId → TextFile} {body : FooterBody}
    {state : OpenState} (opened : loadOpenState file textFiles body = .ok state) :
    LoadedFrom file textFiles body state := by
  simp only [loadOpenState, Outcome.bind_eq_ok, Outcome.pure_eq, Outcome.ok.injEq] at opened
  obtain ⟨tables, -, ids, observed, codecs, -, analyzers, analyzersBuilt, texts, textsBuilt, filters,
    -, timeIndex, -, rfl⟩ := opened
  exact ⟨observed, analyzersBuilt, textsBuilt⟩

theorem counter_setCounter (ids : IdAllocator) {next : Nat} {kind : CatalogTableKind}
    (fits : next < kind.idLimit) (other : CatalogTableKind) :
    (ids.setCounter next kind).counter other = if other = kind then next else ids.counter other := by
  have small : kind.idLimit = 2 ^ 32 → (UInt32.ofNat next).toNat = next := by
    intro width
    rw [UInt32.toNat_ofNat']
    exact Nat.mod_eq_of_lt (width ▸ fits)
  have large : kind.idLimit = 2 ^ 64 → (UInt64.ofNat next).toNat = next := by
    intro width
    rw [UInt64.toNat_ofNat']
    exact Nat.mod_eq_of_lt (width ▸ fits)
  cases kind <;> cases other <;> first | rfl | exact small rfl | exact large rfl

/-- Every id that was observed is behind the counter of its kind. -/
theorem observeIds_counts {kind : CatalogTableKind} {observed : List Nat} {ids after : IdAllocator}
    (done : observeIds kind observed ids = .ok after) :
    (∀ other, ids.counter other ≤ after.counter other) ∧
      ∀ id ∈ observed, 0 < id ∧ id < after.counter kind := by
  induction observed generalizing ids with
  | nil =>
      obtain rfl := Outcome.ok.inj done
      exact ⟨fun _ => le_refl _, by simp⟩
  | cons id rest ih =>
      rw [observeIds] at done
      split at done
      · cases done
      · rename_i valid
        have fits : id + 1 < kind.idLimit := by omega
        obtain ⟨grown, behind⟩ := ih done
        have moved : ∀ other, ids.counter other ≤ (if ids.counter kind < id + 1 then
            ids.setCounter (id + 1) kind else ids).counter other := by
          intro other
          split
          · rw [counter_setCounter ids fits]
            split
            · rename_i same
              subst same
              omega
            · exact le_refl _
          · exact le_refl _
        have here : id + 1 ≤ (if ids.counter kind < id + 1 then
            ids.setCounter (id + 1) kind else ids).counter kind := by
          split
          · rw [counter_setCounter ids fits, if_pos rfl]
          · omega
        refine ⟨fun other => (moved other).trans (grown other), fun other member => ?_⟩
        rcases List.mem_cons.mp member with rfl | later
        · have := grown kind
          omega
        · exact behind other later

theorem observeCatalogIds_counts {tables : Tables} {kinds : List CatalogTableKind}
    {ids after : IdAllocator} (done : observeCatalogIds tables kinds ids = .ok after) :
    (∀ other, ids.counter other ≤ after.counter other) ∧
      ∀ kind ∈ kinds, ∀ row ∈ tables kind,
        0 < kind.rowId row ∧ kind.rowId row < after.counter kind := by
  induction kinds generalizing ids with
  | nil =>
      obtain rfl := Outcome.ok.inj done
      exact ⟨fun _ => le_refl _, by simp⟩
  | cons kind kinds ih =>
      obtain ⟨middle, observed, rest⟩ := Outcome.bind_eq_ok.mp done
      obtain ⟨first, behind⟩ := observeIds_counts observed
      obtain ⟨second, others⟩ := ih rest
      refine ⟨fun other => (first other).trans (second other), fun other member row inside => ?_⟩
      rcases List.mem_cons.mp member with rfl | later
      · obtain ⟨positive, below⟩ := behind _ (List.mem_map_of_mem inside)
        exact ⟨positive, below.trans_le (second other)⟩
      · exact others other later row inside

theorem buildAnalyzerCache_known {analyzers : List AnalyzerDesc} {spaces : List TextSpaceDesc}
    {cache after : List (TextSpaceId × AnalyzerDesc)} {textSpaceId : TextSpaceId}
    (built : buildAnalyzerCache analyzers spaces cache = .ok after)
    (known : (valueAt UInt32.toNat textSpaceId after).isSome) :
    (valueAt UInt32.toNat textSpaceId cache).isSome ∨
      ∃ space ∈ spaces, space.textSpaceId = textSpaceId := by
  induction spaces generalizing cache with
  | nil =>
      obtain rfl := Outcome.ok.inj built
      exact .inl known
  | cons space spaces ih =>
      obtain ⟨analyzer, -, rest⟩ := Outcome.bind_eq_ok.mp built
      rcases ih rest with before | ⟨other, member, named⟩
      · rcases isSome_store before with rfl | older
        · exact .inr ⟨space, List.mem_cons_self, rfl⟩
        · exact .inl older
      · exact .inr ⟨other, List.mem_cons_of_mem _ member, named⟩

/-- An open makes a state for each text space, and for no other. -/
theorem rebuildAllTextSpaceStates_known {files : TextSpaceId → TextFile} {body : FooterBody}
    {spaces : List TextSpaceDesc} {states after : List (TextSpaceId × TextSpaceState)}
    (rebuilt : rebuildAllTextSpaceStates files body spaces states = .ok after)
    (textSpaceId : TextSpaceId) :
    (valueAt UInt32.toNat textSpaceId after).isSome ↔
      (valueAt UInt32.toNat textSpaceId states).isSome ∨
        ∃ space ∈ spaces, space.textSpaceId = textSpaceId := by
  induction spaces generalizing states with
  | nil =>
      obtain rfl := Outcome.ok.inj rebuilt
      simp
  | cons space spaces ih =>
      rw [rebuildAllTextSpaceStates] at rebuilt
      split at rebuilt
      · cases rebuilt
      · rw [ih rebuilt, valueAt_store UInt32.toNat fun _ _ => UInt32.toNat_inj.mp]
        by_cases same : space.textSpaceId = textSpaceId
        · simp [same]
        · simp [same]

theorem knows_textSpace {spaces : List TextSpaceDesc} {textSpaceId : TextSpaceId} :
    (find (CatalogTableKind.rowId .textSpace) textSpaceId.toNat spaces).isSome ↔
      ∃ space ∈ spaces, space.textSpaceId = textSpaceId := by
  constructor
  · intro known
    obtain ⟨space, found⟩ := Option.isSome_iff_exists.mp known
    obtain ⟨member, named⟩ := find_some _ found
    exact ⟨space, member, UInt32.toNat_inj.mp named⟩
  · rintro ⟨space, member, rfl⟩
    by_contra unknown
    have missing := (find_none _).mp (Option.not_isSome_iff_eq_none.mp unknown)
    exact missing space member (Eq.refl space.textSpaceId.toNat)

section Reopened

variable {handle : ValiseFile} {state : OpenState}

theorem valueAt_reopen (textSpaceId : TextSpaceId) :
    valueAt UInt32.toNat textSpaceId (handle.reopen state).texts =
      (valueAt UInt32.toNat textSpaceId state.textSpaceStates).map
        (reopenText handle.published (handle.textOf textSpaceId) textSpaceId) :=
  valueAt_map UInt32.toNat (fun _ _ => UInt32.toNat_inj.mp) (fun textSpaceId text =>
    reopenText handle.published (handle.textOf textSpaceId) textSpaceId text) textSpaceId
    state.textSpaceStates

/-- The spaces of the catalog keep their files; there are no others. -/
theorem textOf_reopen (opened : handle.opened = .ok state) (textSpaceId : TextSpaceId) :
    ((find (CatalogTableKind.rowId .textSpace) textSpaceId.toNat (state.tables .textSpace)).isSome ∧
        ((handle.reopen state).textOf textSpaceId).file = (handle.textOf textSpaceId).file ∧
        ((handle.reopen state).textOf textSpaceId).roots =
          handle.published.textRootsOf textSpaceId) ∨
      (find (CatalogTableKind.rowId .textSpace) textSpaceId.toNat (state.tables .textSpace) = none ∧
        (handle.reopen state).textOf textSpaceId = {}) := by
  have known := rebuildAllTextSpaceStates_known (loadOpenState_ok opened).texts textSpaceId
  rw [← knows_textSpace] at known
  rw [ValiseFile.textOf, valueAt_reopen]
  cases there : valueAt UInt32.toNat textSpaceId state.textSpaceStates with
  | none =>
      rw [there] at known
      refine .inr ⟨Option.not_isSome_iff_eq_none.mp fun row => ?_, rfl⟩
      cases known.mpr (.inr row)
  | some text =>
      rw [there] at known
      exact .inl ⟨(known.mp rfl).resolve_left (by simp), rfl, rfl⟩

theorem Published.reopened {tables : Tables} (published : Published handle tables)
    (opened : handle.opened = .ok state) :
    state.tables = tables ∧ state.frameStubs = (tables .frame).map FrameDesc.stub := by
  obtain ⟨_, found, same, stubs⟩ := opens_rooted published.rooted published.ids published.loads
  obtain rfl := Outcome.ok.inj (found.symm.trans opened)
  exact ⟨same, stubs⟩

theorem Published.rootedReopened (published : Published handle state.tables)
    (opened : handle.opened = .ok state) :
    Rooted handle.file state.tables (handle.reopen state).textOf handle.published fun _ => [] where
  chained := published.rooted.chained
  filters := published.rooted.filters
  timeIndex := published.rooted.timeIndex
  texts textSpaceId := by
    rcases textOf_reopen opened textSpaceId with ⟨-, file, -⟩ | ⟨unknown, empty⟩
    · rw [file]
      exact published.rooted.texts textSpaceId
    · rw [empty, published.texts textSpaceId unknown]
      exact ⟨⟨[], .empty, le_refl _⟩, ⟨[], .empty, le_refl _⟩, [], .empty, le_refl _⟩

/-- The opened handle commits to what it was opened from. -/
theorem Published.reopen (published : Published handle state.tables)
    (opened : handle.opened = .ok state) : Published (handle.reopen state) state.tables where
  rooted := published.rootedReopened opened
  ids := published.ids
  registered := published.registered
  loads := published.loads
  texts := published.texts

theorem Published.reopenSound (published : Published handle state.tables)
    (opened : handle.opened = .ok state) : (handle.reopen state).Sound := by
  have loads := loadOpenState_ok opened
  obtain ⟨grown, behind⟩ := observeCatalogIds_counts loads.ids
  have stubs := (published.reopened opened).2
  have texts : ∀ textSpaceId,
      handle.published.textRootsOf textSpaceId = ((handle.reopen state).textOf textSpaceId).roots := by
    intro textSpaceId
    rcases textOf_reopen opened textSpaceId with ⟨-, -, roots⟩ | ⟨unknown, empty⟩
    · exact roots.symm
    · rw [empty]
      exact published.texts textSpaceId unknown
  exact {
    stored := {
      rooted := published.rootedReopened opened
      textRoots := texts
      stubs := stubs
      ids := fun kind notSegment =>
        behind kind ((CatalogTableKind.mem_flushOrder kind).mpr notSegment)
      loads := published.loads }
    clean := fun _ => ⟨rfl, fun _ => rfl, rfl, nofun⟩
    framesKnown := by simp [ValiseFile.reopen]
    urisKnown := by simp [ValiseFile.reopen]
    registered := fun entry member =>
      (published.registered entry member).trans_le (grown .segment)
    batches := nofun
    batchesApart := ⟨nofun, nofun⟩
    texts := by
      intro textSpaceId known
      rw [valueAt_reopen, Option.isSome_map] at known
      have spaces := (rebuildAllTextSpaceStates_known loads.texts textSpaceId).mp known
      exact knows_textSpace.mpr (spaces.resolve_left (by simp))
    analyzers := by
      intro textSpaceId known
      have spaces := buildAnalyzerCache_known loads.analyzers known
      exact knows_textSpace.mpr (spaces.resolve_left (by simp)) }

end Reopened

end Valise
