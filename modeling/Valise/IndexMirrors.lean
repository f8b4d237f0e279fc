import Valise.CodecRegistration
import Valise.FrameDates
import Valise.Library.Groups

/-!
The collection filters and the time index of a handle, in its caches and behind its roots, mirror
the catalog away from what is dirty.
-/

namespace Valise

open ByteLists Chains Commands Command DeltaTables Groups Outcomes SortedTables

/-! ### What is mirrored -/

def DatedFrame.isActive (frame : DatedFrame) : Bool := frame.2 = .active

def DatedFrame.collection (frame : DatedFrame) : CollectionId := frame.1.collectionId

def VectorDesc.isActive (vector : VectorDesc) : Bool := vector.status = .active

/-- The active frames and vectors of a collection. -/
def membersOf (dates : List DatedFrame) (vectors : List VectorDesc) (collectionId : CollectionId) :
    List FrameId × List VectorId :=
  ((members DatedFrame.collection DatedFrame.isActive dates collectionId).map fun frame =>
      frame.1.frameId,
    (members VectorDesc.collectionId VectorDesc.isActive vectors collectionId).map
      VectorDesc.vectorId)

def indexOf (dates : List DatedFrame) : List TimeIndexEntry :=
  sortEntries ((dates.filter DatedFrame.isActive).map Prod.fst)

namespace ValiseFile

def members (handle : ValiseFile) (collectionId : CollectionId) : List FrameId × List VectorId :=
  (handle.collectionFrames collectionId, handle.collectionVectors collectionId)

def cachedMembers (handle : ValiseFile) (collectionId : CollectionId) :
    List FrameId × List VectorId :=
  (valueAt UInt32.toNat collectionId handle.collectionFilterCache).getD ([], [])

def collectionMemberFrames (handle : ValiseFile) (collectionId : CollectionId) : List FrameId :=
  (handle.cachedMembers collectionId).1

def collectionMemberVectors (handle : ValiseFile) (collectionId : CollectionId) : List VectorId :=
  (handle.cachedMembers collectionId).2

theorem members_eq (handle : ValiseFile) (collectionId : CollectionId) :
    handle.members collectionId = membersOf handle.dates (handle.tables .vector) collectionId := by
  simp only [members, collectionFrames, collectionVectors, activeFrames, activeVectors, membersOf,
    Groups.members, dates, List.filter_map, List.map_map]
  rfl

theorem timeIndexEntries_dates (handle : ValiseFile) :
    handle.timeIndexEntries = indexOf handle.dates := by
  rw [timeIndexEntries_eq, indexOf, dates, List.filter_map, List.map_map]
  rfl

end ValiseFile

/-- The frames that are dirty, and those of the vectors, touch a collection. -/
theorem mem_dirtyFilterCollections {handle : ValiseFile} {collectionId : CollectionId} :
    collectionId ∈ handle.dirtyFilterCollections ↔
      Touched DatedFrame.id DatedFrame.collection handle.dates (handle.dirtyIds .frame) collectionId ∨
        Touched (CatalogTableKind.rowId .vector) VectorDesc.collectionId (handle.tables .vector)
          (handle.dirtyIds .vector) collectionId := by
  have frames : Touched DatedFrame.id DatedFrame.collection handle.dates (handle.dirtyIds .frame)
      collectionId ↔ Touched (CatalogTableKind.rowId .frame) FrameDesc.collectionId
        (handle.tables .frame) (handle.dirtyIds .frame) collectionId := by
    have found : ∀ id, find DatedFrame.id id ((handle.tables .frame).map FrameDesc.dated) =
        (find (CatalogTableKind.rowId .frame) id (handle.tables .frame)).map FrameDesc.dated :=
      fun id => find_map _ (fun _ => rfl) id _
    simp only [Touched, ValiseFile.dates, found, Option.map_eq_some_iff]
    constructor
    · rintro ⟨id, listed, _, ⟨frame, held, rfl⟩, named⟩
      exact ⟨id, listed, frame, held, named⟩
    · rintro ⟨id, listed, frame, held, named⟩
      exact ⟨id, listed, _, ⟨frame, held, rfl⟩, named⟩
  rw [ValiseFile.dirtyFilterCollections, frames, touched_iff, touched_iff,
    mem_upsertAll_iff UInt32.toNat fun _ _ => UInt32.toNat_inj.mp, List.mem_append]
  simp [ValiseFile.dirtyRows]

/-! ### Behind the roots of a footer -/

/-- The filter of a collection without members may be missing. -/
def StoredMembers (file : StoredFile) (roots : List (CollectionId × SegmentPlace))
    (collectionId : CollectionId) (members : List FrameId × List VectorId) : Prop :=
  match valueAt UInt32.toNat collectionId roots with
  | none => members = ([], [])
  | some root => file.readSegment root = some (.collectionFilter collectionId members.1 members.2)

def StoredIndex (file : StoredFile) : Option SegmentPlace → List TimeIndexEntry → Prop
  | none, entries => entries = []
  | some root, entries => file.readSegment root = some (.timeIndex entries)

theorem StoredMembers.append {file : StoredFile} {roots : List (CollectionId × SegmentPlace)}
    {collectionId : CollectionId} {members : List FrameId × List VectorId}
    (stored : StoredMembers file roots collectionId members) (later : StoredFile) :
    StoredMembers (file ++ later) roots collectionId members := by
  unfold StoredMembers at stored ⊢
  cases held : valueAt UInt32.toNat collectionId roots with
  | none =>
      rw [held] at stored
      exact stored
  | some root =>
      rw [held] at stored
      exact readSegment_append later stored

theorem StoredIndex.append {file : StoredFile} {root : Option SegmentPlace}
    {entries : List TimeIndexEntry} (stored : StoredIndex file root entries) (later : StoredFile) :
    StoredIndex (file ++ later) root entries := by
  cases root with
  | none => exact stored
  | some root => exact readSegment_append later stored

/-- The roots of the filters are kept in the order of the collections. -/
def RootsAscend (body : FooterBody) : Prop :=
  Ascending (fun entry : CollectionId × SegmentPlace => entry.1.toNat) body.collectionFilterRoots

/-- An open finds the whole catalog of the footer in its filters and its index. -/
structure StoredMirror (file : StoredFile) (body : FooterBody) : Prop where
  ordered : RootsAscend body
  catalog : ∃ frames vectors, Chained file (body.roots .frame) .frame frames [] ∧
    Chained file (body.roots .vector) .vector vectors [] ∧
    (∀ collectionId, StoredMembers file body.collectionFilterRoots collectionId
      (membersOf (frames.map FrameDesc.dated) vectors collectionId)) ∧
    StoredIndex file body.timeIndexRoot (indexOf (frames.map FrameDesc.dated))

theorem StoredMirror.append {file : StoredFile} {body : FooterBody}
    (stored : StoredMirror file body) (later : StoredFile) : StoredMirror (file ++ later) body := by
  obtain ⟨frames, vectors, frameChain, vectorChain, filters, index⟩ := stored.catalog
  exact ⟨stored.ordered, frames, vectors, frameChain.append later, vectorChain.append later,
    fun collectionId => (filters collectionId).append later, index.append later⟩

/-! ### The handle -/

/-- Collections that are not dirty are as they were written last, and so is the time index while no
frame is dirty. -/
structure Mirrored (handle : ValiseFile) : Prop where
  cached : ∀ collectionId ∉ handle.dirtyFilterCollections,
    handle.cachedMembers collectionId = handle.members collectionId
  indexed : handle.dirtyIds .frame = [] → handle.timeIndexCache = handle.timeIndexEntries
  ordered : RootsAscend handle.footer
  filters : ∀ collectionId ∉ handle.dirtyFilterCollections, StoredMembers handle.file
    handle.footer.collectionFilterRoots collectionId (handle.members collectionId)
  timeIndex : handle.dirtyIds .frame = [] →
    StoredIndex handle.file handle.footer.timeIndexRoot handle.timeIndexEntries
  published : StoredMirror handle.file handle.published

/-- What a handle may become between two commits. -/
structure Moves (before after : ValiseFile) : Prop where
  untouched : ∀ collectionId ∉ after.dirtyFilterCollections,
    collectionId ∉ before.dirtyFilterCollections ∧
      after.members collectionId = before.members collectionId
  dated : after.dirtyIds .frame = [] →
    before.dirtyIds .frame = [] ∧ after.timeIndexEntries = before.timeIndexEntries
  file : ∃ later, after.file = before.file ++ later
  published : after.published = before.published
  footer : after.footer = before.footer
  filters : after.collectionFilterCache = before.collectionFilterCache
  timeIndex : after.timeIndexCache = before.timeIndexCache

theorem Mirrored.moves {before after : ValiseFile} (mirrored : Mirrored before)
    (moves : Moves before after) : Mirrored after := by
  obtain ⟨later, grown⟩ := moves.file
  constructor
  · intro collectionId clean
    obtain ⟨old, same⟩ := moves.untouched collectionId clean
    rw [same, ← mirrored.cached collectionId old, ValiseFile.cachedMembers,
      ValiseFile.cachedMembers, moves.filters]
  · intro clean
    obtain ⟨old, same⟩ := moves.dated clean
    rw [same, ← mirrored.indexed old, moves.timeIndex]
  · rw [moves.footer]
    exact mirrored.ordered
  · intro collectionId clean
    obtain ⟨old, same⟩ := moves.untouched collectionId clean
    rw [same, moves.footer, grown]
    exact (mirrored.filters collectionId old).append later
  · intro clean
    obtain ⟨old, same⟩ := moves.dated clean
    rw [same, moves.footer, grown]
    exact (mirrored.timeIndex old).append later
  · rw [moves.published, grown]
    exact mirrored.published.append later

/-- The tables that filters and the time index are made from. -/
def HasIndex (kind : CatalogTableKind) : Prop := kind = .frame ∨ kind = .vector

theorem SameSeen.members {before after : ValiseFile} (same : SameSeen HasIndex before after)
    (collectionId : CollectionId) : after.members collectionId = before.members collectionId := by
  rw [ValiseFile.members_eq, ValiseFile.members_eq, same.frames (.inl rfl),
    same.rows .vector nofun (.inr rfl)]

theorem SameSeen.touched {before after : ValiseFile} (same : SameSeen HasIndex before after)
    {collectionId : CollectionId} (dirty : collectionId ∈ before.dirtyFilterCollections) :
    collectionId ∈ after.dirtyFilterCollections := by
  rw [mem_dirtyFilterCollections] at dirty ⊢
  rw [same.frames (.inl rfl), same.rows .vector nofun (.inr rfl)]
  exact dirty.imp (fun touched => touched.mono (same.dirtyIds .frame (.inl rfl)))
    fun touched => touched.mono (same.dirtyIds .vector (.inr rfl))

theorem SameSeen.moves {before after : ValiseFile} (same : SameSeen HasIndex before after) :
    Moves before after where
  untouched collectionId clean :=
    ⟨fun dirty => clean (same.touched dirty), same.members collectionId⟩
  dated clean := by
    constructor
    · refine List.eq_nil_iff_forall_not_mem.mpr fun id listed => ?_
      have kept := same.dirtyIds .frame (.inl rfl) id listed
      rw [clean] at kept
      exact nomatch kept
    · rw [ValiseFile.timeIndexEntries_dates, ValiseFile.timeIndexEntries_dates,
        same.frames (.inl rfl)]
  file := same.file
  published := same.published
  footer := same.footer
  filters := same.filters
  timeIndex := same.timeIndex

theorem mirrored_overlooks : Overlooks HasIndex Mirrored :=
  fun _ _ same mirrored => mirrored.moves same.moves

/-! ### Frames and vectors that are written -/

theorem markDirty_ne_nil (id : Nat) (dirty : List Nat) : markDirty id dirty ≠ [] := by
  intro empty
  have listed : id ∈ markDirty id dirty := mem_markDirty.mpr (.inl rfl)
  rw [empty] at listed
  exact nomatch listed

section Rows

variable (handle : ValiseFile) (kind other : CatalogTableKind) (row : kind.Row)

theorem tables_upsertRow : (handle.upsertRow kind row).tables kind =
    upsert kind.rowId row (handle.tables kind) := by
  simp only [ValiseFile.upsertRow, ValiseFile.setTable, Function.update_self]

theorem dirtyIds_upsertRow : (handle.upsertRow kind row).dirtyIds kind =
    markDirty (kind.rowId row) (handle.dirtyIds kind) := by
  simp only [ValiseFile.upsertRow, ValiseFile.setTable, Function.update_self]
  rfl

theorem tables_upsertRow_other (apart : other ≠ kind) :
    (handle.upsertRow kind row).tables other = handle.tables other := by
  simp only [ValiseFile.upsertRow, ValiseFile.setTable, Function.update_of_ne apart]

theorem dirtyIds_upsertRow_other (apart : other ≠ kind) :
    (handle.upsertRow kind row).dirtyIds other = handle.dirtyIds other := by
  simp only [ValiseFile.upsertRow, ValiseFile.setTable, Function.update_of_ne apart]

end Rows

theorem moves_upsertFrame (handle : ValiseFile) {frame : FrameDesc}
    (ascending : Ascending DatedFrame.id handle.dates)
    (stays : StaysIn DatedFrame.id DatedFrame.collection handle.dates frame.dated) :
    Moves handle (handle.upsertFrame frame) := by
  have dates : (handle.upsertFrame frame).dates =
      upsert DatedFrame.id frame.dated handle.dates := by
    have keeps : ∀ row : FrameDesc, row.dated.id = CatalogTableKind.rowId .frame row := fun _ => rfl
    exact (congrArg (List.map FrameDesc.dated) (tables_upsertRow handle .frame frame)).trans
      (map_upsert _ keeps frame _)
  have marked : (handle.upsertFrame frame).dirtyIds .frame =
      markDirty frame.dated.id (handle.dirtyIds .frame) :=
    dirtyIds_upsertRow handle .frame frame
  have vectors : (handle.upsertFrame frame).tables .vector = handle.tables .vector :=
    tables_upsertRow_other handle .frame .vector frame (by decide)
  have others : (handle.upsertFrame frame).dirtyIds .vector = handle.dirtyIds .vector :=
    dirtyIds_upsertRow_other handle .frame .vector frame (by decide)
  refine ⟨?_, ?_, ⟨[], (List.append_nil _).symm⟩, rfl, rfl, rfl, rfl⟩
  · intro collectionId clean
    rw [mem_dirtyFilterCollections, dates, marked, vectors, others, not_or] at clean
    obtain ⟨same, old⟩ := members_untouched DatedFrame.isActive stays ascending clean.1
    refine ⟨fun dirty => ?_, ?_⟩
    · exact (mem_dirtyFilterCollections.mp dirty).elim old clean.2
    · rw [ValiseFile.members_eq, ValiseFile.members_eq, dates, vectors, membersOf, same, membersOf]
  · intro clean
    rw [marked] at clean
    exact absurd clean (markDirty_ne_nil _ _)

theorem moves_upsertVector (handle : ValiseFile) {vector : VectorDesc}
    (ascending : Ascending (CatalogTableKind.rowId .vector) (handle.tables .vector))
    (stays : StaysIn (CatalogTableKind.rowId .vector) VectorDesc.collectionId
      (handle.tables .vector) vector) :
    Moves handle (handle.upsertRow .vector vector) := by
  have rows : (handle.upsertRow .vector vector).tables .vector =
      upsert (CatalogTableKind.rowId .vector) vector (handle.tables .vector) :=
    tables_upsertRow handle .vector vector
  have marked : (handle.upsertRow .vector vector).dirtyIds .vector =
      markDirty (CatalogTableKind.rowId .vector vector) (handle.dirtyIds .vector) :=
    dirtyIds_upsertRow handle .vector vector
  have dates : (handle.upsertRow .vector vector).dates = handle.dates :=
    congrArg (List.map FrameDesc.dated) (tables_upsertRow_other handle .vector .frame vector (by decide))
  have others : (handle.upsertRow .vector vector).dirtyIds .frame = handle.dirtyIds .frame :=
    dirtyIds_upsertRow_other handle .vector .frame vector (by decide)
  refine ⟨?_, ?_, ⟨[], (List.append_nil _).symm⟩, rfl, rfl, rfl, rfl⟩
  · intro collectionId clean
    rw [mem_dirtyFilterCollections, dates, marked, rows, others, not_or] at clean
    obtain ⟨same, old⟩ := members_untouched VectorDesc.isActive stays ascending clean.2
    refine ⟨fun dirty => ?_, ?_⟩
    · exact (mem_dirtyFilterCollections.mp dirty).elim clean.1 old
    · rw [ValiseFile.members_eq, ValiseFile.members_eq, dates, rows, membersOf, same, membersOf]
  · intro clean
    rw [others] at clean
    exact ⟨clean, by rw [ValiseFile.timeIndexEntries_dates, ValiseFile.timeIndexEntries_dates, dates]⟩

end Valise
