import Valise.CollectionMembers
import Valise.Library.BinarySearch
import Valise.TimeIndexWire

/-!
Queries for a range of dates: the scan of the cached time index finds exactly the active frames of
the range, in the order of the index, on the live handle as after an open.
-/

namespace Valise

open BinarySearch ByteLists Commands Command Outcomes SortedTables

structure TimeQuery where
  fromDate : Int64
  toDate : Int64
  collectionId : Option CollectionId

namespace TimeQuery

def skips (query : TimeQuery) (entry : TimeIndexEntry) : Bool :=
  match query.collectionId with
  | none => false
  | some collectionId => entry.collectionId ≠ collectionId

/-- The loop breaks behind the range. -/
def scan (query : TimeQuery) : List TimeIndexEntry → List FrameId
  | [] => []
  | entry :: rest =>
      if query.toDate.toInt < entry.createdAt.toInt then []
      else if query.skips entry then query.scan rest
      else entry.frameId :: query.scan rest

/-- The entry is dated in the range and is of a collection that was asked for. -/
def Matches (query : TimeQuery) (entry : TimeIndexEntry) : Bool :=
  query.fromDate.toInt ≤ entry.createdAt.toInt ∧ entry.createdAt.toInt ≤ query.toDate.toInt ∧
    query.skips entry = false

end TimeQuery

def timeRange (cache : List TimeIndexEntry) (query : TimeQuery) : List FrameId :=
  if cache = [] ∨ query.toDate.toInt < query.fromDate.toInt then []
  else query.scan (cache.drop
    (partitionPoint (fun entry => entry.createdAt.toInt < query.fromDate.toInt) cache))

def ValiseFile.timeRangeQuery (handle : ValiseFile) (query : TimeQuery) : List FrameId :=
  timeRange handle.timeIndexCache query

/-! ### The scan of a sorted index -/

def DatesSorted (cache : List TimeIndexEntry) : Prop :=
  cache.Pairwise fun first second => first.createdAt.toInt ≤ second.createdAt.toInt

variable {query : TimeQuery} {cache : List TimeIndexEntry}

theorem DatesSorted.partitioned (sorted : DatesSorted cache) (date : Int64) :
    Partitioned (fun entry => entry.createdAt.toInt < date.toInt) cache := by
  refine sorted.imp ?_
  intro first second ascending before
  simp only [decide_eq_true_eq] at before ⊢
  omega

/-- Nothing behind the break is in the range. -/
theorem scan_eq (sorted : DatesSorted cache)
    (from_ : ∀ entry ∈ cache, query.fromDate.toInt ≤ entry.createdAt.toInt) :
    query.scan cache = (cache.filter query.Matches).map TimeIndexEntry.frameId := by
  induction cache with
  | nil => rfl
  | cons entry rest ih =>
      obtain ⟨later, tail⟩ := List.pairwise_cons.mp sorted
      have here := from_ entry List.mem_cons_self
      have ih := ih tail fun other member => from_ other (List.mem_cons_of_mem _ member)
      rw [TimeQuery.scan]
      split
      · rename_i past
        have none_ : (entry :: rest).filter query.Matches = [] := by
          refine List.filter_eq_nil_iff.mpr fun other member => ?_
          have behind : entry.createdAt.toInt ≤ other.createdAt.toInt := by
            rcases List.mem_cons.mp member with rfl | inside
            · exact le_refl _
            · exact later other inside
          simp only [TimeQuery.Matches, decide_eq_true_eq]
          omega
        rw [none_]
        rfl
      · rename_i inside
        split
        · rename_i skipped
          have not : ¬query.Matches entry = true := by
            simp [TimeQuery.Matches, skipped]
          rw [List.filter_cons_of_neg not]
          exact ih
        · rename_i kept
          have matched : query.Matches entry = true := by
            simp only [TimeQuery.Matches, decide_eq_true_eq]
            exact ⟨here, by omega, by simpa using kept⟩
          rw [List.filter_cons_of_pos matched, List.map_cons, ih]

theorem timeRange_eq (sorted : DatesSorted cache) :
    timeRange cache query = (cache.filter query.Matches).map TimeIndexEntry.frameId := by
  unfold timeRange
  split
  · rename_i nothing
    have none_ : cache.filter query.Matches = [] := by
      refine List.filter_eq_nil_iff.mpr fun entry member => ?_
      rcases nothing with rfl | backwards
      · exact nomatch member
      · simp only [TimeQuery.Matches, decide_eq_true_eq]
        omega
    rw [none_]
    rfl
  · rw [drop_partitionPoint (sorted.partitioned query.fromDate),
      scan_eq (sorted.sublist List.filter_sublist), List.filter_filter]
    · congr 1
      refine List.filter_congr fun entry _ => ?_
      by_cases matched : query.Matches entry = true
      · have started := matched
        simp only [TimeQuery.Matches, decide_eq_true_eq] at started
        simp [matched, started.1]
      · simp [matched]
    · intro entry member
      have after := (List.mem_filter.mp member).2
      simpa using after

/-! ### The index of the catalog -/

namespace FrameDesc

/-- Frames of one date come in the order of their ids. -/
def Before (first second : FrameDesc) : Prop :=
  first.createdAt.toInt < second.createdAt.toInt ∨
    first.createdAt.toInt = second.createdAt.toInt ∧ first.frameId.toNat < second.frameId.toNat

end FrameDesc

/-- The answer lists the active frames of the range and of the collection, each once, by date and
id. -/
def AnswersRange (handle : ValiseFile) (query : TimeQuery) (answer : List FrameId) : Prop :=
  ∃ frames : List FrameDesc, answer = frames.map FrameDesc.frameId ∧
    frames.Pairwise FrameDesc.Before ∧
    ∀ frame, frame ∈ frames ↔ frame ∈ handle.tables .frame ∧ frame.status = .active ∧
      query.fromDate.toInt ≤ frame.createdAt.toInt ∧ frame.createdAt.toInt ≤ query.toDate.toInt ∧
      ∀ collectionId, query.collectionId = some collectionId → frame.collectionId = collectionId

theorem matches_indexEntry {frame : FrameDesc} : query.Matches frame.indexEntry = true ↔
    query.fromDate.toInt ≤ frame.createdAt.toInt ∧ frame.createdAt.toInt ≤ query.toDate.toInt ∧
      ∀ collectionId, query.collectionId = some collectionId →
        frame.collectionId = collectionId := by
  have skips : query.skips frame.indexEntry = false ↔ ∀ collectionId,
      query.collectionId = some collectionId → frame.collectionId = collectionId := by
    rw [TimeQuery.skips]
    cases query.collectionId with
    | none => simp
    | some wanted =>
        rw [decide_eq_false_iff_not, not_not]
        constructor
        · rintro same _ ⟨⟩
          exact same
        · intro asked
          exact asked wanted rfl
  rw [TimeQuery.Matches, decide_eq_true_iff, skips]
  rfl

/-- The frames in the order of the index. -/
def indexOrder (frames : List FrameDesc) : List FrameDesc :=
  frames.insertionSort fun first second => first.indexEntry.Before second.indexEntry

theorem sortEntries_frames (frames : List FrameDesc) :
    sortEntries (frames.map FrameDesc.indexEntry) =
      (indexOrder frames).map FrameDesc.indexEntry :=
  (List.map_insertionSort _ _ FrameDesc.indexEntry frames fun _ _ _ _ => Iff.rfl).symm

theorem indexOrder_sorted {frames : List FrameDesc}
    (ascending : Ascending (CatalogTableKind.rowId .frame) frames) :
    (indexOrder frames).Pairwise FrameDesc.Before := by
  have sorted := List.pairwise_insertionSort TimeIndexEntry.Before (frames.map FrameDesc.indexEntry)
  rw [← sortEntries, sortEntries_frames, List.pairwise_map] at sorted
  have distinct : ((indexOrder frames).map (CatalogTableKind.rowId .frame)).Nodup := by
    have apart : (frames.map (CatalogTableKind.rowId .frame)).Nodup :=
      List.pairwise_map.mpr (ascending.imp fun before => before.ne)
    exact ((List.perm_insertionSort _ frames).map _).nodup_iff.mpr apart
  refine (sorted.and (List.pairwise_map.mp distinct)).imp ?_
  rintro first second ⟨before, apart⟩
  have apart : first.frameId.toNat ≠ second.frameId.toNat := apart
  have before : first.createdAt.toInt < second.createdAt.toInt ∨
      first.createdAt.toInt = second.createdAt.toInt ∧
        first.frameId.toNat ≤ second.frameId.toNat := before
  unfold FrameDesc.Before
  omega

theorem timeIndexEntries_sorted (handle : ValiseFile) : DatesSorted handle.timeIndexEntries := by
  have dates := sortEntries_dates (handle.activeFrames.map FrameDesc.indexEntry)
  rw [← timeIndexEntries_eq] at dates
  exact List.pairwise_map.mp (List.isChain_iff_pairwise.mp dates)

theorem answersRange {handle : ValiseFile} (sound : handle.Sound)
    (indexed : handle.timeIndexCache = handle.timeIndexEntries) (query : TimeQuery) :
    AnswersRange handle query (handle.timeRangeQuery query) := by
  have active : Ascending (CatalogTableKind.rowId .frame) handle.activeFrames :=
    (sound.ascends .frame).filter _
  refine ⟨(indexOrder handle.activeFrames).filter fun frame => query.Matches frame.indexEntry, ?_,
    (indexOrder_sorted active).filter _, ?_⟩
  · rw [ValiseFile.timeRangeQuery, indexed, timeRange_eq (timeIndexEntries_sorted handle),
      timeIndexEntries_eq, sortEntries_frames, List.filter_map, List.map_map]
    rfl
  · intro frame
    have listed : frame ∈ indexOrder handle.activeFrames ↔ frame ∈ handle.activeFrames :=
      (List.perm_insertionSort _ _).mem_iff
    rw [List.mem_filter, listed, matches_indexEntry, ValiseFile.activeFrames, List.mem_filter,
      decide_eq_true_eq, and_assoc]

/-- What the encoder of a time index accepts, its decoder gives back; and after every commit that
returns, a query for a range finds exactly its frames, as it does after the next open. -/
theorem timeRange_exact {analyze : Analyze} :
    (∀ segment bytes, TimeIndexCodec.encodeSegment segment = .ok bytes →
      TimeIndexCodec.decodeSegment bytes = .ok segment) ∧
    ∀ handle, Runs.Reachable Fresh (PackedStep analyze) handle →
      ∀ faults changed committed,
        (handle.withFaults faults).commit = (.ok changed, committed) → ∀ query,
          AnswersRange committed query (committed.timeRangeQuery query) ∧
            ∀ state, committed.opened = .ok state →
              AnswersRange (committed.reopen state) query
                ((committed.reopen state).timeRangeQuery query) ∧
              (committed.reopen state).timeRangeQuery query = committed.timeRangeQuery query := by
  refine ⟨fun segment bytes encoded => TimeIndexCodec.decodeSegment_encode encoded, ?_⟩
  intro handle reached faults changed committed commits query
  obtain ⟨durable, mirrored⟩ := reachable_mirrored reached
  obtain ⟨durable, mirrored, clean⟩ := committed_mirrored durable mirrored commits
  have served := mirrored.serves clean.dirtyIds
  refine ⟨answersRange durable.sound served.2 query, fun state opened => ?_⟩
  have reopened := (mirrored.reopen durable opened).serves fun _ => rfl
  refine ⟨answersRange (durable.reopen opened).sound reopened.2 query, ?_⟩
  obtain ⟨_, found, tables, -⟩ := durable.sound.stored.opens clean
  obtain rfl := Outcome.ok.inj (found.symm.trans opened)
  have dates : (committed.reopen _).dates = committed.dates :=
    congrArg (fun tables : Tables => (tables .frame).map FrameDesc.dated) tables
  rw [ValiseFile.timeRangeQuery, ValiseFile.timeRangeQuery, reopened.2, served.2,
    ValiseFile.timeIndexEntries_dates, ValiseFile.timeIndexEntries_dates, dates]

theorem notes_ranged :
    (ValiseFile.commit (notes.withFaults noFaults)).2.timeRangeQuery ⟨0, 10, some 1⟩ = [1] ∧
      ∀ query, AnswersRange (ValiseFile.commit (notes.withFaults noFaults)).2 query
        ((ValiseFile.commit (notes.withFaults noFaults)).2.timeRangeQuery query) := by
  have commits : (ValiseFile.commit (notes.withFaults noFaults)).1 = .ok true := by
    decide +kernel
  exact ⟨by decide +kernel, fun query =>
    ((timeRange_exact.2 notes notes_reached noFaults true _ (Prod.ext commits rfl)) query).1⟩

end Valise
