import Valise.TextFlush

/-!
What a text space's state answers, in terms of the posting lists that its loaded segments carry
and those flushed into it since.
-/

namespace Valise

open ByteLists Outcomes SortedTables

/-- The lists of one segment: one for each term, none empty, each in frame order. -/
structure SegmentLists (lists : List PostingList) : Prop where
  distinct : lists.Pairwise fun first second => first.termId ≠ second.termId
  nonempty : ∀ list ∈ lists, list.postings ≠ []
  counted : ∀ list ∈ lists, list.df = UInt32.ofNat list.postings.length
  ascending : ∀ list ∈ lists, Ascending (fun row => frameRank row.frameId) list.postings

def listed (termId : TermId) (lists : List PostingList) : List PostingList :=
  lists.filter fun list => list.termId = termId

def totalDf (lists : List PostingList) : UInt32 :=
  lists.foldl (fun total list => total + list.df) 0

def mergedList (termId : TermId) (lists : List PostingList) : Option PostingListSoaDecoded :=
  if listed termId lists = [] then none
  else some ⟨termId, totalDf (listed termId lists),
    sortByFrame ((listed termId lists).flatMap PostingList.postings)⟩

def decoded (list : PostingList) : PostingListSoaDecoded := ⟨list.termId, list.df, list.postings⟩

/-- The directory entry finds this list in the segment's blob. -/
def EntryCarries (seg : PostingsSegmentDirectory) (entry : PostingsDirectoryEntry)
    (list : PostingList) : Prop :=
  entry.termId = list.termId ∧ entry.df = list.df ∧ decodeEntry seg entry = .ok (decoded list)

def Carries (seg : PostingsSegmentDirectory) (lists : List PostingList) : Prop :=
  List.Forall₂ (EntryCarries seg) seg.entries lists

theorem listed_append (termId : TermId) (first second : List PostingList) :
    listed termId (first ++ second) = listed termId first ++ listed termId second :=
  List.filter_append ..

theorem mem_listed {termId : TermId} {lists : List PostingList} {list : PostingList} :
    list ∈ listed termId lists ↔ list ∈ lists ∧ list.termId = termId := by
  simp [listed]

theorem listed_eq_nil {termId : TermId} {lists : List PostingList} :
    listed termId lists = [] ↔ ∀ list ∈ lists, list.termId ≠ termId := by
  simp [listed, List.filter_eq_nil_iff]

theorem foldl_df (total : UInt32) (lists : List PostingList) :
    lists.foldl (fun total list => total + list.df) total = total + totalDf lists := by
  induction lists generalizing total with
  | nil => simp [totalDf]
  | cons list lists ih =>
      have first := ih (0 + list.df)
      rw [List.foldl_cons, ih]
      simp only [totalDf, List.foldl_cons] at first ⊢
      rw [first, UInt32.zero_add, UInt32.add_assoc]

theorem totalDf_cons (list : PostingList) (lists : List PostingList) :
    totalDf (list :: lists) = list.df + totalDf lists := by
  simp only [totalDf, List.foldl_cons]
  rw [foldl_df, UInt32.zero_add]
  rfl

theorem totalDf_append (first second : List PostingList) :
    totalDf (first ++ second) = totalDf first + totalDf second := by
  rw [totalDf, List.foldl_append, foldl_df]
  rfl

/-! ### Encoding keeps the lists -/

theorem encodePostingsEntries_spec {lists : List PostingList}
    {before after : PostingsSegmentDirectory}
    (encoded : encodePostingsEntries lists before = .ok after) :
    ∃ entries more, after = ⟨before.entries ++ entries, before.blob ++ more⟩ ∧
      List.Forall₂ (fun entry list => EntryCarries after entry list ∧
        entry.blobOffset.toNat + entry.blobLen.toNat ≤ after.blob.length) entries lists := by
  induction lists generalizing before with
  | nil =>
      simp only [encodePostingsEntries, Outcome.pure_eq, Outcome.ok.injEq] at encoded
      subst encoded
      exact ⟨[], [], by simp, .nil⟩
  | cons list lists ih =>
      simp only [encodePostingsEntries, Outcome.bind_eq_ok, Outcome.ensure_eq_ok] at encoded
      obtain ⟨_, offsetFits, termBlob, blobEncoded, _, _, _, lenFits, rest⟩ := encoded
      obtain ⟨entries, more, grown, carried⟩ := ih rest
      have offset : (UInt32.ofNat before.blob.length).toNat = before.blob.length := by
        simpa using offsetFits
      have len : (UInt32.ofNat termBlob.length).toNat = termBlob.length := by
        have : termBlob.length < 2 ^ 32 := by omega
        simpa using this
      simp only [List.append_assoc] at grown
      refine ⟨⟨list.termId, list.df, collectionFreq list.postings,
        UInt32.ofNat before.blob.length, UInt32.ofNat termBlob.length⟩ :: entries,
        termBlob ++ more, grown, .cons ⟨?_, ?_⟩ carried⟩
      · refine ⟨rfl, rfl, ?_⟩
        rw [grown, decodeEntry]
        simp only [offset, len]
        have found := slice_append_right before.blob (termBlob ++ more) 0 termBlob.length
        rw [Nat.add_zero] at found
        rw [found, slice_append_left termBlob more 0 termBlob.length (by omega)]
        have whole : slice termBlob 0 termBlob.length = termBlob := List.take_length
        rw [whole]
        exact decodeTermBlobInto_encode _ blobEncoded
      · simp only [grown, offset, len, List.length_append]
        omega

theorem encodePostingsSegment_carries {lists : List PostingList} {seg : PostingsSegmentDirectory}
    (encoded : encodePostingsSegment lists = .ok seg) : Carries seg lists := by
  simp only [encodePostingsSegment, Outcome.bind_eq_ok, Outcome.pure_eq, Outcome.ok.injEq] at encoded
  obtain ⟨built, entriesEncoded, _, _, _, _, same⟩ := encoded
  subst same
  obtain ⟨entries, more, grown, carried⟩ := encodePostingsEntries_spec entriesEncoded
  have all : built.entries = entries := by simp [grown]
  rw [Carries, all]
  exact carried.imp fun _ _ both => both.1

theorem map_eq_of_forall₂ {α β γ : Type} {related : α → β → Prop} {first : List α}
    {second : List β} (both : List.Forall₂ related first second) {f : α → γ} {g : β → γ}
    (agree : ∀ a b, related a b → f a = g b) : first.map f = second.map g := by
  induction both with
  | nil => rfl
  | cons here _ ih => rw [List.map_cons, List.map_cons, agree _ _ here, ih]

theorem exists_related {α β : Type} {related : α → β → Prop} {first : List α} {second : List β}
    (both : List.Forall₂ related first second) {a : α} (member : a ∈ first) :
    ∃ b ∈ second, related a b := by
  induction both with
  | nil => simp at member
  | cons here _ ih =>
      rcases List.mem_cons.mp member with same | later
      · exact ⟨_, List.mem_cons_self, same ▸ here⟩
      · obtain ⟨b, inside, holds⟩ := ih later
        exact ⟨b, List.mem_cons_of_mem _ inside, holds⟩

theorem listed_of_distinct {lists : List PostingList}
    (distinct : lists.Pairwise fun first second => first.termId ≠ second.termId)
    {list : PostingList} (member : list ∈ lists) : listed list.termId lists = [list] := by
  induction lists with
  | nil => simp at member
  | cons head lists ih =>
      obtain ⟨apart, tail⟩ := List.pairwise_cons.mp distinct
      rcases List.mem_cons.mp member with same | later
      · subst same
        have others := listed_eq_nil.mpr fun other inside => (apart other inside).symm
        simpa [listed] using others
      · have skipped : listed list.termId (head :: lists) = listed list.termId lists := by
          simp [listed, apart list later]
        rw [skipped]
        exact ih tail later

/-! ### One loaded segment: the dense index -/

theorem fillIndex_other {entries : List PostingsDirectoryEntry} {termId : TermId}
    (absent : ∀ entry ∈ entries, entry.termId ≠ termId) (start : Nat) (index : List (Option Nat)) :
    (fillIndex entries start index)[termId.toNat]? = index[termId.toNat]? := by
  induction entries generalizing start index with
  | nil => rfl
  | cons entry entries ih =>
      have apart : entry.termId.toNat ≠ termId.toNat := fun same =>
        absent entry List.mem_cons_self (UInt32.toNat_inj.mp same)
      rw [fillIndex, ih (fun other member => absent other (List.mem_cons_of_mem _ member)),
        List.getElem?_set_ne apart]

theorem fillIndex_hit {entries : List PostingsDirectoryEntry}
    (distinct : entries.Pairwise fun first second => first.termId ≠ second.termId) (start : Nat)
    (index : List (Option Nat)) (place : Nat) (entry : PostingsDirectoryEntry)
    (found : entries[place]? = some entry) (inside : entry.termId.toNat < index.length) :
    (fillIndex entries start index)[entry.termId.toNat]? = some (some (start + place)) := by
  induction entries generalizing start index place with
  | nil => simp at found
  | cons head entries ih =>
      obtain ⟨apart, tail⟩ := List.pairwise_cons.mp distinct
      cases place with
      | zero =>
          obtain rfl := Option.some.inj found
          rw [fillIndex, fillIndex_other fun other member => (apart other member).symm,
            List.getElem?_set_self inside]
          rfl
      | succ place =>
          rw [fillIndex, ih tail (start + 1) _ place found (by simpa using inside)]
          congr 2
          omega

theorem fillIndex_length (entries : List PostingsDirectoryEntry) (start : Nat)
    (index : List (Option Nat)) : (fillIndex entries start index).length = index.length := by
  induction entries generalizing start index with
  | nil => rfl
  | cons entry entries ih => rw [fillIndex, ih, List.length_set]

theorem Carries.entries_distinct {seg : PostingsSegmentDirectory} {lists : List PostingList}
    (carries : Carries seg lists) (segment : SegmentLists lists) :
    seg.entries.Pairwise fun first second => first.termId ≠ second.termId := by
  have mapped : seg.entries.map PostingsDirectoryEntry.termId = lists.map PostingList.termId :=
    map_eq_of_forall₂ carries fun _ _ both => both.1
  have nodup : (lists.map PostingList.termId).Pairwise (· ≠ ·) :=
    List.pairwise_map.mpr segment.distinct
  rw [← mapped] at nodup
  exact List.pairwise_map.mp nodup

theorem le_foldl_max (numbers : List Nat) (least : Nat) :
    least ≤ numbers.foldl max least ∧ ∀ number ∈ numbers, number ≤ numbers.foldl max least := by
  induction numbers generalizing least with
  | nil => simp
  | cons head numbers ih =>
      obtain ⟨above, inside⟩ := ih (max least head)
      rw [List.foldl_cons]
      refine ⟨(Nat.le_max_left _ _).trans above, fun number member => ?_⟩
      rcases List.mem_cons.mp member with same | later
      · rw [same]
        exact (Nat.le_max_right _ _).trans above
      · exact inside number later

section OneSegment

variable {state : TextSpaceState} {seg : PostingsSegmentDirectory} {lists : List PostingList}
  (carries : Carries seg lists) (segment : SegmentLists lists)
  (segments : state.postingsSegments = [seg])
  (index : state.singleSegmentDirIndex = (loadPostings [seg] {}).singleSegmentDirIndex)

include carries segment segments index in
theorem indexedEntry_hit {list : PostingList} (member : list ∈ lists) :
    ∃ entry, state.indexedEntry list.termId = some (seg, entry) ∧ EntryCarries seg entry list := by
  obtain ⟨entry, inside, carried⟩ := exists_related carries.flip member
  obtain ⟨place, bound, found⟩ := List.getElem_of_mem inside
  have slot := fillIndex_hit (carries.entries_distinct segment) 0
    (List.replicate ((seg.entries.map fun entry => entry.termId.toNat).foldl max 0 + 1) none) place
    entry (List.getElem?_eq_some_iff.mpr ⟨bound, found⟩) (by
      rw [List.length_replicate]
      exact Nat.lt_succ_of_le ((le_foldl_max _ 0).2 _ (List.mem_map_of_mem inside)))
  rw [carried.1, Nat.zero_add] at slot
  refine ⟨entry, ?_, carried⟩
  have read : seg.entries[place]? = some entry := List.getElem?_eq_some_iff.mpr ⟨bound, found⟩
  simp only [TextSpaceState.indexedEntry, index, loadPostings, slot, segments]
  simp [read]

include carries index in
theorem indexedEntry_miss {termId : TermId} (absent : ∀ list ∈ lists, list.termId ≠ termId) :
    state.indexedEntry termId = none := by
  have entriesAbsent : ∀ entry ∈ seg.entries, entry.termId ≠ termId := by
    intro entry member same
    obtain ⟨list, inside, carried⟩ := exists_related carries member
    exact absent list inside (carried.1.symm.trans same)
  have slot := fillIndex_other entriesAbsent 0
    (List.replicate ((seg.entries.map fun entry => entry.termId.toNat).foldl max 0 + 1) none)
  have empty : ((List.replicate ((seg.entries.map fun entry => entry.termId.toNat).foldl max 0 + 1)
      (none : Option Nat))[termId.toNat]?).join = none := by
    rw [List.getElem?_replicate]
    split <;> rfl
  simp only [TextSpaceState.indexedEntry, index, loadPostings, slot, empty]
  rfl

end OneSegment

/-! ### Several loaded segments: locators and running totals -/

theorem valueAt_addTo {α : Type} [Add α] [Zero α] (termId wanted : TermId) (amount : α)
    (totals : List (TermId × α)) :
    valueAt termRank wanted (addTo termId amount totals) =
      if termId = wanted then some ((valueAt termRank termId totals).getD 0 + amount)
      else valueAt termRank wanted totals :=
  valueAt_store termRank termRank_injective ..

def entriesOf (termId : TermId) (placed : List (PostingsLocator × PostingsDirectoryEntry)) :
    List (PostingsLocator × PostingsDirectoryEntry) :=
  placed.filter fun (_, entry) => entry.termId = termId

theorem entriesOf_cons (termId : TermId) (locator : PostingsLocator)
    (entry : PostingsDirectoryEntry) (placed : List (PostingsLocator × PostingsDirectoryEntry)) :
    entriesOf termId ((locator, entry) :: placed) =
      if entry.termId = termId then (locator, entry) :: entriesOf termId placed
      else entriesOf termId placed := by
  simp [entriesOf, List.filter_cons]

def recordAll (placed : List (PostingsLocator × PostingsDirectoryEntry))
    (state : TextSpaceState) : TextSpaceState :=
  placed.foldl (fun state (locator, entry) => recordEntry locator entry state) state

theorem recordAll_locator (placed : List (PostingsLocator × PostingsDirectoryEntry))
    (state : TextSpaceState) (termId : TermId) :
    valueAt termRank termId (recordAll placed state).postingsLocator =
      if entriesOf termId placed = [] then valueAt termRank termId state.postingsLocator
      else some ((valueAt termRank termId state.postingsLocator).getD [] ++
        (entriesOf termId placed).map Prod.fst) := by
  induction placed generalizing state with
  | nil => rfl
  | cons head placed ih =>
      obtain ⟨locator, entry⟩ := head
      have unfolded : recordAll ((locator, entry) :: placed) state =
          recordAll placed (recordEntry locator entry state) := rfl
      rw [unfolded, ih]
      simp only [recordEntry, valueAt_store termRank termRank_injective]
      by_cases same : entry.termId = termId
      · subst same
        by_cases last : entriesOf entry.termId placed = []
        · simp [last, entriesOf_cons]
        · simp [last, entriesOf_cons]
      · simp [same, entriesOf_cons]

theorem recordAll_df (placed : List (PostingsLocator × PostingsDirectoryEntry))
    (state : TextSpaceState) (termId : TermId) :
    (valueAt termRank termId (recordAll placed state).dfByTerm).getD 0 =
      (entriesOf termId placed).foldl (fun total placed => total + placed.2.df)
        ((valueAt termRank termId state.dfByTerm).getD 0) := by
  induction placed generalizing state with
  | nil => rfl
  | cons head placed ih =>
      obtain ⟨locator, entry⟩ := head
      have unfolded : recordAll ((locator, entry) :: placed) state =
          recordAll placed (recordEntry locator entry state) := rfl
      rw [unfolded, ih]
      simp only [recordEntry, valueAt_addTo]
      by_cases same : entry.termId = termId
      · subst same
        simp [entriesOf_cons]
      · simp [same, entriesOf_cons]

theorem placedEntries_located {segs : List PostingsSegmentDirectory}
    {seg : PostingsSegmentDirectory} {segmentIdx : Nat} {entry : PostingsDirectoryEntry}
    {entryIdx : Nat} (segment : (seg, segmentIdx) ∈ segs.zipIdx)
    (place : (entry, entryIdx) ∈ seg.entries.zipIdx) :
    locateEntry segs ⟨segmentIdx, entryIdx⟩ = decodeEntry seg entry := by
  have outer := List.mem_zipIdx_iff_getElem?.mp segment
  have inner := List.mem_zipIdx_iff_getElem?.mp place
  simp only [locateEntry, outer, inner]

theorem placedEntries_direct (segs : List PostingsSegmentDirectory) :
    (placedEntries segs).map (fun (locator, entry) =>
      (entry.termId, entry.df, locateEntry segs locator)) =
      segs.flatMap fun seg =>
        seg.entries.map fun entry => (entry.termId, entry.df, decodeEntry seg entry) := by
  have inner : ∀ seg : PostingsSegmentDirectory,
      seg.entries.map (fun entry => (entry.termId, entry.df, decodeEntry seg entry)) =
        seg.entries.zipIdx.map fun entry =>
          (entry.1.termId, entry.1.df, decodeEntry seg entry.1) := by
    intro seg
    conv_lhs => rw [← List.zipIdx_map_fst 0 seg.entries]
    rw [List.map_map]
    rfl
  have outer : segs.flatMap (fun seg =>
      seg.entries.map fun entry => (entry.termId, entry.df, decodeEntry seg entry)) =
      segs.zipIdx.flatMap fun seg =>
        seg.1.entries.map fun entry => (entry.termId, entry.df, decodeEntry seg.1 entry) := by
    conv_lhs => rw [← List.zipIdx_map_fst 0 segs]
    rw [List.flatMap_map]
  rw [outer, placedEntries, List.map_flatMap]
  refine List.flatMap_congr fun ⟨seg, segmentIdx⟩ segment => ?_
  rw [inner, List.map_map]
  refine List.map_congr_left fun ⟨entry, entryIdx⟩ place => ?_
  simp only [Function.comp_apply, placedEntries_located segment place]

theorem placedEntries_decode {segs : List PostingsSegmentDirectory}
    {listss : List (List PostingList)} (carried : List.Forall₂ Carries segs listss) :
    (placedEntries segs).map (fun (locator, entry) =>
      (entry.termId, entry.df, locateEntry segs locator)) =
      listss.flatten.map fun list => (list.termId, list.df, Outcome.ok (decoded list)) := by
  rw [placedEntries_direct]
  induction carried with
  | nil => rfl
  | cons here _ ih =>
      rw [List.flatMap_cons, List.flatten_cons, List.map_append, ih]
      congr 1
      exact map_eq_of_forall₂ here fun entry list both => by rw [both.1, both.2.1, both.2.2]

theorem entriesOf_decode {segs : List PostingsSegmentDirectory} {listss : List (List PostingList)}
    (carried : List.Forall₂ Carries segs listss) (termId : TermId) :
    (entriesOf termId (placedEntries segs)).map (fun (locator, entry) =>
      (entry.termId, entry.df, locateEntry segs locator)) =
      (listed termId listss.flatten).map fun list =>
        (list.termId, list.df, Outcome.ok (decoded list)) := by
  have filtered := congrArg (List.filter fun row => row.1 = termId) (placedEntries_decode carried)
  rw [List.filter_map, List.filter_map] at filtered
  exact filtered

theorem mergeLocated_ok {segs : List PostingsSegmentDirectory} {locators : List PostingsLocator}
    {lists : List PostingList} (merged : PostingListSoaDecoded)
    (located : locators.map (locateEntry segs) = lists.map fun list => .ok (decoded list)) :
    mergeLocated segs merged locators = .ok { merged with
      rows := merged.rows ++ lists.flatMap PostingList.postings
      df := merged.df + totalDf lists } := by
  induction locators generalizing lists merged with
  | nil =>
      obtain rfl : lists = [] := by simpa using located.symm
      simp [mergeLocated, totalDf]
  | cons locator locators ih =>
      cases lists with
      | nil => simp at located
      | cons list lists =>
          simp only [List.map_cons, List.cons.injEq] at located
          simp only [mergeLocated, located.1, Outcome.ok_bind, ih _ located.2, decoded,
            List.flatMap_cons, List.append_assoc, totalDf_cons, UInt32.add_assoc]

theorem sortByFrame_of_ascending {rows : List Posting}
    (ascending : Ascending (fun row => frameRank row.frameId) rows) : sortByFrame rows = rows :=
  List.Pairwise.insertionSort_eq (ascending.imp fun before => before.le)

theorem decodeTermLocators_ok {segs : List PostingsSegmentDirectory}
    {locators : List PostingsLocator} {lists : List PostingList} {termId : TermId}
    (located : locators.map (locateEntry segs) = lists.map fun list => .ok (decoded list))
    (ofTerm : ∀ list ∈ lists, list.termId = termId)
    (ascending : ∀ list ∈ lists, Ascending (fun row => frameRank row.frameId) list.postings)
    (nonempty : lists ≠ []) :
    decodeTermLocators segs locators = .ok (some ⟨termId, totalDf lists,
      sortByFrame (lists.flatMap PostingList.postings)⟩) := by
  cases lists with
  | nil => contradiction
  | cons list lists =>
      cases locators with
      | nil => simp at located
      | cons locator locators =>
          simp only [List.map_cons, List.cons.injEq] at located
          obtain ⟨here, rest⟩ := located
          have term := ofTerm list List.mem_cons_self
          cases locators with
          | nil =>
              obtain rfl : lists = [] := by simpa using rest.symm
              have sorted := sortByFrame_of_ascending (ascending list List.mem_cons_self)
              simp [decodeTermLocators, here, decoded, term, totalDf, sorted]
          | cons second locators =>
              simp only [decodeTermLocators, here, Outcome.ok_bind, mergeLocated_ok _ rest,
                Outcome.pure_eq, decoded, term, List.flatMap_cons, totalDf_cons]

/-! ### Loaded segments, and lists flushed since -/

def written (termId : TermId) (lists : List PostingList) : List Posting :=
  ((listed termId lists).flatMap PostingList.postings).foldl
    (fun rows posting => upsertPosting posting rows) []

/-- The directory is the one an open builds over `segs`; the write-side maps hold `rest`. -/
structure Tracks (state : TextSpaceState) (segs : List PostingsSegmentDirectory)
    (rest : List PostingList) : Prop where
  segments : state.postingsSegments = segs
  index : state.singleSegmentDirIndex = (loadPostings segs {}).singleSegmentDirIndex
  locator : state.postingsLocator = (loadPostings segs {}).postingsLocator
  df : ∀ termId, (valueAt termRank termId state.dfByTerm).getD 0 =
    (valueAt termRank termId (loadPostings segs {}).dfByTerm).getD 0 + totalDf (listed termId rest)
  postings : ∀ termId, valueAt termRank termId state.postingsByTerm =
    if listed termId rest = [] then none else some (written termId rest)
  ascending : Ascending (fun entry => termRank entry.1) state.postingsByTerm

theorem loadPostings_many {segs : List PostingsSegmentDirectory} (many : ∀ seg, segs ≠ [seg])
    (state : TextSpaceState) :
    loadPostings segs state = recordAll (placedEntries segs) { state with postingsSegments := segs } := by
  unfold loadPostings
  split
  · rename_i seg
    exact absurd (Eq.refl _) (many seg)
  · rfl

theorem recordAll_same (placed : List (PostingsLocator × PostingsDirectoryEntry))
    (state : TextSpaceState) :
    (recordAll placed state).singleSegmentDirIndex = state.singleSegmentDirIndex ∧
      (recordAll placed state).postingsSegments = state.postingsSegments ∧
      (recordAll placed state).postingsByTerm = state.postingsByTerm ∧
      (recordAll placed state).sortedTerms = state.sortedTerms ∧
      (recordAll placed state).termIdByBytes = state.termIdByBytes ∧
      (recordAll placed state).nextTermId = state.nextTermId := by
  induction placed generalizing state with
  | nil => exact ⟨rfl, rfl, rfl, rfl, rfl, rfl⟩
  | cons head placed ih => exact ih (recordEntry head.1 head.2 state)

theorem recordAll_locator_ascending (placed : List (PostingsLocator × PostingsDirectoryEntry))
    {state : TextSpaceState}
    (ascending : Ascending (fun entry => termRank entry.1) state.postingsLocator) :
    Ascending (fun entry => termRank entry.1) (recordAll placed state).postingsLocator := by
  induction placed generalizing state with
  | nil => exact ascending
  | cons head placed ih =>
      exact @ih (recordEntry head.1 head.2 state)
        (upsert_ascending (fun entry : TermId × List PostingsLocator => termRank entry.1) ascending _)

theorem recordAll_locator_congr (placed : List (PostingsLocator × PostingsDirectoryEntry))
    {first second : TextSpaceState} (same : first.postingsLocator = second.postingsLocator) :
    (recordAll placed first).postingsLocator = (recordAll placed second).postingsLocator := by
  induction placed generalizing first second with
  | nil => exact same
  | cons head placed ih =>
      refine @ih (recordEntry head.1 head.2 first) (recordEntry head.1 head.2 second) ?_
      simp only [recordEntry, same]

theorem written_append (termId : TermId) (lists : List PostingList) (list : PostingList) :
    written termId (lists ++ [list]) =
      if list.termId = termId then
        list.postings.foldl (fun rows posting => upsertPosting posting rows) (written termId lists)
      else written termId lists := by
  by_cases same : list.termId = termId
  · simp [written, listed, same]
  · simp [written, listed, same]

theorem Tracks.apply {state : TextSpaceState} {segs : List PostingsSegmentDirectory}
    {rest : List PostingList} (tracks : Tracks state segs rest) (list : PostingList) :
    Tracks (applyPostingList state list) segs (rest ++ [list]) := by
  refine ⟨tracks.segments, tracks.index, tracks.locator, fun termId => ?_, fun termId => ?_,
    upsert_ascending (fun entry : TermId × List Posting => termRank entry.1) tracks.ascending _⟩
  · simp only [applyPostingList, valueAt_addTo, listed_append, totalDf_append]
    by_cases same : list.termId = termId
    · subst same
      simp only [if_true, Option.getD_some, tracks.df, UInt32.add_assoc]
      simp [listed, totalDf]
    · simp only [same, if_false, tracks.df]
      simp [listed, totalDf, same]
  · simp only [applyPostingList, valueAt_store termRank termRank_injective, listed_append,
      written_append]
    by_cases same : list.termId = termId
    · subst same
      have head : (valueAt termRank list.termId state.postingsByTerm).getD [] =
          written list.termId rest := by
        rw [tracks.postings]
        by_cases empty : listed list.termId rest = []
        · simp [empty, written]
        · simp [empty]
      simp [head, listed]
    · simp only [same, if_false, tracks.postings]
      simp [listed, same]

theorem Tracks.applyAll {state : TextSpaceState} {segs : List PostingsSegmentDirectory}
    {rest : List PostingList} (tracks : Tracks state segs rest) (lists : List PostingList) :
    Tracks (lists.foldl applyPostingList state) segs (rest ++ lists) := by
  induction lists generalizing state rest with
  | nil => simpa using tracks
  | cons list lists ih => simpa using ih (tracks.apply list)

theorem tracks_loadPostings (segs : List PostingsSegmentDirectory)
    (terms : List TermDictionaryEntry) :
    Tracks (loadPostings segs (loadTerms terms {})) segs [] := by
  by_cases one : ∃ seg, segs = [seg]
  · obtain ⟨seg, rfl⟩ := one
    exact ⟨rfl, rfl, rfl, fun termId => by simp [loadPostings, loadTerms, listed, totalDf],
      fun termId => rfl, ascending_nil _⟩
  · have many : ∀ seg, segs ≠ [seg] := fun seg same => one ⟨seg, same⟩
    rw [loadPostings_many many]
    obtain ⟨index, segments, writes, -, -, -⟩ :=
      recordAll_same (placedEntries segs) { loadTerms terms {} with postingsSegments := segs }
    refine ⟨segments, ?_, ?_, fun termId => ?_, fun termId => ?_, ?_⟩
    · rw [index, loadPostings_many many, (recordAll_same _ _).1]
      rfl
    · rw [loadPostings_many many]
      exact recordAll_locator_congr _ rfl
    · rw [loadPostings_many many, recordAll_df, recordAll_df]
      simp [loadTerms, listed, totalDf]
    · rw [writes]
      rfl
    · rw [writes]
      exact ascending_nil _

section Answers

variable {state : TextSpaceState} {segs : List PostingsSegmentDirectory}
  {listss : List (List PostingList)} {rest : List PostingList}
  (tracks : Tracks state segs rest) (carried : List.Forall₂ Carries segs listss)
  (segments : ∀ lists ∈ listss, SegmentLists lists)

include segments in
theorem listed_segments_ascending {termId : TermId} {list : PostingList}
    (member : list ∈ listed termId listss.flatten) :
    Ascending (fun row => frameRank row.frameId) list.postings := by
  obtain ⟨inside, -⟩ := mem_listed.mp member
  obtain ⟨lists, segment, here⟩ := List.mem_flatten.mp inside
  exact (segments lists segment).ascending list here

include tracks carried segments in
/-- A term of the loaded segments is answered from them. -/
theorem Tracks.lookup_loaded {termId : TermId} (loaded : listed termId listss.flatten ≠ []) :
    state.lookupPostings termId = mergedList termId listss.flatten ∧
      (listed termId rest = [] → state.dfFor termId = totalDf (listed termId listss.flatten)) := by
  by_cases one : ∃ seg, segs = [seg]
  · obtain ⟨seg, rfl⟩ := one
    obtain ⟨lists, none_left, carries, rfl, rfl⟩ : ∃ lists tail, Carries seg lists ∧
        tail = ([] : List (List PostingList)) ∧ listss = lists :: tail := by
      cases carried with
      | cons here tail =>
          cases tail
          exact ⟨_, [], here, rfl, rfl⟩
    have segment := segments lists List.mem_cons_self
    simp only [List.flatten_cons, List.flatten_nil, List.append_nil] at loaded ⊢
    obtain ⟨list, member⟩ := List.exists_mem_of_ne_nil _ loaded
    obtain ⟨inside, rfl⟩ := mem_listed.mp member
    obtain ⟨entry, found, same, df, read⟩ :=
      indexedEntry_hit carries segment tracks.segments tracks.index inside
    have only := listed_of_distinct segment.distinct inside
    constructor
    · simp [TextSpaceState.lookupPostings, found, read, mergedList, only, totalDf, decoded,
        Outcome.toOption, sortByFrame_of_ascending (segment.ascending list inside)]
    · intro _
      simp [TextSpaceState.dfFor, found, df, only, totalDf]
  · have many : ∀ seg, segs ≠ [seg] := fun seg same => one ⟨seg, same⟩
    have index : state.singleSegmentDirIndex = [] := by
      rw [tracks.index, loadPostings_many many, (recordAll_same _ _).1]
    have miss : state.indexedEntry termId = none := by
      simp [TextSpaceState.indexedEntry, index]
    have entries := entriesOf_decode carried termId
    have some_entry : entriesOf termId (placedEntries segs) ≠ [] := by
      intro empty
      rw [empty] at entries
      exact loaded (List.map_eq_nil_iff.mp entries.symm)
    constructor
    · have locators : valueAt termRank termId state.postingsLocator =
          some ((entriesOf termId (placedEntries segs)).map Prod.fst) := by
        rw [tracks.locator, loadPostings_many many, recordAll_locator, if_neg some_entry]
        simp
      have located : ((entriesOf termId (placedEntries segs)).map Prod.fst).map
          (locateEntry segs) = (listed termId listss.flatten).map fun list => .ok (decoded list) := by
        have third := congrArg (List.map fun row : TermId × UInt32 × Result PostingListSoaDecoded =>
          row.2.2) entries
        rw [List.map_map] at third ⊢
        rw [List.map_map] at third
        exact third
      have merged := decodeTermLocators_ok located (fun list member => (mem_listed.mp member).2)
        (fun list member => listed_segments_ascending segments member) loaded
      simp only [TextSpaceState.lookupPostings, miss, locators, tracks.segments, merged,
        mergedList, if_neg loaded]
      rfl
    · intro unflushed
      have dfs := congrArg (List.map fun row : TermId × UInt32 × Result PostingListSoaDecoded =>
        row.2.1) entries
      have total : (entriesOf termId (placedEntries segs)).foldl
          (fun total placed => total + placed.2.df) 0 = totalDf (listed termId listss.flatten) := by
        simp only [List.map_map] at dfs
        have folded := congrArg (List.foldl (fun total df => total + df) (0 : UInt32)) dfs
        simpa [List.foldl_map, totalDf, Function.comp] using folded
      simp only [TextSpaceState.dfFor, miss, tracks.df, unflushed]
      rw [loadPostings_many many, recordAll_df]
      simpa [totalDf] using total

include tracks carried in
/-- A term that no loaded segment has is answered from the write-side maps. -/
theorem Tracks.lookup_flushed (termId : TermId) (absent : listed termId listss.flatten = []) :
    state.lookupPostings termId = (if listed termId rest = [] then none
        else TextSpaceState.cachedList termId (written termId rest)) ∧
      state.dfFor termId = totalDf (listed termId rest) := by
  have facts : state.indexedEntry termId = none ∧
      valueAt termRank termId state.postingsLocator = none ∧
      (valueAt termRank termId (loadPostings segs {}).dfByTerm).getD 0 = 0 := by
    by_cases one : ∃ seg, segs = [seg]
    · obtain ⟨seg, rfl⟩ := one
      obtain ⟨lists, carries, rfl⟩ : ∃ lists, Carries seg lists ∧ listss = [lists] := by
        cases carried with
        | cons here tail =>
            cases tail
            exact ⟨_, here, rfl⟩
      have missing := listed_eq_nil.mp absent
      refine ⟨indexedEntry_miss carries tracks.index fun list member =>
        missing list (by simpa using member), ?_, ?_⟩
      · rw [tracks.locator]
        rfl
      · rfl
    · have many : ∀ seg, segs ≠ [seg] := fun seg same => one ⟨seg, same⟩
      have index : state.singleSegmentDirIndex = [] := by
        rw [tracks.index, loadPostings_many many, (recordAll_same _ _).1]
      have entries := entriesOf_decode carried termId
      have no_entry : entriesOf termId (placedEntries segs) = [] := by
        rw [absent] at entries
        exact List.map_eq_nil_iff.mp entries
      refine ⟨by simp [TextSpaceState.indexedEntry, index], ?_, ?_⟩
      · rw [tracks.locator, loadPostings_many many, recordAll_locator, if_pos no_entry]
        rfl
      · rw [loadPostings_many many, recordAll_df, no_entry]
        rfl
  obtain ⟨miss, unlocated, noDf⟩ := facts
  constructor
  · simp only [TextSpaceState.lookupPostings, miss, unlocated, tracks.postings]
    split <;> rfl
  · simp only [TextSpaceState.dfFor, miss, tracks.df, noDf, UInt32.zero_add]

end Answers

/-! ### The write-side lists of distinct frames are the merged lists -/

def DistinctFrames (termId : TermId) (lists : List PostingList) : Prop :=
  (((listed termId lists).flatMap PostingList.postings).map fun row => frameRank row.frameId).Nodup

theorem written_eq_sort {termId : TermId} {lists : List PostingList}
    (distinct : DistinctFrames termId lists) :
    written termId lists = sortByFrame ((listed termId lists).flatMap PostingList.postings) :=
  upsertAll_eq_sort (fun row : Posting => frameRank row.frameId) distinct

theorem totalDf_counted {lists : List PostingList}
    (counted : ∀ list ∈ lists, list.df = UInt32.ofNat list.postings.length) :
    totalDf lists = UInt32.ofNat (lists.flatMap PostingList.postings).length := by
  induction lists with
  | nil => rfl
  | cons list lists ih =>
      rw [totalDf_cons, counted list List.mem_cons_self,
        ih fun other member => counted other (List.mem_cons_of_mem _ member), List.flatMap_cons,
        List.length_append, UInt32.ofNat_add]

theorem cachedList_written {termId : TermId} {lists : List PostingList}
    (nonempty : ∀ list ∈ lists, list.postings ≠ [])
    (counted : ∀ list ∈ lists, list.df = UInt32.ofNat list.postings.length)
    (distinct : DistinctFrames termId lists) :
    (if listed termId lists = [] then none
      else TextSpaceState.cachedList termId (written termId lists)) = mergedList termId lists := by
  by_cases empty : listed termId lists = []
  · simp [empty, mergedList]
  · rw [if_neg empty, mergedList, if_neg empty, written_eq_sort distinct]
    have sorted : (sortByFrame ((listed termId lists).flatMap PostingList.postings)).length =
        ((listed termId lists).flatMap PostingList.postings).length :=
      (List.perm_insertionSort _ _).length_eq
    obtain ⟨list, member⟩ := List.exists_mem_of_ne_nil _ empty
    have rows : (listed termId lists).flatMap PostingList.postings ≠ [] := by
      intro none_left
      exact nonempty list (mem_listed.mp member).1 (List.flatMap_eq_nil_iff.mp none_left list member)
    have some_row : sortByFrame ((listed termId lists).flatMap PostingList.postings) ≠ [] := by
      intro none_left
      rw [none_left] at sorted
      exact rows (List.length_eq_zero_iff.mp sorted.symm)
    rw [TextSpaceState.cachedList, if_neg some_row, sorted,
      totalDf_counted fun list member => counted list (mem_listed.mp member).1]

/-! ### The whole corpus -/

theorem mem_iterAllPostings {state : TextSpaceState} {segs : List PostingsSegmentDirectory}
    {listss : List (List PostingList)} {rest : List PostingList} (tracks : Tracks state segs rest)
    (carried : List.Forall₂ Carries segs listss)
    (oneSource : listss.flatten = [] ∨ rest = []) (termId : TermId) (list : PostingListSoaDecoded) :
    (termId, list) ∈ state.iterAllPostings ↔ state.lookupPostings termId = some list := by
  have cached : ∀ rows, valueAt termRank termId state.postingsByTerm = some rows ↔
      (termId, rows) ∈ state.postingsByTerm := fun rows =>
    valueAt_eq_some termRank termRank_injective tracks.ascending
  unfold TextSpaceState.iterAllPostings
  by_cases writes : state.postingsByTerm = []
  · rw [if_neg (not_not.mpr writes)]
    have unwritten : valueAt termRank termId state.postingsByTerm = none := by
      rw [writes]
      rfl
    by_cases one : ∃ seg, segs = [seg]
    · obtain ⟨seg, rfl⟩ := one
      have unlocated : valueAt termRank termId state.postingsLocator = none := by
        rw [tracks.locator]
        rfl
      have indexed : state.singleSegmentDirIndex ≠ [] := by
        intro empty
        have length := congrArg List.length (tracks.index.symm.trans empty)
        simp [loadPostings, fillIndex_length] at length
      rw [if_pos ⟨indexed, by simp [tracks.segments]⟩]
      simp only [List.mem_filterMap, List.mem_range, Option.bind_eq_some_iff,
        Option.map_eq_some_iff, Prod.mk.injEq]
      constructor
      · rintro ⟨slot, _, _, _, _, found, same, read⟩
        rw [← same, ← read]
        exact found
      · intro found
        have back : UInt32.ofNat termId.toNat = termId := UInt32.ofNat_toNat
        cases slot : (state.singleSegmentDirIndex[termId.toNat]?).join with
        | none =>
            have miss : state.indexedEntry termId = none := by
              simp [TextSpaceState.indexedEntry, slot]
            simp [TextSpaceState.lookupPostings, miss, unlocated, unwritten] at found
        | some entryIdx =>
            have bound : termId.toNat < state.singleSegmentDirIndex.length := by
              by_contra outside
              rw [List.getElem?_eq_none (by omega)] at slot
              simp at slot
            exact ⟨termId.toNat, bound, entryIdx, slot, list, by rw [back]; exact found, back, rfl⟩
    · have many : ∀ seg, segs ≠ [seg] := fun seg same => one ⟨seg, same⟩
      have unindexed : state.singleSegmentDirIndex = [] := by
        rw [tracks.index, loadPostings_many many, (recordAll_same _ _).1]
      have miss : state.indexedEntry termId = none := by
        simp [TextSpaceState.indexedEntry, unindexed]
      have ascending : Ascending (fun entry => termRank entry.1) state.postingsLocator := by
        rw [tracks.locator, loadPostings_many many]
        exact recordAll_locator_ascending _ (ascending_nil _)
      rw [if_neg (by simp [unindexed])]
      simp only [List.mem_filterMap, Option.map_eq_some_iff, Prod.mk.injEq, Prod.exists]
      constructor
      · rintro ⟨other, _, _, _, found, same, read⟩
        rw [← same, ← read]
        exact found
      · intro found
        cases located : valueAt termRank termId state.postingsLocator with
        | none => simp [TextSpaceState.lookupPostings, miss, located, unwritten] at found
        | some locators =>
            have member := (valueAt_eq_some termRank termRank_injective ascending).mp located
            exact ⟨termId, locators, member, list, found, rfl, rfl⟩
  · rw [if_pos writes]
    have unloaded : listss.flatten = [] := by
      rcases oneSource with unloaded | none_flushed
      · exact unloaded
      · obtain ⟨⟨other, rows⟩, member⟩ := List.exists_mem_of_ne_nil _ writes
        have held := (valueAt_eq_some termRank termRank_injective tracks.ascending).mpr member
        rw [tracks.postings, none_flushed] at held
        simp [listed] at held
    have answer := (tracks.lookup_flushed carried termId (by simp [unloaded, listed])).1
    rw [answer]
    simp only [List.mem_filterMap, Option.map_eq_some_iff, Prod.mk.injEq, Prod.exists]
    constructor
    · rintro ⟨other, rows, member, found, read, rfl, rfl⟩
      have held := (cached rows).mpr member
      rw [tracks.postings] at held
      split at held
      · simp at held
      · rename_i some_list
        rw [if_neg some_list, Option.some.inj held]
        exact read
    · intro found
      split at found
      · simp at found
      · rename_i some_list
        refine ⟨termId, written termId rest, (cached _).mp ?_, list, found, rfl, rfl⟩
        rw [tracks.postings, if_neg some_list]

theorem index_length (seg : PostingsSegmentDirectory) :
    (loadPostings [seg] {}).singleSegmentDirIndex.length ≤ 2 ^ 32 := by
  simp only [loadPostings, fillIndex_length, List.length_replicate]
  have bounded : ∀ numbers : List Nat, ∀ least, least < 2 ^ 32 →
      (∀ number ∈ numbers, number < 2 ^ 32) → numbers.foldl max least < 2 ^ 32 := by
    intro numbers
    induction numbers with
    | nil => exact fun least below _ => below
    | cons head numbers ih =>
        intro least below all
        exact ih (max least head) (Nat.max_lt.mpr ⟨below, all head List.mem_cons_self⟩)
          fun number member => all number (List.mem_cons_of_mem _ member)
  refine Nat.succ_le_of_lt (bounded _ 0 (by decide) fun number member => ?_)
  obtain ⟨entry, -, same⟩ := List.mem_map.mp member
  exact same ▸ entry.termId.toNat_lt

/-- No term is listed twice. -/
theorem iterAllPostings_nodup {state : TextSpaceState} {segs : List PostingsSegmentDirectory}
    {rest : List PostingList} (tracks : Tracks state segs rest) :
    (state.iterAllPostings.map Prod.fst).Nodup := by
  have apart : ∀ {first second : TermId}, termRank first < termRank second → first ≠ second :=
    fun before same => absurd (same ▸ before) (Nat.lt_irrefl _)
  unfold TextSpaceState.iterAllPostings
  rw [List.Nodup, List.pairwise_map]
  split
  · rw [List.pairwise_filterMap]
    refine tracks.ascending.imp fun {first second} before item found other alsoFound => ?_
    obtain ⟨_, -, rfl⟩ := Option.map_eq_some_iff.mp found
    obtain ⟨_, -, rfl⟩ := Option.map_eq_some_iff.mp alsoFound
    exact apart before
  · split
    · rename_i indexed
      have bound : state.singleSegmentDirIndex.length ≤ 2 ^ 32 := by
        by_cases one : ∃ seg, segs = [seg]
        · obtain ⟨seg, rfl⟩ := one
          rw [tracks.index]
          exact index_length seg
        · have many : ∀ seg, segs ≠ [seg] := fun seg same => one ⟨seg, same⟩
          rw [tracks.index, loadPostings_many many, (recordAll_same _ _).1]
          exact Nat.zero_le _
      rw [List.pairwise_filterMap]
      refine List.pairwise_lt_range.imp_of_mem fun {first second} inFirst inSecond before => ?_
      intro item found other alsoFound
      obtain ⟨_, -, mapped⟩ := Option.bind_eq_some_iff.mp found
      obtain ⟨_, -, rfl⟩ := Option.map_eq_some_iff.mp mapped
      obtain ⟨_, -, alsoMapped⟩ := Option.bind_eq_some_iff.mp alsoFound
      obtain ⟨_, -, rfl⟩ := Option.map_eq_some_iff.mp alsoMapped
      intro same
      have ranks := congrArg UInt32.toNat same
      have firstBound := List.mem_range.mp inFirst
      have secondBound := List.mem_range.mp inSecond
      simp only [UInt32.toNat_ofNat'] at ranks
      rw [Nat.mod_eq_of_lt (by omega), Nat.mod_eq_of_lt (by omega)] at ranks
      omega
    · have ascending : Ascending (fun entry => termRank entry.1) state.postingsLocator := by
        rw [tracks.locator]
        by_cases one : ∃ seg, segs = [seg]
        · obtain ⟨seg, rfl⟩ := one
          exact ascending_nil _
        · rw [loadPostings_many fun seg same => one ⟨seg, same⟩]
          exact recordAll_locator_ascending _ (ascending_nil _)
      rw [List.pairwise_filterMap]
      refine ascending.imp fun {first second} before item found other alsoFound => ?_
      obtain ⟨_, -, rfl⟩ := Option.map_eq_some_iff.mp found
      obtain ⟨_, -, rfl⟩ := Option.map_eq_some_iff.mp alsoFound
      exact apart before

/-- A term whose lists are all loaded, or all flushed and of distinct frames, is answered as the
merge over them. -/
theorem Tracks.answers {state : TextSpaceState} {segs : List PostingsSegmentDirectory}
    {listss : List (List PostingList)} {rest : List PostingList} (tracks : Tracks state segs rest)
    (carried : List.Forall₂ Carries segs listss) (segments : ∀ lists ∈ listss, SegmentLists lists)
    (nonempty : ∀ list ∈ rest, list.postings ≠ [])
    (counted : ∀ list ∈ rest, list.df = UInt32.ofNat list.postings.length) {termId : TermId}
    (apart : listed termId listss.flatten = [] ∨ listed termId rest = [])
    (distinct : DistinctFrames termId rest) :
    state.lookupPostings termId = mergedList termId (listss.flatten ++ rest) ∧
      state.dfFor termId = totalDf (listed termId (listss.flatten ++ rest)) := by
  by_cases loaded : listed termId listss.flatten = []
  · obtain ⟨lookup, df⟩ := tracks.lookup_flushed carried _ loaded
    rw [cachedList_written nonempty counted distinct] at lookup
    have only : listed termId (listss.flatten ++ rest) = listed termId rest := by
      rw [listed_append, loaded, List.nil_append]
    rw [lookup, df, mergedList, mergedList, only]
    exact ⟨rfl, rfl⟩
  · obtain ⟨lookup, df⟩ := tracks.lookup_loaded carried segments loaded
    have unflushed := apart.resolve_left loaded
    have only : listed termId (listss.flatten ++ rest) = listed termId listss.flatten := by
      rw [listed_append, unflushed, List.append_nil]
    rw [lookup, df unflushed, mergedList, mergedList, only]
    exact ⟨rfl, rfl⟩

end Valise
