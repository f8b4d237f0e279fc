import Valise.Commit

/-!
When a time index is accepted: the dates of the active frames have to ascend in the order of the
frames, and its columns have to fit their length fields.
-/

namespace Valise

open Columns Outcomes

/-! ### What the encoder accepts -/

/-- The lengths of the columns, one blob each. -/
def blobLengths : List TimeIndexEntry → List Nat
  | [] => []
  | first :: later =>
      [8 + ((steps first.frameId.toNat (later.map fun entry => entry.frameId.toNat)).map
          uvarintLen).sum,
        8 + ((changes first.createdAt.toInt 0 (later.map fun entry => entry.createdAt.toInt)).map
          ivarintLen).sum,
        ((first :: later).map fun entry =>
          ivarintLen (entry.updatedAt.toInt - entry.createdAt.toInt)).sum,
        runsLen 4 (runs ((first :: later).map TimeIndexEntry.collectionId))]

/-- The count and the length of every column fit 32 bits. -/
def IndexFits (entries : List TimeIndexEntry) : Prop :=
  entries.length < 2 ^ 32 ∧ ∀ length ∈ blobLengths entries, length < 2 ^ 32

instance (entries : List TimeIndexEntry) : Decidable (IndexFits entries) :=
  inferInstanceAs (Decidable (_ ∧ _))

/-- The update of an entry is stored as its distance from the creation. -/
def UpdateFits (entry : TimeIndexEntry) : Prop :=
  InWord (entry.updatedAt.toInt - entry.createdAt.toInt)

theorem updatedOffsets_eq_ok {message : String} {rows : List (Int64 × Int64)} {offsets : List Int} :
    updatedOffsets message rows = .ok offsets ↔
      (∀ row ∈ rows, InWord (row.2.toInt - row.1.toInt)) ∧
        offsets = rows.map fun row => row.2.toInt - row.1.toInt := by
  induction rows generalizing offsets with
  | nil =>
      simp only [updatedOffsets, Outcome.pure_eq, Outcome.ok.injEq, List.map_nil]
      constructor
      · rintro rfl
        exact ⟨(fun _ member => by cases member), rfl⟩
      · rintro ⟨_, rfl⟩
        rfl
  | cons row rows ih =>
      simp only [updatedOffsets, Outcome.bind_eq_ok, checked_eq_ok, Outcome.pure_eq,
        Outcome.ok.injEq, List.forall_mem_cons, List.map_cons]
      constructor
      · rintro ⟨_, ⟨fits, rfl⟩, rest, encoded, rfl⟩
        obtain ⟨later, rfl⟩ := ih.mp encoded
        exact ⟨⟨fits, later⟩, rfl⟩
      · rintro ⟨⟨fits, later⟩, rfl⟩
        exact ⟨_, ⟨fits, rfl⟩, _, ih.mpr ⟨later, rfl⟩, rfl⟩

/-- Dates before 1970 aside, an index is accepted when its dates and its ids ascend and it fits. -/
theorem encodeTimeIndexSegment_isOk {entries : List TimeIndexEntry}
    (dated : ∀ entry ∈ entries, 0 ≤ entry.createdAt.toInt) :
    (∃ index, encodeTimeIndexSegment entries = .ok index) ↔
      (entries.map fun entry => entry.createdAt.toInt).IsChain (· ≤ ·) ∧
        (entries.map fun entry => entry.frameId.toNat).IsChain (· ≤ ·) ∧
        (∀ entry ∈ entries, UpdateFits entry) ∧ IndexFits entries := by
  cases entries with
  | nil =>
      simp [encodeTimeIndexSegment, IndexFits, blobLengths, Outcome.ensure_true]
  | cons first later =>
      have inWords : ∀ value ∈ later.map fun entry => entry.createdAt.toInt, InWord value := by
        intro value member
        obtain ⟨entry, _, rfl⟩ := List.mem_map.mp member
        exact ⟨entry.createdAt.le_toInt, entry.createdAt.toInt_lt⟩
      simp only [encodeTimeIndexSegment, Outcome.bind_eq_ok, Outcome.ensure_eq_ok, gaps_eq_ok,
        secondDifferences_eq_ok, updatedOffsets_eq_ok, writeBlob_eq_ok, Outcome.pure_eq,
        Outcome.ok.injEq, IndexFits, blobLengths, List.map_cons, List.forall_mem_cons]
      constructor
      · rintro ⟨_, _, ascending, _, count, _, ⟨ids, rfl⟩, _, idsFit, _, ⟨_, rfl⟩, _, datesFit, _,
          ⟨updates, rfl⟩, _, updatesFit, _, runsFit, _⟩
        refine ⟨ascending, ids, ⟨updates.1, fun entry member => ?_⟩, count, idsFit, datesFit,
          ?_, runsFit, fun _ clash => by cases clash⟩
        · exact updates.2 (entry.createdAt, entry.updatedAt) (List.mem_map_of_mem member)
        · simpa [Function.comp_def] using updatesFit
      · rintro ⟨ascending, ids, updates, count, idsFit, datesFit, updatesFit, runsFit, _⟩
        have words := stepsFit_of_ascending ascending (dated first List.mem_cons_self) inWords
          ⟨le_refl _, by omega⟩
        refine ⟨_, (), ascending, (), count, _, ⟨ids, rfl⟩, (), idsFit, _, ⟨words, rfl⟩, (), datesFit,
          _, ⟨⟨updates.1, ?_⟩, rfl⟩, (), ?_, (), runsFit, rfl⟩
        · intro row member
          obtain ⟨entry, listed, rfl⟩ := List.mem_map.mp member
          exact updates.2 entry listed
        · simpa [Function.comp_def] using updatesFit

/-! ### The order of the frames -/

def FrameDesc.indexEntry (frame : FrameDesc) : TimeIndexEntry :=
  ⟨frame.frameId, frame.collectionId, frame.createdAt, frame.updatedAt⟩

namespace TimeIndexEntry

/-- The index is sorted by date, frames of one date by id. -/
def Before (first second : TimeIndexEntry) : Prop :=
  first.createdAt.toInt < second.createdAt.toInt ∨
    first.createdAt.toInt = second.createdAt.toInt ∧ first.frameId.toNat ≤ second.frameId.toNat

instance : DecidableRel Before := fun _ _ => inferInstanceAs (Decidable (_ ∨ _))

instance : Std.Total Before := ⟨fun first second => by
  unfold Before
  omega⟩

instance : IsTrans TimeIndexEntry Before := ⟨fun first second third => by
  unfold Before
  omega⟩

end TimeIndexEntry

def sortEntries (entries : List TimeIndexEntry) : List TimeIndexEntry :=
  entries.insertionSort TimeIndexEntry.Before

theorem timeIndexEntries_eq (handle : ValiseFile) :
    handle.timeIndexEntries = sortEntries (handle.activeFrames.map FrameDesc.indexEntry) := rfl

/-- A frame that came later has no earlier date. -/
def DatesAscend (entries : List TimeIndexEntry) : Prop :=
  ∀ first ∈ entries, ∀ second ∈ entries, first.frameId.toNat < second.frameId.toNat →
    first.createdAt.toInt ≤ second.createdAt.toInt

theorem mem_sortEntries {entries : List TimeIndexEntry} {entry : TimeIndexEntry} :
    entry ∈ sortEntries entries ↔ entry ∈ entries :=
  (List.perm_insertionSort _ entries).mem_iff

theorem sortEntries_dates (entries : List TimeIndexEntry) :
    ((sortEntries entries).map fun entry => entry.createdAt.toInt).IsChain (· ≤ ·) := by
  have sorted := List.pairwise_insertionSort TimeIndexEntry.Before entries
  refine (List.pairwise_map.mpr (sorted.imp ?_)).isChain
  intro first second before
  unfold TimeIndexEntry.Before at before
  omega

/-- Sorted by date, the ids ascend just when the dates ascend with the ids. -/
theorem sortEntries_ids {entries : List TimeIndexEntry} :
    ((sortEntries entries).map fun entry => entry.frameId.toNat).IsChain (· ≤ ·) ↔
      DatesAscend entries := by
  have sorted := List.pairwise_insertionSort TimeIndexEntry.Before entries
  constructor
  · intro ascending first here second there later
    have ids := List.pairwise_map.mp (List.isChain_iff_pairwise.mp ascending)
    have both := (sorted.and ids).imp (S := fun first second : TimeIndexEntry =>
      (first.Before second ∧ first.frameId.toNat ≤ second.frameId.toNat) ∨
        (second.Before first ∧ second.frameId.toNat ≤ first.frameId.toNat)) fun holds => .inl holds
    have different : first ≠ second := by
      rintro rfl
      omega
    have : Std.Symm fun first second : TimeIndexEntry =>
        (first.Before second ∧ first.frameId.toNat ≤ second.frameId.toNat) ∨
          (second.Before first ∧ second.frameId.toNat ≤ first.frameId.toNat) :=
      ⟨fun _ _ holds => holds.symm⟩
    rcases both.forall (mem_sortEntries.mpr here) (mem_sortEntries.mpr there) different with ⟨before, _⟩ | ⟨_, after⟩
    · unfold TimeIndexEntry.Before at before
      omega
    · omega
  · intro ascend
    refine (List.pairwise_map.mpr (sorted.imp_of_mem ?_)).isChain
    intro first second here there before
    have backwards := ascend second (mem_sortEntries.mp there) first (mem_sortEntries.mp here)
    unfold TimeIndexEntry.Before at before
    omega

/-- The index of frames dated from 1970 on is accepted just when their dates ascend, their updates
fit and the columns fit. -/
theorem sortedIndex_isOk {entries : List TimeIndexEntry}
    (dated : ∀ entry ∈ entries, 0 ≤ entry.createdAt.toInt) :
    (∃ index, encodeTimeIndexSegment (sortEntries entries) = .ok index) ↔
      DatesAscend entries ∧ (∀ entry ∈ entries, UpdateFits entry) ∧
        IndexFits (sortEntries entries) := by
  rw [encodeTimeIndexSegment_isOk fun entry member => dated entry (mem_sortEntries.mp member),
    sortEntries_ids]
  constructor
  · rintro ⟨_, ascend, updates, fits⟩
    exact ⟨ascend, fun entry member => updates entry (mem_sortEntries.mpr member), fits⟩
  · rintro ⟨ascend, updates, fits⟩
    exact ⟨sortEntries_dates entries, ascend,
      fun entry member => updates entry (mem_sortEntries.mp member), fits⟩

end Valise
