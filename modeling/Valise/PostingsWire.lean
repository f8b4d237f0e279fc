import Valise.SegmentColumns
import Valise.TextState

/-!
The bytes of a postings segment as the lazy readers see them: a directory of fixed entries behind
one blob, and for each entry the slice of the blob that its term is decoded from.
-/

namespace Valise

open ByteLists Columns Commands Command Cursors Outcomes Wire

namespace PostingsCodec

open SegmentCodec

structure PositionsRef where
  segmentId : SegmentId
  ordinal : UInt32
deriving DecidableEq

structure PositionedPosting extends Posting where
  positionsRef : Option PositionsRef
deriving DecidableEq

structure PositionedList where
  termId : TermId
  df : UInt32
  postings : List PositionedPosting
deriving DecidableEq

def PositionedList.plain (list : PositionedList) : PostingList :=
  ⟨list.termId, list.df, list.postings.map (·.toPosting)⟩

structure PostingsSegment where
  textSpaceId : TextSpaceId
  previousRoot : Option SegmentRef
  postingLists : List PositionedList
deriving DecidableEq

def segmentName : String := "PostingsSegment"

def magic : Bytes := [0x56, 0x4C, 0x54, 0x50]
def version : UInt16 := 3
def flagName : String := "previous_root presence flag"

/-- Lists beyond the threshold would be bitsets; it is set so that there are none. -/
def denseThreshold : UInt32 := 0xFFFFFFFF
def denseFlag : Nat := 2 ^ 31

/-! ### Encoding -/

def encodeTermBlob (list : PositionedList) : Result Bytes := do
  let blob ← encodePostingBlob list.plain
  Outcome.ensure (list.postings.all (·.positionsRef.isNone)) (.unsupported
    "PostingsSegment: positions_ref is reserved for a future format version")
  return blob

def cfOf (list : PositionedList) : UInt64 :=
  (list.postings.map fun posting => posting.termFreq.toUInt64).sum

structure DirectoryRow where
  termId : TermId
  df : UInt32
  cf : UInt64
  blobOffset : Nat
  blobLen : Nat

def writeDirectoryRow (row : DirectoryRow) : Bytes :=
  writeU32 row.termId ++ (writeU32 row.df ++ (writeU64 row.cf ++
    (putLittleEndian 4 row.blobOffset ++ putLittleEndian 4 row.blobLen)))

/-- The blob so far grows by the blobs of the lists, and each list gets its row. -/
def encodeLists : Nat → List PositionedList → Result (Bytes × List DirectoryRow)
  | _, [] => return ([], [])
  | blobOffset, list :: lists => do
      Outcome.ensure (blobOffset < 2 ^ 32) (.format "PostingsSegment: blob offset exceeds u32")
      let blob ← encodeTermBlob list
      Outcome.ensure (blob.length < 2 ^ 32) (.format
        "PostingsSegment: term blob length exceeds u32")
      Outcome.ensure (blob.length < denseFlag) (.format
        "PostingsSegment: term blob length collides with dense flag bit")
      let (blobs, rows) ← encodeLists (blobOffset + blob.length) lists
      return (blob ++ blobs, ⟨list.termId, list.df, cfOf list, blobOffset, blob.length⟩ :: rows)

def encodePostingsSegment (segment : PostingsSegment) : Result Bytes := do
  let (blob, rows) ← encodeLists 0 segment.postingLists
  Outcome.ensure (blob.length < 2 ^ 32) (.format "PostingsSegment: blob exceeds u32")
  Outcome.ensure (segment.postingLists.length < 2 ^ 32) (.format
    "PostingsSegment: dir count exceeds u32")
  return magic ++ (writeU16 version ++ (writeU32 segment.textSpaceId ++
    (writeOptionalSegmentRef segment.previousRoot ++ (putLittleEndian 4 blob.length ++ (blob ++
      (putLittleEndian 4 segment.postingLists.length ++ rows.flatMap writeDirectoryRow))))))

/-! ### Decoding -/

structure PostingsDirectoryEntry where
  termId : TermId
  df : UInt32
  cf : UInt64
  blobOffset : UInt32
  blobLen : UInt32
  isDense : Bool
deriving DecidableEq

structure PostingsSegmentDirectory where
  textSpaceId : TextSpaceId
  previousRoot : Option SegmentRef
  entries : List PostingsDirectoryEntry
  blob : Bytes
deriving DecidableEq

def readEntry (blobLength : Nat) : Reader PostingsDirectoryEntry := do
  let termId ← readU32 segmentName
  let df ← readU32 segmentName
  let cf ← readU64 segmentName
  let blobOffset ← readU32 segmentName
  let blobLenWithFlag ← readU32 segmentName
  let blobLen := UInt32.ofNat (blobLenWithFlag.toNat % denseFlag)
  lift (Outcome.ensure (blobOffset.toNat + blobLen.toNat ≤ blobLength) (.format
    s!"PostingsSegment: directory entry term_id={termId} blob slice [{blobOffset}, {blobOffset.toNat + blobLen.toNat}) out of bounds (blob_len={blobLength})"))
  return ⟨termId, df, cf, blobOffset, blobLen, denseFlag ≤ blobLenWithFlag.toNat⟩

def readDirectory : Reader PostingsSegmentDirectory := do
  let found ← readArray segmentName 4
  lift (Outcome.ensure (found = magic) (.format
    s!"PostingsSegment magic mismatch: expected VLTP, got {found}"))
  let foundVersion ← readU16 segmentName
  lift (Outcome.ensure (foundVersion = version) (.format
    s!"PostingsSegment version mismatch: expected {version}, got {foundVersion}"))
  let textSpaceId ← readU32 segmentName
  let previousRoot ← readOptionalSegmentRef segmentName flagName
  let blobLen ← readU32 segmentName
  let blob ← takeBytes (fun _ => .format "PostingsSegment: blob truncated") blobLen.toNat
  let count ← readU32 segmentName
  let entries ← takeMany (readEntry blob.length) count.toNat
  atEnd fun left => .format s!"PostingsSegment: {left} trailing bytes"
  return ⟨textSpaceId, previousRoot, entries, blob⟩

def decodePostingsSegmentDirectory (bytes : Bytes) : Result PostingsSegmentDirectory :=
  decodeAll readDirectory bytes

/-- The bytes that the lazy decoder of the entry's term gets. -/
def PostingsSegmentDirectory.blobSlice (directory : PostingsSegmentDirectory)
    (entry : PostingsDirectoryEntry) : Bytes :=
  slice directory.blob entry.blobOffset.toNat entry.blobLen.toNat

/-! ### The round trip -/

def DirectoryRow.entry (row : DirectoryRow) : PostingsDirectoryEntry :=
  ⟨row.termId, row.df, row.cf, UInt32.ofNat row.blobOffset, UInt32.ofNat row.blobLen, false⟩

/-- The row tells where the blob of its list stands. -/
structure Placed (blob : Bytes) (row : DirectoryRow) (list : PositionedList) : Prop where
  termId : row.termId = list.termId
  df : row.df = list.df
  cf : row.cf = cfOf list
  encoded : encodeTermBlob list = .ok (slice blob row.blobOffset row.blobLen)
  inside : row.blobOffset + row.blobLen ≤ blob.length
  short : row.blobLen < denseFlag

theorem encodeLists_placed {blobOffset : Nat} {lists : List PositionedList} {blob : Bytes}
    {rows : List DirectoryRow} (encoded : encodeLists blobOffset lists = .ok (blob, rows))
    (front : Bytes) (before : front.length = blobOffset) :
    List.Forall₂ (Placed (front ++ blob)) rows lists ∧ (∀ row ∈ rows, blobOffset ≤ row.blobOffset) ∧
      rows.Pairwise fun first second => first.blobOffset + first.blobLen ≤ second.blobOffset := by
  induction lists generalizing blobOffset blob rows front with
  | nil =>
      obtain ⟨rfl, rfl⟩ := Prod.mk.inj (Outcome.ok.inj encoded)
      exact ⟨.nil, nofun, .nil⟩
  | cons list lists ih =>
      simp only [encodeLists, Outcome.bind_eq_ok, Outcome.ensure_eq_ok, Outcome.pure_eq,
        Outcome.ok.injEq, Prod.mk.injEq] at encoded
      obtain ⟨_, _, termBlob, termEncoded, _, _, _, short, ⟨blobs, later⟩, laterEncoded, rfl, rfl⟩ :=
        encoded
      have grown : (front ++ termBlob).length = blobOffset + termBlob.length := by
        rw [List.length_append, before]
      obtain ⟨placed, atLeast, apart⟩ := ih laterEncoded (front ++ termBlob) grown
      rw [List.append_assoc] at placed
      have here : slice (front ++ (termBlob ++ blobs)) blobOffset termBlob.length = termBlob := by
        rw [← before, ← Nat.add_zero front.length, slice_append_right,
          slice_append_left _ _ _ _ (by omega), slice, List.drop_zero, List.take_length]
      refine ⟨.cons ⟨rfl, rfl, rfl, ?_, ?_, short⟩ placed, ?_, List.pairwise_cons.mpr ⟨?_, apart⟩⟩
      · simp only [here, termEncoded]
      · simp only [List.length_append]
        omega
      · intro row member
        rcases List.mem_cons.mp member with rfl | inLater
        · exact Nat.le_refl _
        · have after := atLeast row inLater
          omega
      · exact fun row member => atLeast row member

theorem reads_entry {row : DirectoryRow} {blobLength : Nat}
    (inside : row.blobOffset + row.blobLen ≤ blobLength) (fits : blobLength < 2 ^ 32)
    (short : row.blobLen < denseFlag) :
    Reads (readEntry blobLength) (writeDirectoryRow row) row.entry := by
  obtain ⟨offset, readOffset⟩ := @reads_count segmentName row.blobOffset (by omega)
  obtain ⟨length, readLength⟩ := @reads_count segmentName row.blobLen (by omega)
  have masked : UInt32.ofNat (row.blobLen % denseFlag) = UInt32.ofNat row.blobLen := by
    rw [Nat.mod_eq_of_lt short]
  have sparse : decide (denseFlag ≤ row.blobLen) = false := decide_eq_false (by omega)
  rw [writeDirectoryRow, ← List.append_nil (putLittleEndian 4 row.blobLen)]
  refine (reads_u32 segmentName row.termId).bind ((reads_u32 segmentName row.df).bind ?_)
  refine (reads_u64 segmentName row.cf).bind (readOffset.bind (readLength.bind ?_))
  simp only [length, masked]
  refine Reads.ensure (by omega) ?_
  rw [sparse]
  exact reads_pure _

theorem placed_each {blob : Bytes} {rows : List DirectoryRow} {lists : List PositionedList}
    (placed : List.Forall₂ (Placed blob) rows lists) :
    ∀ row ∈ rows, row.blobOffset + row.blobLen ≤ blob.length ∧ row.blobLen < denseFlag := by
  have both := placed.imp fun _ _ here => And.intro (And.intro here.inside here.short) here
  exact ((List.forall₂_and_left rows lists).mp both).1

theorem directory_reads {segment : PostingsSegment} {blob : Bytes} {rows : List DirectoryRow}
    (placed : List.Forall₂ (Placed blob) rows segment.postingLists) (fits : blob.length < 2 ^ 32)
    (few : segment.postingLists.length < 2 ^ 32) :
    decodePostingsSegmentDirectory (magic ++ (writeU16 version ++ (writeU32 segment.textSpaceId ++
      (writeOptionalSegmentRef segment.previousRoot ++ (putLittleEndian 4 blob.length ++ (blob ++
        (putLittleEndian 4 segment.postingLists.length ++ rows.flatMap writeDirectoryRow))))))) =
      .ok ⟨segment.textSpaceId, segment.previousRoot, rows.map DirectoryRow.entry, blob⟩ := by
  have each := placed_each placed
  have entries := @reads_takeMany_map Error _ _ (readEntry blob.length) writeDirectoryRow
    DirectoryRow.entry rows fun row member => reads_entry (each row member).1 fits (each row member).2
  obtain ⟨blobLength, readBlobLength⟩ := reads_count segmentName fits
  obtain ⟨count, readCount⟩ := reads_count segmentName few
  rw [← placed.length_eq] at count readCount ⊢
  refine Finishes.decodeAll ?_
  rw [← List.append_nil (rows.flatMap writeDirectoryRow)]
  refine Finishes.bind (reads_takeBytes _ magic) (Finishes.ensure (Eq.refl _) ?_)
  refine Finishes.bind (reads_u16 segmentName version) (Finishes.ensure (Eq.refl _) ?_)
  refine Finishes.bind (reads_u32 segmentName segment.textSpaceId) ?_
  refine Finishes.bind (reads_optionalSegmentRef segmentName flagName segment.previousRoot) ?_
  refine Finishes.bind readBlobLength ?_
  rw [blobLength]
  refine Finishes.bind (reads_takeBytes _ blob) (Finishes.bind readCount ?_)
  rw [count]
  exact Finishes.bind entries (finishes_atEnd (finishes_pure _))

theorem sum_toNat (values : List UInt64) :
    values.sum.toNat = (values.map UInt64.toNat).sum % 2 ^ 64 := by
  induction values with
  | nil => rfl
  | cons value values ih =>
      rw [List.sum_cons, List.map_cons, List.sum_cons, UInt64.toNat_add, ih]
      omega

theorem sum_le {values : List UInt32} : (values.map UInt32.toNat).sum ≤ values.length * (2 ^ 32 - 1) := by
  induction values with
  | nil => exact Nat.le_refl _
  | cons value values ih =>
      have bound := value.toNat_lt
      rw [List.map_cons, List.sum_cons, List.length_cons, Nat.succ_mul]
      omega

theorem cfOf_toNat {list : PositionedList} (short : list.postings.length < 2 ^ 32) :
    (cfOf list).toNat = (list.postings.map fun posting => posting.termFreq.toNat).sum := by
  have total := @sum_le (list.postings.map fun posting => posting.termFreq)
  have bound : list.postings.length * (2 ^ 32 - 1) ≤ (2 ^ 32 - 1) * (2 ^ 32 - 1) :=
    Nat.mul_le_mul_right _ (by omega)
  rw [List.map_map, List.length_map] at total
  rw [cfOf, sum_toNat, List.map_map]
  simp only [Function.comp_def, UInt32.toNat_toUInt64] at total ⊢
  exact Nat.mod_eq_of_lt (by omega)

/-- The entry describes its list, and its slice of the blob decodes to the list's postings. -/
structure Restores (directory : PostingsSegmentDirectory) (entry : PostingsDirectoryEntry)
    (list : PositionedList) : Prop where
  termId : entry.termId = list.termId
  df : entry.df = list.df
  cf : entry.cf.toNat = (list.postings.map fun posting => posting.termFreq.toNat).sum
  sparse : entry.isDense = false
  inside : entry.blobOffset.toNat + entry.blobLen.toNat ≤ directory.blob.length
  decoded : decodeTermBlobInto entry.termId entry.df (directory.blobSlice entry) =
    .ok ⟨list.termId, list.df, list.postings.map (·.toPosting)⟩

theorem Placed.restores {directory : PostingsSegmentDirectory} {row : DirectoryRow}
    {list : PositionedList} (placed : Placed directory.blob row list)
    (fits : directory.blob.length < 2 ^ 32) : Restores directory row.entry list := by
  obtain ⟨blob, blobEncoded, checked⟩ := Outcome.bind_eq_ok.mp placed.encoded
  obtain ⟨_, _, same⟩ := Outcome.bind_eq_ok.mp checked
  obtain rfl := Outcome.ok.inj same
  have inside := placed.inside
  obtain ⟨offset, _⟩ := @reads_count segmentName row.blobOffset (by omega)
  obtain ⟨length, _⟩ := @reads_count segmentName row.blobLen (by omega)
  have short : list.postings.length < 2 ^ 32 := by
    simp only [encodePostingBlob, Outcome.bind_eq_ok, Outcome.ensure_eq_ok] at blobEncoded
    obtain ⟨_, counted, _⟩ := blobEncoded
    simpa [PositionedList.plain] using counted
  refine ⟨placed.termId, placed.df, ?_, rfl, ?_, ?_⟩
  · rw [← cfOf_toNat short, ← placed.cf]
    rfl
  · simp only [DirectoryRow.entry, offset, length]
    exact inside
  · have decoded := decodeTermBlobInto_encode list.df blobEncoded
    simp only [DirectoryRow.entry, PostingsSegmentDirectory.blobSlice, offset, length, placed.termId,
      placed.df]
    exact decoded

/-- What the encoder accepts: the directory has an entry for each list in order, their slices do
not overlap, and each decodes to its list. -/
theorem postings_restored (segment : PostingsSegment) (bytes : Bytes)
    (encoded : encodePostingsSegment segment = .ok bytes) :
    ∃ directory, decodePostingsSegmentDirectory bytes = .ok directory ∧
      directory.textSpaceId = segment.textSpaceId ∧
      directory.previousRoot = segment.previousRoot ∧
      List.Forall₂ (Restores directory) directory.entries segment.postingLists ∧
      directory.entries.Pairwise fun first second =>
        first.blobOffset.toNat + first.blobLen.toNat ≤ second.blobOffset.toNat := by
  simp only [encodePostingsSegment, Outcome.bind_eq_ok, Outcome.ensure_eq_ok, Outcome.pure_eq,
    Outcome.ok.injEq] at encoded
  obtain ⟨⟨blob, rows⟩, listsEncoded, _, blobFits, _, few, rfl⟩ := encoded
  have fits : blob.length < 2 ^ 32 := blobFits
  obtain ⟨placed, _, apart⟩ := encodeLists_placed listsEncoded [] rfl
  rw [List.nil_append] at placed
  have numbers : ∀ row ∈ rows, row.entry.blobOffset.toNat = row.blobOffset ∧
      row.entry.blobLen.toNat = row.blobLen := by
    intro row member
    have inside := (placed_each placed row member).1
    exact ⟨(@reads_count segmentName row.blobOffset (by omega)).1, (@reads_count segmentName row.blobLen (by omega)).1⟩
  refine ⟨_, directory_reads placed fits few, rfl, rfl, ?_, ?_⟩
  · rw [List.forall₂_map_left_iff]
    exact placed.imp fun _ _ here => here.restores fits
  · rw [List.pairwise_map]
    refine apart.imp_of_mem fun first second ordered => ?_
    rw [(numbers _ first).1, (numbers _ first).2, (numbers _ second).1]
    exact ordered

def twoTerms : PostingsSegment :=
  ⟨3, none, [⟨11, 2, [⟨⟨4, 1, 1, 1⟩, none⟩, ⟨⟨300, 2, 1, 5⟩, none⟩]⟩, ⟨12, 1, [⟨⟨9, 1, 3, 2⟩, none⟩]⟩]⟩

theorem twoTerms_restored : ∃ bytes directory, encodePostingsSegment twoTerms = .ok bytes ∧
    decodePostingsSegmentDirectory bytes = .ok directory ∧
    List.Forall₂ (Restores directory) directory.entries twoTerms.postingLists := by
  obtain ⟨bytes, encoded⟩ := Outcome.isOk_iff.mp
    (show (encodePostingsSegment twoTerms).isOk = true by decide +kernel)
  obtain ⟨directory, decoded, _, _, restored, _⟩ := postings_restored twoTerms bytes encoded
  exact ⟨bytes, directory, encoded, decoded, restored⟩

end PostingsCodec

end Valise
