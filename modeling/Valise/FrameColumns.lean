import Valise.CatalogRows
import Valise.Library.Columns
import Valise.Library.Wire

/-!
The columns of a frame catalog delta and of a time index segment: what their encoders check, and
that a frame catalog delta decodes to the rows it was encoded from.
-/

namespace Valise

open ByteLists Columns Outcomes Wire

def uvarintLen (value : Nat) : Nat := (putBase128 10 value).length

/-- Signed numbers as unsigned ones, small magnitudes first. -/
def zigzag (value : Int) : Nat := if 0 ≤ value then 2 * value.toNat else 2 * (-value).toNat - 1

def ivarintLen (value : Int) : Nat := uvarintLen (zigzag value)

/-- The length of a blob is stored in 32 bits. -/
def writeBlob (context : String) (length : Nat) : Result Unit :=
  Outcome.ensure (length < 2 ^ 32) (.format s!"{context} blob too large")

theorem writeBlob_eq_ok {context : String} {length : Nat} {result : Unit} :
    writeBlob context length = .ok result ↔ length < 2 ^ 32 := by
  rw [writeBlob, Outcome.ensure_eq_ok]

def runsLen {α : Type} (valueLen : Nat) (runs : List (α × Nat)) : Nat :=
  4 + (runs.map fun run => valueLen + uvarintLen run.2).sum

def presenceLen (rows : List Nat) : Nat :=
  4 + ((rows.zip (0 :: rows)).map fun pair => uvarintLen (pair.1 - pair.2)).sum

def metadataLen (ref : MetadataRef) : Nat :=
  8 + uvarintLen ref.bytesOffset + uvarintLen ref.bytesLength + 32

structure FrameColumns where
  count : Nat
  firstFrameId : Nat
  frameIdGaps : List Nat
  collectionRuns : List (CollectionId × Nat)
  roleRuns : List (FrameRole × Nat)
  statusRuns : List (FrameStatus × Nat)
  payloadEncodingRuns : List (PayloadEncoding × Nat)
  firstCreated : Int
  createdChanges : List Int
  updatedOffsets : List Int
  payloadRows : List Nat
  payloadRefs : List (Int × Int × Nat)
  uriRefs : List (Nat × MetadataRef)
  titleRefs : List (Nat × MetadataRef)
  searchTextRefs : List (Nat × MetadataRef)
  metadataRefs : List (Nat × MetadataRef)
  parentFrameIds : List (Nat × FrameId)
  chunkIndices : List (Nat × UInt32)
  chunkCounts : List (Nat × UInt32)
deriving DecidableEq

/-- Payload references after the first are differences to the one before. -/
def packRefs : Option PayloadRef → List PayloadRef → Result (List (Int × Int × Nat))
  | _, [] => return []
  | none, ref :: refs => do
      let rest ← packRefs (some ref) refs
      return (ref.segmentId.toNat, ref.bytesOffset, ref.bytesLength) :: rest
  | some prev, ref :: refs => do
      let segment ← checked ((ref.segmentId.toNat : Int) - prev.segmentId.toNat)
        (Error.format "FrameCatalog segment_id delta out of i64 range")
      let offset ← checked ((ref.bytesOffset : Int) - prev.bytesOffset)
        (Error.format "FrameCatalog bytes_offset delta out of i64 range")
      let rest ← packRefs (some ref) refs
      return (segment, offset, ref.bytesLength) :: rest

def unpackRefs : Int → Int → List (Int × Int × Nat) → List PayloadRef
  | _, _, [] => []
  | prevSegment, prevOffset, (segment, offset, length) :: refs =>
      ⟨UInt64.ofNat (prevSegment + segment).toNat, (prevOffset + offset).toNat, length⟩ ::
        unpackRefs (prevSegment + segment) (prevOffset + offset) refs

def payloadRefsLen (refs : List (Int × Int × Nat)) : Nat :=
  match refs with
  | [] => 0
  | (_, offset, length) :: rest =>
      8 + uvarintLen offset.toNat + uvarintLen length +
        (rest.map fun ref => ivarintLen ref.1 + ivarintLen ref.2.1 + uvarintLen ref.2.2).sum

def updatedOffsets (message : String) : List (Int64 × Int64) → Result (List Int)
  | [] => return []
  | (created, updated) :: rows => do
      let offset ← checked (updated.toInt - created.toInt) (Error.format message)
      let rest ← updatedOffsets message rows
      return offset :: rest

def encodeMetadataColumn (refs : List (Option MetadataRef)) : Result (List (Nat × MetadataRef)) := do
  let present := Columns.listed 0 refs
  writeBlob "FrameCatalog" (presenceLen (present.map Prod.fst))
  writeBlob "FrameCatalog" (present.map fun entry => metadataLen entry.2).sum
  return present

def encodeNumberColumn {α : Type} (toNat : α → Nat) (values : List (Option α)) :
    Result (List (Nat × α)) := do
  let present := Columns.listed 0 values
  writeBlob "FrameCatalog" (presenceLen (present.map Prod.fst))
  writeBlob "FrameCatalog" (present.map fun entry => uvarintLen (toNat entry.2)).sum
  return present

def encodeFrameCatalog (frames : List FrameDesc) : Result (Option FrameColumns) := do
  Outcome.ensure (frames.length < 2 ^ 32) (.format "FrameCatalog frame count overflow")
  match frames with
  | [] => return none
  | first :: later => do
      let frameIdGaps ← gaps
        (Error.format "FrameCatalog frame_ids must be monotone ascending in v2 columnar layout")
        first.frameId.toNat (later.map fun frame => frame.frameId.toNat)
      writeBlob "FrameCatalog" (8 + (frameIdGaps.map uvarintLen).sum)
      let collectionRuns := runs (frames.map FrameDesc.collectionId)
      writeBlob "FrameCatalog" (runsLen 4 collectionRuns)
      let roleRuns := runs (frames.map FrameDesc.role)
      writeBlob "FrameCatalog" (runsLen 1 roleRuns)
      let statusRuns := runs (frames.map FrameDesc.status)
      writeBlob "FrameCatalog" (runsLen 1 statusRuns)
      let payloadEncodingRuns := runs (frames.map FrameDesc.payloadEncoding)
      writeBlob "FrameCatalog" (runsLen 1 payloadEncodingRuns)
      let createdChanges ← secondDifferences
        (Error.format "FrameCatalog created_at delta overflow")
        (Error.format "FrameCatalog created_at delta-of-delta overflow")
        first.createdAt.toInt 0 (later.map fun frame => frame.createdAt.toInt)
      writeBlob "FrameCatalog" (8 + (createdChanges.map ivarintLen).sum)
      let updated ← updatedOffsets "FrameCatalog updated_at offset overflow"
        (frames.map fun frame => (frame.createdAt, frame.updatedAt))
      writeBlob "FrameCatalog" (updated.map ivarintLen).sum
      let payloads := Columns.listed 0 (frames.map FrameDesc.payloadRef)
      writeBlob "FrameCatalog" (presenceLen (payloads.map Prod.fst))
      let payloadRefs ← packRefs none (payloads.map Prod.snd)
      writeBlob "FrameCatalog" (payloadRefsLen payloadRefs)
      let uriRefs ← encodeMetadataColumn (frames.map FrameDesc.uriRef)
      let titleRefs ← encodeMetadataColumn (frames.map FrameDesc.titleRef)
      let searchTextRefs ← encodeMetadataColumn (frames.map FrameDesc.searchTextRef)
      let metadataRefs ← encodeMetadataColumn (frames.map FrameDesc.metadataRef)
      let parentFrameIds ← encodeNumberColumn UInt64.toNat (frames.map FrameDesc.parentFrameId)
      let chunkIndices ← encodeNumberColumn UInt32.toNat (frames.map FrameDesc.chunkIndex)
      let chunkCounts ← encodeNumberColumn UInt32.toNat (frames.map FrameDesc.chunkCount)
      return some {
        count := frames.length
        firstFrameId := first.frameId.toNat
        firstCreated := first.createdAt.toInt
        updatedOffsets := updated
        payloadRows := payloads.map Prod.fst
        frameIdGaps, collectionRuns, roleRuns, statusRuns, payloadEncodingRuns, createdChanges
        payloadRefs, uriRefs, titleRefs, searchTextRefs, metadataRefs, parentFrameIds
        chunkIndices, chunkCounts }

/-! ### Decoding -/

def decodeRuns {α : Type} (width : String) (expected : Nat) (packed : List (α × Nat)) :
    Result (List α) := do
  let values := expand packed
  Outcome.ensure (values.length = expected) (.format
    s!"FrameCatalog RLE {width} covers {values.length} rows but count={expected}")
  return values

def addOffsets : List Int → List Int → Result (List Int)
  | created :: rows, offset :: offsets => do
      let updated ← checked (created + offset) (Error.format "FrameCatalog updated_at overflow")
      let rest ← addOffsets rows offsets
      return updated :: rest
  | _, _ => return []

def decodeColumn {α : Type} (column : String) (count : Nat) (entries : List (Nat × α)) :
    Result (List (Option α)) := do
  Outcome.ensure (∀ entry ∈ entries, entry.1 < count) (.format
    s!"FrameCatalog {column} presence index out of bounds (count={count})")
  return unlisted 0 count entries

def decodeFrameCatalog : Option FrameColumns → Result (List FrameDesc)
  | none => return []
  | some columns => do
      let frameIds := columns.firstFrameId :: sums columns.firstFrameId columns.frameIdGaps
      Outcome.ensure (∀ id ∈ frameIds, id < 2 ^ 64) (.format
        "FrameCatalog frame_id delta overflow")
      let collectionIds ← decodeRuns "u32" columns.count columns.collectionRuns
      let roles ← decodeRuns "u8" columns.count columns.roleRuns
      let statuses ← decodeRuns "u8" columns.count columns.statusRuns
      let encodings ← decodeRuns "u8" columns.count columns.payloadEncodingRuns
      let later ← integrate (Error.format "FrameCatalog created delta overflow")
        (Error.format "FrameCatalog created value overflow") columns.firstCreated 0
        columns.createdChanges
      let created := columns.firstCreated :: later
      let updated ← addOffsets created columns.updatedOffsets
      let payloadRefs ← decodeColumn "payload_ref" columns.count
        (columns.payloadRows.zip (unpackRefs 0 0 columns.payloadRefs))
      let uriRefs ← decodeColumn "metadata" columns.count columns.uriRefs
      let titleRefs ← decodeColumn "metadata" columns.count columns.titleRefs
      let searchTextRefs ← decodeColumn "metadata" columns.count columns.searchTextRefs
      let metadataRefs ← decodeColumn "metadata" columns.count columns.metadataRefs
      let parentFrameIds ← decodeColumn "optional u64" columns.count columns.parentFrameIds
      let chunkIndices ← decodeColumn "optional u32" columns.count columns.chunkIndices
      let chunkCounts ← decodeColumn "optional u32" columns.count columns.chunkCounts
      return (List.range columns.count).map fun row => {
        frameId := UInt64.ofNat (frameIds.getD row 0)
        collectionId := collectionIds.getD row 0
        role := roles.getD row .document
        createdAt := Int64.ofInt (created.getD row 0)
        updatedAt := Int64.ofInt (updated.getD row 0)
        uriRef := uriRefs.getD row none
        titleRef := titleRefs.getD row none
        payloadRef := payloadRefs.getD row none
        payloadEncoding := encodings.getD row .raw
        searchTextRef := searchTextRefs.getD row none
        parentFrameId := parentFrameIds.getD row none
        chunkIndex := chunkIndices.getD row none
        chunkCount := chunkCounts.getD row none
        metadataRef := metadataRefs.getD row none
        status := statuses.getD row .active }

theorem Int64.inWord (value : Int64) : InWord value.toInt :=
  ⟨value.le_toInt, value.toInt_lt⟩

theorem unpackRefs_pack {prev : Option PayloadRef} {refs : List PayloadRef}
    {packed : List (Int × Int × Nat)} (encoded : packRefs prev refs = .ok packed) :
    unpackRefs (prev.elim 0 fun ref => ref.segmentId.toNat) (prev.elim 0 fun ref => ref.bytesOffset)
      packed = refs := by
  induction refs generalizing prev packed with
  | nil =>
      simp only [packRefs, Outcome.pure_eq, Outcome.ok.injEq] at encoded
      subst encoded
      rfl
  | cons ref refs ih =>
      cases prev with
      | none =>
          simp only [packRefs, Outcome.bind_eq_ok, Outcome.pure_eq, Outcome.ok.injEq] at encoded
          obtain ⟨rest, restEncoded, joined⟩ := encoded
          subst joined
          have later := ih restEncoded
          simp only [Option.elim] at later ⊢
          simp only [unpackRefs, Int.zero_add, Int.toNat_natCast, UInt64.ofNat_toNat, later]
      | some before =>
          simp only [packRefs, Outcome.bind_eq_ok, checked_eq_ok, Outcome.pure_eq,
            Outcome.ok.injEq] at encoded
          obtain ⟨segment, ⟨_, segmentEq⟩, offset, ⟨_, offsetEq⟩, rest, restEncoded, joined⟩ := encoded
          subst joined
          have later := ih restEncoded
          have segmentBack : (before.segmentId.toNat : Int) + segment = ref.segmentId.toNat := by
            omega
          have offsetBack : (before.bytesOffset : Int) + offset = ref.bytesOffset := by omega
          simp only [Option.elim] at later ⊢
          simp only [unpackRefs, segmentBack, offsetBack, Int.toNat_natCast, UInt64.ofNat_toNat,
            later]

theorem addOffsets_encode {message : String} {rows : List (Int64 × Int64)} {offsets : List Int}
    (encoded : updatedOffsets message rows = .ok offsets) :
    addOffsets (rows.map fun row => row.1.toInt) offsets = .ok (rows.map fun row => row.2.toInt) := by
  induction rows generalizing offsets with
  | nil =>
      simp only [updatedOffsets, Outcome.pure_eq, Outcome.ok.injEq] at encoded
      subst encoded
      rfl
  | cons row rows ih =>
      obtain ⟨created, updated⟩ := row
      simp only [updatedOffsets, Outcome.bind_eq_ok, checked_eq_ok, Outcome.pure_eq,
        Outcome.ok.injEq] at encoded
      obtain ⟨offset, ⟨_, offsetEq⟩, rest, restEncoded, joined⟩ := encoded
      subst joined
      have back : created.toInt + offset = updated.toInt := by omega
      simp only [List.map_cons, addOffsets, back, checked_true _ (Int64.inWord updated),
        Outcome.ok_bind, ih restEncoded, Outcome.pure_eq]

theorem decodeRuns_runs {α : Type} [DecidableEq α] (width : String) (values : List α) :
    decodeRuns width values.length (runs values) = .ok values := by
  rw [decodeRuns, expand_runs]
  rw [Outcome.ensure_true _ (Eq.refl values.length), Outcome.ok_bind, Outcome.pure_eq]

theorem decodeColumn_listed {α : Type} (column : String) (values : List (Option α)) :
    decodeColumn column values.length (Columns.listed 0 values) = .ok values := by
  have inside : ∀ entry ∈ Columns.listed 0 values, entry.1 < values.length := by
    intro entry member
    have := (listed_rows member).2
    omega
  simp only [decodeColumn, Outcome.ensure_true _ inside, Outcome.ok_bind, unlisted_listed,
    Outcome.pure_eq]

/-- A column that was encoded decodes to the values it was encoded from. -/
theorem decodeColumn_metadata (column : String) {refs : List (Option MetadataRef)}
    {entries : List (Nat × MetadataRef)} (encoded : encodeMetadataColumn refs = .ok entries) :
    decodeColumn column refs.length entries = .ok refs := by
  simp only [encodeMetadataColumn, Outcome.bind_eq_ok, Outcome.pure_eq, Outcome.ok.injEq] at encoded
  obtain ⟨_, _, _, _, same⟩ := encoded
  rw [← same]
  exact decodeColumn_listed column refs

theorem decodeColumn_number {α : Type} {toNat : α → Nat} (column : String)
    {values : List (Option α)} {entries : List (Nat × α)}
    (encoded : encodeNumberColumn toNat values = .ok entries) :
    decodeColumn column values.length entries = .ok values := by
  simp only [encodeNumberColumn, Outcome.bind_eq_ok, Outcome.pure_eq, Outcome.ok.injEq] at encoded
  obtain ⟨_, _, _, _, same⟩ := encoded
  rw [← same]
  exact decodeColumn_listed column values

/-- Rows read back field by field are the rows. -/
theorem assembled (frames : List FrameDesc) :
    (List.range frames.length).map (fun row => ({
      frameId := UInt64.ofNat ((frames.map fun frame => frame.frameId.toNat).getD row 0)
      collectionId := (frames.map FrameDesc.collectionId).getD row 0
      role := (frames.map FrameDesc.role).getD row .document
      createdAt := Int64.ofInt ((frames.map fun frame => frame.createdAt.toInt).getD row 0)
      updatedAt := Int64.ofInt ((frames.map fun frame => frame.updatedAt.toInt).getD row 0)
      uriRef := (frames.map FrameDesc.uriRef).getD row none
      titleRef := (frames.map FrameDesc.titleRef).getD row none
      payloadRef := (frames.map FrameDesc.payloadRef).getD row none
      payloadEncoding := (frames.map FrameDesc.payloadEncoding).getD row .raw
      searchTextRef := (frames.map FrameDesc.searchTextRef).getD row none
      parentFrameId := (frames.map FrameDesc.parentFrameId).getD row none
      chunkIndex := (frames.map FrameDesc.chunkIndex).getD row none
      chunkCount := (frames.map FrameDesc.chunkCount).getD row none
      metadataRef := (frames.map FrameDesc.metadataRef).getD row none
      status := (frames.map FrameDesc.status).getD row .active } : FrameDesc)) = frames := by
  apply List.ext_getElem
  · simp
  · intro row _ inside
    simp [List.getD_eq_getElem?_getD, List.getElem?_map, List.getElem?_eq_getElem inside]

theorem decodeFrameCatalog_encode {frames : List FrameDesc} {columns : Option FrameColumns}
    (encoded : encodeFrameCatalog frames = .ok columns) :
    decodeFrameCatalog columns = .ok frames := by
  cases frames with
  | nil =>
      simp only [encodeFrameCatalog, Outcome.bind_eq_ok, Outcome.pure_eq, Outcome.ok.injEq] at encoded
      obtain ⟨_, _, same⟩ := encoded
      rw [← same]
      rfl
  | cons first later =>
      simp only [encodeFrameCatalog, Outcome.bind_eq_ok, Outcome.pure_eq, Outcome.ok.injEq] at encoded
      obtain ⟨_, _, gapList, gapsEncoded, _, _, _, _, _, _, _, _, _, _, changes, changesEncoded, _, _,
        offsets, offsetsEncoded, _, _, _, _, refs, refsEncoded, _, _, uris, urisEncoded, titles,
        titlesEncoded, searches, searchesEncoded, metas, metasEncoded, parents, parentsEncoded,
        indices, indicesEncoded, counts, countsEncoded, same⟩ := encoded
      rw [← same]
      set frames := first :: later with framesEq
      have ids : first.frameId.toNat :: sums first.frameId.toNat gapList =
          frames.map fun frame => frame.frameId.toNat := by
        rw [sums_gaps gapsEncoded]
        rfl
      have idsFit : ∀ id ∈ frames.map fun frame => frame.frameId.toNat, id < 2 ^ 64 := by
        intro id member
        obtain ⟨frame, _, rfl⟩ := List.mem_map.mp member
        exact frame.frameId.toNat_lt
      have laterFit : ∀ value ∈ later.map fun frame => frame.createdAt.toInt, InWord value := by
        intro value member
        obtain ⟨frame, _, rfl⟩ := List.mem_map.mp member
        exact Int64.inWord _
      have created := integrate_secondDifferences (.format "FrameCatalog created delta overflow")
        (.format "FrameCatalog created value overflow") laterFit changesEncoded
      have createdList : first.createdAt.toInt :: later.map (fun frame => frame.createdAt.toInt) =
          frames.map fun frame => frame.createdAt.toInt := rfl
      have updated := addOffsets_encode offsetsEncoded
      simp only [List.map_map, Function.comp_def] at updated
      have unpacked := unpackRefs_pack refsEncoded
      simp only [Option.elim] at unpacked
      have zipped : ((Columns.listed 0 (frames.map FrameDesc.payloadRef)).map Prod.fst).zip
          ((Columns.listed 0 (frames.map FrameDesc.payloadRef)).map Prod.snd) =
          Columns.listed 0 (frames.map FrameDesc.payloadRef) := by
        rw [← List.unzip_fst, ← List.unzip_snd, List.zip_unzip]
      have count : frames.length = (frames.map FrameDesc.payloadRef).length := by simp
      have payloads : decodeColumn "payload_ref" frames.length
          (Columns.listed 0 (frames.map FrameDesc.payloadRef)) = .ok (frames.map FrameDesc.payloadRef) := by
        rw [count]
        exact decodeColumn_listed _ _
      have byLength : ∀ {α : Type} (field : FrameDesc → α), (frames.map field).length = frames.length :=
        fun field => List.length_map field
      have collections := decodeRuns_runs "u32" (frames.map FrameDesc.collectionId)
      have roles := decodeRuns_runs "u8" (frames.map FrameDesc.role)
      have statuses := decodeRuns_runs "u8" (frames.map FrameDesc.status)
      have encodings := decodeRuns_runs "u8" (frames.map FrameDesc.payloadEncoding)
      have uriColumn := decodeColumn_metadata "metadata" urisEncoded
      have titleColumn := decodeColumn_metadata "metadata" titlesEncoded
      have searchColumn := decodeColumn_metadata "metadata" searchesEncoded
      have metaColumn := decodeColumn_metadata "metadata" metasEncoded
      have parentColumn := decodeColumn_number "optional u64" parentsEncoded
      have indexColumn := decodeColumn_number "optional u32" indicesEncoded
      have countColumn := decodeColumn_number "optional u32" countsEncoded
      rw [byLength] at collections roles statuses encodings parentColumn indexColumn countColumn
      rw [byLength] at uriColumn titleColumn searchColumn metaColumn
      simp only [decodeFrameCatalog, ids, Outcome.ensure_true _ idsFit, Outcome.ok_bind, collections,
        roles, statuses, encodings, created, createdList, updated, unpacked, zipped, payloads,
        uriColumn, titleColumn, searchColumn, metaColumn, parentColumn, indexColumn, countColumn,
        Outcome.pure_eq]
      rw [assembled]

/-! ### The time index -/

structure TimeIndexEntry where
  frameId : FrameId
  collectionId : CollectionId
  createdAt : Int64
  updatedAt : Int64
deriving DecidableEq, Repr

def encodeTimeIndexSegment (entries : List TimeIndexEntry) : Result (List TimeIndexEntry) := do
  Outcome.ensure ((entries.map fun entry => entry.createdAt.toInt).IsChain (· ≤ ·)) (.format
    "TimeIndexSegment entries must be sorted ascending by created_at")
  Outcome.ensure (entries.length < 2 ^ 32) (.format "TimeIndexSegment entry count overflow")
  match entries with
  | [] => return []
  | first :: later => do
      let frameIdGaps ← gaps
        (Error.format "TimeIndexSegment frame_ids must be monotone within the same created_at")
        first.frameId.toNat (later.map fun entry => entry.frameId.toNat)
      writeBlob "TimeIndexSegment" (8 + (frameIdGaps.map uvarintLen).sum)
      let createdChanges ← secondDifferences
        (Error.format "TimeIndexSegment created_at delta overflow")
        (Error.format "TimeIndexSegment created_at delta-of-delta overflow")
        first.createdAt.toInt 0 (later.map fun entry => entry.createdAt.toInt)
      writeBlob "TimeIndexSegment" (8 + (createdChanges.map ivarintLen).sum)
      let updated ← updatedOffsets "TimeIndexSegment updated/created overflow"
        (entries.map fun entry => (entry.createdAt, entry.updatedAt))
      writeBlob "TimeIndexSegment" (updated.map ivarintLen).sum
      writeBlob "TimeIndexSegment" (runsLen 4 (runs (entries.map TimeIndexEntry.collectionId)))
      return entries

end Valise
