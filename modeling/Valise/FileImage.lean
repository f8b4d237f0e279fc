import Valise.CatalogRuns
import Valise.WrittenSegments

/-!
The bytes of a file whose segments the engine knows as values, and the open file that the payload
reads of a handle or of a snapshot see.
-/

namespace Valise

open ByteLists Outcomes SortedTables

/-- What the bytes of a file have besides the contents of its segments. -/
structure Layout where
  blake3 : Bytes → Checksum
  compress : Bytes → Bytes
  /-- The bytes before a segment: footers, and what writes that failed left behind. -/
  gap : Nat → Bytes
  /-- The payloads that an earlier writer left uncompressed. -/
  plain : Nat → Bool
  itemCount : Nat → UInt32
  /-- The type and the bytes of the contents that are not payloads. -/
  encode : SegmentContent → SegmentType × Bytes

namespace Layout

variable (layout : Layout)

def compressionAt (place : Nat) : SegmentContent → Compression
  | .payload _ => if layout.plain place then .none else .zstd
  | _ => .none

def typeOf : SegmentContent → SegmentType
  | .payload _ => .payload
  | content => (layout.encode content).1

def contentBytes : SegmentContent → Bytes
  | .payload bytes => bytes
  | content => (layout.encode content).2

def wireBytes (place : Nat) (content : SegmentContent) : Bytes :=
  wireOf layout.compress (layout.compressionAt place content) (layout.contentBytes content)

def segmentHeader (place : Nat) (stored : StoredSegment) : SegmentHeader :=
  SegmentHeader.new layout.blake3 (layout.typeOf stored.content) stored.segmentId
    (layout.itemCount place) (layout.compressionAt place stored.content)
    (UInt64.ofNat (layout.contentBytes stored.content).length)
    (layout.wireBytes place stored.content)

def imageFrom : Nat → StoredFile → Bytes
  | _, [] => []
  | place, stored :: rest =>
      layout.gap place ++ ((layout.segmentHeader place stored).encode ++
        (layout.wireBytes place stored.content ++ imageFrom (place + 1) rest))

/-- The file behind its header region. -/
def image (file : StoredFile) : Bytes := layout.imageFrom 0 file

/-- Where the segment of a place begins. -/
def offsetOf (file : StoredFile) (place : Nat) : Nat :=
  headerSize + ((layout.image (file.take place)).length + (layout.gap place).length)

def refOf (file : StoredFile) (place : Nat) (stored : StoredSegment) : SegmentRef where
  segmentId := stored.segmentId
  offset := UInt64.ofNat (layout.offsetOf file place)
  length := UInt64.ofNat (segmentHeaderSize + (layout.wireBytes place stored.content).length)
  checksum := layout.blake3 (layout.wireBytes place stored.content)

/-- A registry row names its segment by the place it was appended at. -/
def registered (file : StoredFile) (entry : SegmentCatalogEntry) : RegisteredSegment :=
  match file[entry.root.place]? with
  | none => ⟨⟨entry.segmentId, 0, 0, zeroChecksum⟩, entry.compression⟩
  | some stored =>
      ⟨{ layout.refOf file entry.root.place stored with segmentId := entry.segmentId },
        entry.compression⟩

/-- As much of the open file as the reads of payloads look at. -/
def openFile (file : StoredFile) (tables : Tables) (mapped : Nat) : OpenFile where
  data := layout.image file
  mapped := mapped
  registry := (tables .segment).map (layout.registered file)
  frames := (tables .frame).map fun frame =>
    ⟨frame.frameId, frame.payloadEncoding, frame.payloadRef, none⟩
  vectors := []
  embeddingSpaces := []
  codecs := []

/-- Offsets and lengths are 64 bits wide. -/
structure Fits (file : StoredFile) : Prop where
  whole : fileLen (layout.image file) < 2 ^ 64
  contents : ∀ stored ∈ file, (layout.contentBytes stored.content).length < 2 ^ 64

end Layout

/-! ### The image -/

section Image

variable {layout : Layout} {file : StoredFile}

theorem imageFrom_append (place : Nat) (file later : StoredFile) :
    layout.imageFrom place (file ++ later) =
      layout.imageFrom place file ++ layout.imageFrom (place + file.length) later := by
  induction file generalizing place with
  | nil => rfl
  | cons stored rest ih =>
      have moved : place + 1 + rest.length = place + (rest.length + 1) := by omega
      simp only [List.cons_append, Layout.imageFrom, ih, List.length_cons, List.append_assoc, moved]

/-- What is appended to a file leaves its bytes where they are. -/
theorem image_append (file later : StoredFile) :
    layout.image (file ++ later) = layout.image file ++ layout.imageFrom file.length later := by
  rw [Layout.image, imageFrom_append, Nat.zero_add]
  rfl

/-- The bytes of a file around one of its segments. -/
theorem image_split {place : Nat} {stored : StoredSegment} (placed : file[place]? = some stored) :
    ∃ after, layout.image file = (layout.image (file.take place) ++ layout.gap place) ++
      ((layout.segmentHeader place stored).encode ++
        (layout.wireBytes place stored.content ++ after)) := by
  obtain ⟨inside, found⟩ := List.getElem?_eq_some_iff.mp placed
  have whole : file = file.take place ++ stored :: file.drop (place + 1) := by
    rw [← found, List.getElem_cons_drop, List.take_append_drop]
  have sized : (file.take place).length = place := List.length_take_of_le (Nat.le_of_lt inside)
  refine ⟨layout.imageFrom (place + 1) (file.drop (place + 1)), ?_⟩
  conv_lhs => rw [whole, image_append, sized, Layout.imageFrom]
  rw [List.append_assoc]

end Image

section Placed

variable {layout : Layout} {file : StoredFile} {place : Nat} {stored : StoredSegment}
  (placed : file[place]? = some stored)

include placed

theorem offsetOf_inside : layout.offsetOf file place + (segmentHeaderSize +
    (layout.wireBytes place stored.content).length) ≤ fileLen (layout.image file) := by
  obtain ⟨after, split⟩ := @image_split layout file place stored placed
  rw [split, Layout.offsetOf, fileLen]
  simp only [List.length_append, SegmentHeader.encode_length]
  omega

theorem slice_image_header :
    slice (layout.image file) (layout.offsetOf file place - headerSize) segmentHeaderSize =
      (layout.segmentHeader place stored).encode := by
  obtain ⟨after, split⟩ := @image_split layout file place stored placed
  have front : layout.offsetOf file place - headerSize =
      (layout.image (file.take place) ++ layout.gap place).length + 0 := by
    rw [Layout.offsetOf, Nat.add_sub_cancel_left, List.length_append, Nat.add_zero]
  have sized := (layout.segmentHeader place stored).encode_length
  rw [split, front, slice_append_right, slice_append_left _ _ _ _ (by omega), ← sized]
  simp [slice]

theorem slice_image_wire :
    slice (layout.image file) (layout.offsetOf file place + segmentHeaderSize - headerSize)
      (layout.wireBytes place stored.content).length = layout.wireBytes place stored.content := by
  obtain ⟨after, split⟩ := @image_split layout file place stored placed
  have front : layout.offsetOf file place + segmentHeaderSize - headerSize =
      (layout.image (file.take place) ++ layout.gap place).length +
        ((layout.segmentHeader place stored).encode.length + 0) := by
    rw [Layout.offsetOf, List.length_append, SegmentHeader.encode_length]
    omega
  rw [split, front, slice_append_right, slice_append_right, slice_append_left _ _ _ _ (by omega)]
  simp [slice]

end Placed

/-! ### Payloads in the image -/

/-- The payload of a segment that the registry has, compressed the way the registry says. -/
def PayloadStored (layout : Layout) (file : StoredFile) (registry : List SegmentCatalogEntry)
    (segmentId : SegmentId) (content : Bytes) : Prop :=
  ∃ entry, find (CatalogTableKind.rowId .segment) segmentId.toNat registry = some entry ∧
    entry.root.segmentId = entry.segmentId ∧
    entry.compression = layout.compressionAt entry.root.place (.payload content) ∧
    file.readSegment entry.root = some (.payload content)

theorem registered_segmentId (layout : Layout) (file : StoredFile) (entry : SegmentCatalogEntry) :
    (layout.registered file entry).root.segmentId = entry.segmentId := by
  unfold Layout.registered
  split <;> rfl

theorem openFile_segment? (layout : Layout) (file : StoredFile) (tables : Tables) (mapped : Nat)
    (segmentId : SegmentId) :
    (layout.openFile file tables mapped).segment? segmentId =
      (find (CatalogTableKind.rowId .segment) segmentId.toNat (tables .segment)).map
        (layout.registered file) := by
  change ((tables .segment).map (layout.registered file)).find?
    (fun entry => entry.root.segmentId = segmentId) = _
  generalize tables .segment = registry
  induction registry with
  | nil => rfl
  | cons entry registry ih =>
      have named : CatalogTableKind.rowId .segment entry = entry.segmentId.toNat := rfl
      rw [List.map_cons, List.find?_cons, find]
      by_cases same : entry.segmentId = segmentId
      · simp [registered_segmentId, named, same]
      · have apart : entry.segmentId.toNat ≠ segmentId.toNat := fun clash =>
          same (UInt64.toNat_inj.mp clash)
        simp only [registered_segmentId, same, decide_false, ih, named, apart, if_false]

theorem openFile_frame? (layout : Layout) (file : StoredFile) (tables : Tables) (mapped : Nat)
    (frameId : FrameId) :
    (layout.openFile file tables mapped).frame? frameId =
      (find (CatalogTableKind.rowId .frame) frameId.toNat (tables .frame)).map fun frame =>
        ⟨frame.frameId, frame.payloadEncoding, frame.payloadRef, none⟩ := by
  change ((tables .frame).map fun frame => (⟨frame.frameId, frame.payloadEncoding,
    frame.payloadRef, none⟩ : FrameRefs)).find? (fun frame => frame.frameId = frameId) = _
  generalize tables .frame = frames
  induction frames with
  | nil => rfl
  | cons frame frames ih =>
      have named : CatalogTableKind.rowId .frame frame = frame.frameId.toNat := rfl
      rw [List.map_cons, List.find?_cons, find]
      by_cases same : frame.frameId = frameId
      · simp [named, same]
      · have apart : frame.frameId.toNat ≠ frameId.toNat := fun clash =>
          same (UInt64.toNat_inj.mp clash)
        simp only [same, decide_false, ih, named, apart, if_false]

/-- A stored payload is where the registry of the open file says, and as it says. -/
theorem PayloadStored.holds {layout : Layout} {file : StoredFile}
    {registry : List SegmentCatalogEntry} {segmentId : SegmentId} {content : Bytes}
    (stored : PayloadStored layout file registry segmentId content) (fits : layout.Fits file) :
    ∃ entry, find (CatalogTableKind.rowId .segment) segmentId.toNat registry = some entry ∧
      (layout.registered file entry).Holds layout.blake3 layout.compress (layout.image file)
        .payload content := by
  obtain ⟨entry, found, named, compression, read⟩ := stored
  simp only [StoredFile.readSegment, Option.map_eq_some_iff, Option.filter_eq_some_iff,
    decide_eq_true_eq] at read
  obtain ⟨⟨storedId, _⟩, ⟨placed, same⟩, rfl⟩ := read
  obtain rfl : storedId = entry.segmentId := same.trans named
  have inside := @offsetOf_inside layout file entry.root.place _ placed
  have whole := fits.whole
  have contentFits : content.length < 2 ^ 64 := fits.contents _ (List.mem_of_getElem? placed)
  have behind : headerSize ≤ layout.offsetOf file entry.root.place := Nat.le_add_right _ _
  have wire : layout.wireBytes entry.root.place (.payload content) =
      wireOf layout.compress entry.compression content := by
    rw [compression]
    rfl
  rw [wire] at inside
  have root : (layout.registered file entry).root =
      ⟨entry.segmentId, UInt64.ofNat (layout.offsetOf file entry.root.place),
        UInt64.ofNat (segmentHeaderSize +
          (wireOf layout.compress entry.compression content).length),
        layout.blake3 (wireOf layout.compress entry.compression content)⟩ := by
    simp only [Layout.registered, placed, Layout.refOf, wire]
  have packed : (layout.registered file entry).compression = entry.compression := by
    simp only [Layout.registered, placed]
  have offset : (UInt64.ofNat (layout.offsetOf file entry.root.place)).toNat =
      layout.offsetOf file entry.root.place := by
    rw [UInt64.toNat_ofNat']
    exact Nat.mod_eq_of_lt (by omega)
  have length : (UInt64.ofNat (segmentHeaderSize +
      (wireOf layout.compress entry.compression content).length)).toNat =
      segmentHeaderSize + (wireOf layout.compress entry.compression content).length := by
    rw [UInt64.toNat_ofNat']
    exact Nat.mod_eq_of_lt (by omega)
  have header := @slice_image_header layout file entry.root.place _ placed
  have wireThere := @slice_image_wire layout file entry.root.place _ placed
  refine ⟨entry, found, ?_⟩
  constructor
  · rw [root, offset]
    exact behind
  · rw [root, offset, length]
    exact inside
  · rw [root, offset, length]
    omega
  · exact contentFits
  · rw [packed, compression, Layout.compressionAt]
    split
    · exact .inl rfl
    · exact .inr rfl
  · rw [root, packed, length]
  · rw [root, packed]
  · refine ⟨layout.itemCount entry.root.place, ?_⟩
    rw [headerAt, root, packed, offset, header, Layout.segmentHeader, wire, compression]
    rfl
  · rw [wireAt, root, packed, offset, length, Nat.add_sub_cancel_left, ← wire]
    exact wireThere

end Valise
