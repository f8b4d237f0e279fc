import Valise.CommitBytes
import Valise.SegmentReads
import Valise.Library.Pages

/-!
The header page of a file: its encoding, what decodes, and the coordination region behind the
logical prefix.
-/

namespace Valise

open ByteLists Outcomes Pages

/-! ### The layout -/

def headerMagic : Bytes := [0x56, 0x4C, 0x53, 0x00]

def formatMajor : UInt16 := 2
def formatMinor : UInt16 := 3

namespace HeaderOffset

def magic : Nat := 0
def formatMajor : Nat := 4
def formatMinor : Nat := 6
def headerSize : Nat := 8
def fileUuid : Nat := 12
def flags : Nat := 28
def footerOffset : Nat := 32
def snapshotGeneration : Nat := 72
def featureBitmap : Nat := 112

end HeaderOffset

def featureCoordinationRegion : UInt64 := 0x0040
def featureCreateContract : UInt64 := 0x0080

def createContractDigestOffset : Nat := 832

def coordRegionOffset : Nat := 128
def coordRegionSize : Nat := 704
def coordReaderSlotsOffset : Nat := 192
def coordReaderSlotSize : Nat := 64
def coordReaderSlotCount : Nat := 8
def coordHeaderSize : Nat := 64
/-- The text `VLSCOORD`. -/
def coordMagic : Bytes := [0x56, 0x4C, 0x53, 0x43, 0x4F, 0x4F, 0x52, 0x44]
def coordVersion : UInt32 := 1

namespace CoordOffset

def magic : Nat := 0
def version : Nat := 8
def readerSlotCount : Nat := 12
def publishedTocOffset : Nat := 16
def publishedSnapshotGeneration : Nat := 24
def pinnedTocOffset : Nat := 0

end CoordOffset

/-! ### The coordination region -/

def get (page : Bytes) (offset width : Nat) : Nat := getLittleEndian (slice page offset width)

/-- Where a reader slot begins in the page. -/
def readerSlot (n : Nat) : Nat :=
  coordRegionOffset + (coordReaderSlotsOffset + n * coordReaderSlotSize)

/-- What is written over the zeros of a new region. No reader is pinned: the offset of a free slot
is all ones. -/
def initialWrites : List (Nat × Bytes) :=
  [(coordRegionOffset + CoordOffset.magic, coordMagic),
    (coordRegionOffset + CoordOffset.version, putLittleEndian 4 coordVersion.toNat),
    (coordRegionOffset + CoordOffset.readerSlotCount, putLittleEndian 4 coordReaderSlotCount)] ++
  (List.range coordReaderSlotCount).map fun n =>
    (readerSlot n + CoordOffset.pinnedTocOffset, putLittleEndian 8 (2 ^ 64 - 1))

def stampInitial (page : Bytes) : Bytes :=
  writeAll (overwrite page coordRegionOffset (List.replicate coordRegionSize 0)) initialWrites

@[simp] theorem length_stampInitial (page : Bytes) : (stampInitial page).length = page.length := by
  rw [stampInitial, length_writeAll, length_overwrite]

structure CoordinationHeaderView where
  magic : Bytes
  version : UInt32
  readerSlotCount : UInt32
  publishedTocOffset : UInt64
  publishedSnapshotGeneration : UInt64
deriving DecidableEq

def readHeaderView (page : Bytes) : Option CoordinationHeaderView :=
  if page.length < coordRegionOffset + coordHeaderSize then none
  else some {
    magic := slice page (coordRegionOffset + CoordOffset.magic) 8
    version := UInt32.ofNat (get page (coordRegionOffset + CoordOffset.version) 4)
    readerSlotCount := UInt32.ofNat (get page (coordRegionOffset + CoordOffset.readerSlotCount) 4)
    publishedTocOffset :=
      UInt64.ofNat (get page (coordRegionOffset + CoordOffset.publishedTocOffset) 8)
    publishedSnapshotGeneration :=
      UInt64.ofNat (get page (coordRegionOffset + CoordOffset.publishedSnapshotGeneration) 8) }

/-- Whether the region is there and of the version of this build. -/
def isActive (page : Bytes) : Bool :=
  coordRegionOffset + coordRegionSize ≤ page.length ∧
    slice page (coordRegionOffset + CoordOffset.magic) 8 = coordMagic ∧
    get page (coordRegionOffset + CoordOffset.version) 4 = coordVersion.toNat

def pinnedTocOffset (page : Bytes) (n : Nat) : UInt64 :=
  UInt64.ofNat (get page (readerSlot n + CoordOffset.pinnedTocOffset) 8)

/-! ### The codec -/

def Header.validate (header : Header) : Result Unit := do
  Outcome.ensure (header.formatMajor = Valise.formatMajor) (.format
    s!"unsupported format major version: {header.formatMajor} (binary expects {Valise.formatMajor}). v1 (pre-WAL-elimination) files are not readable; see MIGRATION.md.")
  Outcome.ensure (header.formatMinor = Valise.formatMinor) (.format
    s!"unsupported format minor version: {header.formatMinor} (binary expects {Valise.formatMinor}). Earlier v2.x files are not readable by a v2.3 binary; see MIGRATION.md.")
  Outcome.ensure (header.footerOffset = 0 ∨ headerSize ≤ header.footerOffset.toNat) (.format
    "footer offset points inside header region")

def Header.advertises (header : Header) (feature : UInt64) : Bool :=
  header.featureBitmap &&& feature ≠ 0

attribute [ext] Header

/-- A header that carries no digest has none. -/
def Header.Plain (header : Header) : Prop :=
  header.advertises featureCreateContract = false → header.createContractDigest = zeroChecksum

namespace HeaderCodec

/-- The logical fields, in the order in which they are written. -/
def logicalWrites (header : Header) : List (Nat × Bytes) :=
  [(HeaderOffset.magic, headerMagic),
    (HeaderOffset.formatMajor, putLittleEndian 2 header.formatMajor.toNat),
    (HeaderOffset.formatMinor, putLittleEndian 2 header.formatMinor.toNat),
    (HeaderOffset.headerSize, putLittleEndian 4 headerSize),
    (HeaderOffset.fileUuid, header.fileUuid.1),
    (HeaderOffset.flags, putLittleEndian 4 header.flags.toNat),
    (HeaderOffset.footerOffset, putLittleEndian 8 header.footerOffset.toNat),
    (HeaderOffset.snapshotGeneration, putLittleEndian 8 header.snapshotGeneration.toNat),
    (HeaderOffset.featureBitmap, putLittleEndian 8 header.featureBitmap.toNat)]

def layOut (header : Header) : Bytes :=
  let page := writeAll (List.replicate headerSize 0) (logicalWrites header)
  let page := if header.advertises featureCoordinationRegion then stampInitial page else page
  if header.advertises featureCreateContract then
    overwrite page createContractDigestOffset header.createContractDigest.1
  else page

def encode (header : Header) : Result Bytes := do
  header.validate
  return layOut header

end HeaderCodec

/-- The bytes of a file up to its first segment. -/
abbrev HeaderPage := { bytes : Bytes // bytes.length = headerSize }

namespace HeaderPage

theorem overwrite_sized (page : HeaderPage) (offset : Nat) (bytes : Bytes) :
    (overwrite page.1 offset bytes).length = headerSize := by
  rw [length_overwrite, page.2]

/-- A write at a place of the page, as one that never reaches past it. -/
def write (page : HeaderPage) (offset : Nat) (bytes : Bytes) : HeaderPage :=
  ⟨overwrite page.1 offset bytes, page.overwrite_sized offset bytes⟩

theorem uuid_sized (page : HeaderPage) :
    (slice page.1 HeaderOffset.fileUuid 16).length = 16 := by
  refine slice_length ?_
  rw [page.2]
  decide

theorem digest_sized (page : HeaderPage) :
    (slice page.1 createContractDigestOffset blake3Len).length = blake3Len := by
  refine slice_length ?_
  rw [page.2]
  decide

end HeaderPage

namespace HeaderCodec

theorem layOut_sized (header : Header) : (layOut header).length = headerSize := by
  have logical : (writeAll (List.replicate headerSize 0) (logicalWrites header)).length =
      headerSize := by
    rw [length_writeAll, List.length_replicate]
  unfold layOut
  dsimp only
  split
  · rw [length_overwrite]
    split
    · rw [length_stampInitial, logical]
    · exact logical
  · split
    · rw [length_stampInitial, logical]
    · exact logical

/-- The fields of a page, whether they are valid or not. -/
def fields (page : HeaderPage) : Header where
  formatMajor := UInt16.ofNat (get page.1 HeaderOffset.formatMajor 2)
  formatMinor := UInt16.ofNat (get page.1 HeaderOffset.formatMinor 2)
  fileUuid := ⟨slice page.1 HeaderOffset.fileUuid 16, page.uuid_sized⟩
  flags := UInt32.ofNat (get page.1 HeaderOffset.flags 4)
  footerOffset := UInt64.ofNat (get page.1 HeaderOffset.footerOffset 8)
  snapshotGeneration := UInt64.ofNat (get page.1 HeaderOffset.snapshotGeneration 8)
  featureBitmap := UInt64.ofNat (get page.1 HeaderOffset.featureBitmap 8)
  createContractDigest :=
    if UInt64.ofNat (get page.1 HeaderOffset.featureBitmap 8) &&& featureCreateContract ≠ 0 then
      ⟨slice page.1 createContractDigestOffset blake3Len, page.digest_sized⟩
    else zeroChecksum

def decode (page : HeaderPage) : Result Header := do
  Outcome.ensure (slice page.1 HeaderOffset.magic 4 = headerMagic) (.format "header magic mismatch")
  let size := get page.1 HeaderOffset.headerSize 4
  Outcome.ensure (size = headerSize) (.format
    s!"invalid header size: expected {headerSize}, got {size}")
  let header := fields page
  header.validate
  return header

/-- The page of a new file. -/
def writeInitial (header : Header) : Result HeaderPage := do
  let _ ← encode header
  return ⟨layOut header, layOut_sized header⟩

def logicalEnd : Nat := HeaderOffset.featureBitmap + 8

/-- What every later update of the header writes. -/
def writeLogicalPrefix (page : HeaderPage) (header : Header) : Result HeaderPage := do
  let buf ← encode header
  return page.write 0 (buf.take logicalEnd)

end HeaderCodec

/-! ### A fresh page -/

theorem initialWrites_inside : ∀ write ∈ initialWrites, coordRegionOffset ≤ write.1 ∧
    write.1 + write.2.length ≤ coordRegionOffset + coordRegionSize := by
  decide

theorem initialWrites_apart : initialWrites.Pairwise fun first later =>
    Apart later.1 later.2.length first.1 first.2.length := by
  decide

theorem slice_stampInitial_outside (page : Bytes) {other width : Nat}
    (apart : Apart coordRegionOffset coordRegionSize other width) :
    slice (stampInitial page) other width = slice page other width := by
  rw [stampInitial, slice_writeAll_apart, slice_apart]
  · rwa [List.length_replicate]
  · intro write listed
    obtain ⟨low, high⟩ := initialWrites_inside write listed
    unfold Apart at apart ⊢
    omega

theorem slice_stampInitial {page : Bytes} (sized : page.length = headerSize)
    {write : Nat × Bytes} (listed : write ∈ initialWrites) :
    slice (stampInitial page) write.1 write.2.length = write.2 := by
  refine slice_writeAll initialWrites_apart (fun other inside => ?_) listed
  have high := (initialWrites_inside other inside).2
  rw [length_overwrite, sized]
  exact high.trans (by decide)

namespace HeaderCodec

variable (header : Header)

theorem logicalWrites_inside :
    ∀ write ∈ logicalWrites header, write.1 + write.2.length ≤ logicalEnd := by
  have uuid := header.fileUuid.2
  simp only [logicalWrites, List.forall_mem_cons, putLittleEndian_length, uuid]
  decide

theorem logicalWrites_apart : (logicalWrites header).Pairwise fun first later =>
    Apart later.1 later.2.length first.1 first.2.length := by
  have uuid := header.fileUuid.2
  simp only [logicalWrites, List.pairwise_cons, List.forall_mem_cons, putLittleEndian_length, uuid]
  decide

/-- What is written after the logical fields leaves them alone. -/
theorem slice_layOut_logical {offset width : Nat} (inside : offset + width ≤ logicalEnd) :
    slice (layOut header) offset width =
      slice (writeAll (List.replicate headerSize 0) (logicalWrites header)) offset width := by
  have region : Apart coordRegionOffset coordRegionSize offset width :=
    .inr (inside.trans (by decide))
  have digest : Apart createContractDigestOffset header.createContractDigest.1.length offset width :=
    .inr (inside.trans (by decide))
  unfold layOut
  dsimp only
  split
  · rw [slice_apart digest]
    split
    · exact slice_stampInitial_outside _ region
    · rfl
  · split
    · exact slice_stampInitial_outside _ region
    · rfl

theorem slice_layOut {write : Nat × Bytes} (listed : write ∈ logicalWrites header) :
    slice (layOut header) write.1 write.2.length = write.2 := by
  have inside := logicalWrites_inside header
  rw [slice_layOut_logical header (inside write listed)]
  refine slice_writeAll (logicalWrites_apart header) (fun other member => ?_) listed
  rw [List.length_replicate]
  exact (inside other member).trans (by decide)

theorem get_layOut {offset width value : Nat}
    (listed : (offset, putLittleEndian width value) ∈ logicalWrites header)
    (fits : value < 256 ^ width) : get (layOut header) offset width = value := by
  have written := slice_layOut header listed
  rw [putLittleEndian_length] at written
  rw [get, written, getLittleEndian_put width value fits]

variable {header}

theorem digest_layOut (carries : header.advertises featureCreateContract = true) :
    slice (layOut header) createContractDigestOffset blake3Len =
      header.createContractDigest.1 := by
  have sized := header.createContractDigest.2
  have whole : ∀ page : Bytes, page.length = headerSize →
      slice (overwrite page createContractDigestOffset header.createContractDigest.1)
        createContractDigestOffset blake3Len = header.createContractDigest.1 := by
    intro page long
    have written := @slice_overwrite page createContractDigestOffset header.createContractDigest.1
      (by rw [sized, long]; decide)
    rwa [sized] at written
  unfold layOut
  dsimp only
  rw [if_pos carries]
  refine whole _ ?_
  split
  · rw [length_stampInitial, length_writeAll, List.length_replicate]
  · rw [length_writeAll, List.length_replicate]

theorem fields_layOut (plain : header.Plain) :
    fields ⟨layOut header, layOut_sized header⟩ = header := by
  have major : get (layOut header) HeaderOffset.formatMajor 2 = header.formatMajor.toNat :=
    get_layOut header (by simp [logicalWrites]) header.formatMajor.toNat_lt
  have minor : get (layOut header) HeaderOffset.formatMinor 2 = header.formatMinor.toNat :=
    get_layOut header (by simp [logicalWrites]) header.formatMinor.toNat_lt
  have flags : get (layOut header) HeaderOffset.flags 4 = header.flags.toNat :=
    get_layOut header (by simp [logicalWrites]) header.flags.toNat_lt
  have footer : get (layOut header) HeaderOffset.footerOffset 8 = header.footerOffset.toNat :=
    get_layOut header (by simp [logicalWrites]) header.footerOffset.toNat_lt
  have generation : get (layOut header) HeaderOffset.snapshotGeneration 8 =
      header.snapshotGeneration.toNat :=
    get_layOut header (by simp [logicalWrites]) header.snapshotGeneration.toNat_lt
  have bitmap : get (layOut header) HeaderOffset.featureBitmap 8 = header.featureBitmap.toNat :=
    get_layOut header (by simp [logicalWrites]) header.featureBitmap.toNat_lt
  have uuid : slice (layOut header) HeaderOffset.fileUuid 16 = header.fileUuid.1 := by
    have written := @slice_layOut header (HeaderOffset.fileUuid, header.fileUuid.1)
      (by simp [logicalWrites])
    rwa [header.fileUuid.2] at written
  have known : UInt64.ofNat (get (layOut header) HeaderOffset.featureBitmap 8) =
      header.featureBitmap := by
    rw [bitmap, UInt64.ofNat_toNat]
  have digest : (fields ⟨layOut header, layOut_sized header⟩).createContractDigest =
      header.createContractDigest := by
    simp only [fields, known]
    by_cases carries : header.featureBitmap &&& featureCreateContract ≠ 0
    · rw [if_pos carries]
      exact Subtype.ext (digest_layOut (decide_eq_true carries))
    · rw [if_neg carries, plain (decide_eq_false carries)]
  refine Header.ext ?_ ?_ (Subtype.ext uuid) ?_ ?_ ?_ known digest
  · simp only [fields, major, UInt16.ofNat_toNat]
  · simp only [fields, minor, UInt16.ofNat_toNat]
  · simp only [fields, flags, UInt32.ofNat_toNat]
  · simp only [fields, footer, UInt64.ofNat_toNat]
  · simp only [fields, generation, UInt64.ofNat_toNat]

theorem decode_layOut (valid : header.validate = .ok ()) (plain : header.Plain) :
    decode ⟨layOut header, layOut_sized header⟩ = .ok header := by
  have magic : slice (layOut header) HeaderOffset.magic 4 = headerMagic :=
    @slice_layOut header (HeaderOffset.magic, headerMagic) (by simp [logicalWrites])
  have size : get (layOut header) HeaderOffset.headerSize 4 = headerSize :=
    get_layOut header (by simp [logicalWrites]) (by decide)
  rw [decode, Outcome.ensure_true _ magic, Outcome.ok_bind]
  dsimp only
  rw [Outcome.ensure_true _ size, Outcome.ok_bind, fields_layOut plain, valid]
  rfl

/-! ### What decodes -/

/-- Two pages with the same logical fields. -/
structure SameFields (first second : Bytes) : Prop where
  front : slice first 0 40 = slice second 0 40
  generation : slice first HeaderOffset.snapshotGeneration 8 =
    slice second HeaderOffset.snapshotGeneration 8
  bitmap : slice first HeaderOffset.featureBitmap 8 = slice second HeaderOffset.featureBitmap 8

theorem SameFields.slice {first second : Bytes} (same : SameFields first second)
    {offset width : Nat} (inside : offset + width ≤ 40) :
    slice first offset width = slice second offset width := by
  have parts : ∀ page : Bytes, ByteLists.slice page offset width =
      ByteLists.slice (ByteLists.slice page 0 40) offset width := by
    intro page
    rw [slice_slice page 0 40 offset width inside, Nat.zero_add]
  rw [parts first, same.front, ← parts]

theorem decode_congr {first second : HeaderPage} (same : SameFields first.1 second.1)
    (digest : slice first.1 createContractDigestOffset blake3Len =
      slice second.1 createContractDigestOffset blake3Len ∨
        (fields second).advertises featureCreateContract = false) :
    decode first = decode second := by
  have magic : slice first.1 HeaderOffset.magic 4 = slice second.1 HeaderOffset.magic 4 :=
    same.slice (by decide)
  have size : get first.1 HeaderOffset.headerSize 4 = get second.1 HeaderOffset.headerSize 4 :=
    congrArg getLittleEndian (same.slice (by decide))
  have known : get first.1 HeaderOffset.featureBitmap 8 = get second.1 HeaderOffset.featureBitmap 8 :=
    congrArg getLittleEndian same.bitmap
  have equal : fields first = fields second := by
    refine Header.ext ?_ ?_ (Subtype.ext (same.slice (by decide))) ?_ ?_ ?_ ?_ ?_
    · exact congrArg (fun bytes => UInt16.ofNat (getLittleEndian bytes)) (same.slice (by decide))
    · exact congrArg (fun bytes => UInt16.ofNat (getLittleEndian bytes)) (same.slice (by decide))
    · exact congrArg (fun bytes => UInt32.ofNat (getLittleEndian bytes)) (same.slice (by decide))
    · exact congrArg (fun bytes => UInt64.ofNat (getLittleEndian bytes)) (same.slice (by decide))
    · exact congrArg (fun bytes => UInt64.ofNat (getLittleEndian bytes)) same.generation
    · exact congrArg UInt64.ofNat known
    · simp only [fields, known]
      split
      · rename_i carries
        refine Subtype.ext (digest.resolve_right fun plain => ?_)
        exact (of_decide_eq_false plain) carries
      · rfl
  rw [decode, decode, magic, size, equal]

theorem put_get (page : HeaderPage) {offset width : Nat} (inside : offset + width ≤ headerSize) :
    putLittleEndian width (get page.1 offset width) = slice page.1 offset width := by
  have long : (slice page.1 offset width).length = width := slice_length (by rw [page.2]; exact inside)
  have whole := putLittleEndian_get (slice page.1 offset width)
  rwa [long] at whole

theorem get_lt (page : HeaderPage) {offset width : Nat} (inside : offset + width ≤ headerSize) :
    get page.1 offset width < 256 ^ width := by
  have bound := getLittleEndian_lt (slice page.1 offset width)
  rwa [slice_length (by rw [page.2]; exact inside)] at bound

/-- A page holds the fields that are read from it. -/
theorem slice_fields {page : HeaderPage} (magic : slice page.1 HeaderOffset.magic 4 = headerMagic)
    (size : get page.1 HeaderOffset.headerSize 4 = headerSize) :
    ∀ write ∈ logicalWrites (fields page), slice page.1 write.1 write.2.length = write.2 := by
  have short : ∀ {offset : Nat}, offset + 2 ≤ headerSize →
      slice page.1 offset 2 = putLittleEndian 2 (UInt16.ofNat (get page.1 offset 2)).toNat := by
    intro offset inside
    rw [UInt16.toNat_ofNat_of_lt' (get_lt page inside), put_get page inside]
  have word : ∀ {offset : Nat}, offset + 4 ≤ headerSize →
      slice page.1 offset 4 = putLittleEndian 4 (UInt32.ofNat (get page.1 offset 4)).toNat := by
    intro offset inside
    rw [UInt32.toNat_ofNat_of_lt' (get_lt page inside), put_get page inside]
  have long : ∀ {offset : Nat}, offset + 8 ≤ headerSize →
      slice page.1 offset 8 = putLittleEndian 8 (UInt64.ofNat (get page.1 offset 8)).toNat := by
    intro offset inside
    rw [UInt64.toNat_ofNat_of_lt' (get_lt page inside), put_get page inside]
  have uuid := (fields page).fileUuid.2
  simp only [logicalWrites, List.forall_mem_cons, putLittleEndian_length, uuid]
  refine ⟨magic, short (by decide), short (by decide), ?_, rfl, word (by decide), long (by decide),
    long (by decide), long (by decide), by simp⟩
  exact (put_get page (by decide)).symm.trans (congrArg (putLittleEndian 4) size)

/-- The bytes up to the footer offset are those of its fields. -/
theorem slice_front (page : Bytes) : slice page 0 40 = slice page HeaderOffset.magic 4 ++
    (slice page HeaderOffset.formatMajor 2 ++ (slice page HeaderOffset.formatMinor 2 ++
      (slice page HeaderOffset.headerSize 4 ++ (slice page HeaderOffset.fileUuid 16 ++
        (slice page HeaderOffset.flags 4 ++ slice page HeaderOffset.footerOffset 8))))) := by
  rw [show 40 = 4 + (2 + (2 + (4 + (16 + (4 + 8))))) from rfl, slice_split, slice_split,
    slice_split, slice_split, slice_split, slice_split]
  rfl

theorem sameFields_layOut {page : Bytes} {header : Header}
    (held : ∀ write ∈ logicalWrites header, slice page write.1 write.2.length = write.2) :
    SameFields page (layOut header) := by
  have same : ∀ write ∈ logicalWrites header, slice page write.1 write.2.length =
      slice (layOut header) write.1 write.2.length :=
    fun write listed => (held write listed).trans (slice_layOut header listed).symm
  have uuid := header.fileUuid.2
  simp only [logicalWrites, List.forall_mem_cons, putLittleEndian_length, uuid] at same
  obtain ⟨magic, major, minor, size, uuid, flags, footer, generation, bitmap, -⟩ := same
  have text : headerMagic.length = 4 := rfl
  rw [text] at magic
  exact ⟨by rw [slice_front, slice_front, magic, major, minor, size, uuid, flags, footer],
    generation, bitmap⟩

theorem encode_ok {header : Header} {buf : Bytes} :
    encode header = .ok buf ↔ header.validate = .ok () ∧ buf = layOut header := by
  rw [encode, Outcome.bind_eq_ok]
  constructor
  · rintro ⟨_, valid, same⟩
    exact ⟨valid, (Outcome.ok.inj same).symm⟩
  · rintro ⟨valid, rfl⟩
    exact ⟨(), valid, rfl⟩

/-- A page decodes to a header exactly when it has the bytes of the header's encoding, apart from
those that are reserved and those of the coordination region. -/
theorem decode_ok_iff {page : HeaderPage} {header : Header} :
    decode page = .ok header ↔ ∃ buf, encode header = .ok buf ∧ header.Plain ∧
      SameFields page.1 buf ∧ (header.advertises featureCreateContract = true →
        slice page.1 createContractDigestOffset blake3Len =
          slice buf createContractDigestOffset blake3Len) := by
  simp only [encode_ok]
  constructor
  · intro decoded
    obtain ⟨_, magic, decoded⟩ := Outcome.bind_eq_ok.mp decoded
    obtain ⟨_, size, decoded⟩ := Outcome.bind_eq_ok.mp decoded
    obtain ⟨_, valid, same⟩ := Outcome.bind_eq_ok.mp decoded
    obtain rfl := Outcome.ok.inj same
    have held := slice_fields (Outcome.ensure_eq_ok.mp magic) (Outcome.ensure_eq_ok.mp size)
    refine ⟨_, ⟨valid, rfl⟩, fun plain => ?_, sameFields_layOut held, fun carries => ?_⟩
    · exact if_neg (of_decide_eq_false plain)
    · exact (congrArg Subtype.val (if_pos (of_decide_eq_true carries))).symm.trans
        (digest_layOut carries).symm
  · rintro ⟨_, ⟨valid, rfl⟩, plain, same, digest⟩
    rw [← decode_layOut valid plain]
    refine decode_congr same ?_
    rw [fields_layOut plain]
    cases carries : header.advertises featureCreateContract with
    | true => exact .inl (digest carries)
    | false => exact .inr rfl

end HeaderCodec

/-! ### The coordination region of a page -/

def publishedTocAt : Nat := coordRegionOffset + CoordOffset.publishedTocOffset
def publishedGenerationAt : Nat := coordRegionOffset + CoordOffset.publishedSnapshotGeneration

/-- A region of this version with all its slots free. -/
structure Region (page : Bytes) (tocOffset generation : UInt64) : Prop where
  magic : slice page (coordRegionOffset + CoordOffset.magic) 8 = coordMagic
  version : get page (coordRegionOffset + CoordOffset.version) 4 = coordVersion.toNat
  count : get page (coordRegionOffset + CoordOffset.readerSlotCount) 4 = coordReaderSlotCount
  tocOffset : get page publishedTocAt 8 = tocOffset.toNat
  generation : get page publishedGenerationAt 8 = generation.toNat
  free : ∀ n < coordReaderSlotCount,
    get page (readerSlot n + CoordOffset.pinnedTocOffset) 8 = 2 ^ 64 - 1

namespace Region

variable {page other : Bytes} {tocOffset generation : UInt64}

theorem isActive (region : Region page tocOffset generation) (sized : page.length = headerSize) :
    Valise.isActive page = true := by
  refine decide_eq_true ⟨?_, region.magic, region.version⟩
  rw [sized]
  decide

theorem view (region : Region page tocOffset generation) (sized : page.length = headerSize) :
    readHeaderView page = some ⟨coordMagic, coordVersion, 8, tocOffset, generation⟩ := by
  have long : ¬page.length < coordRegionOffset + coordHeaderSize := by
    rw [sized]
    decide
  rw [readHeaderView, if_neg long, region.magic, region.version, region.count,
    ← publishedTocAt, region.tocOffset, ← publishedGenerationAt, region.generation,
    UInt32.ofNat_toNat, UInt64.ofNat_toNat, UInt64.ofNat_toNat]
  rfl

theorem readerSlot_bounds {n : Nat} (slot : n < coordReaderSlotCount) :
    320 ≤ readerSlot n + CoordOffset.pinnedTocOffset ∧
      readerSlot n + CoordOffset.pinnedTocOffset + 8 ≤ coordRegionOffset + coordRegionSize := by
  simp only [readerSlot, coordRegionOffset, coordReaderSlotsOffset, coordReaderSlotSize,
    CoordOffset.pinnedTocOffset, coordReaderSlotCount, coordRegionSize] at slot ⊢
  omega

/-- Only the bytes of the region matter. -/
theorem congr (region : Region page tocOffset generation)
    (same : ∀ offset width, coordRegionOffset ≤ offset →
      offset + width ≤ coordRegionOffset + coordRegionSize →
      slice other offset width = slice page offset width) : Region other tocOffset generation where
  magic := (same _ _ (by decide) (by decide)).trans region.magic
  version := (congrArg getLittleEndian (same _ _ (by decide) (by decide))).trans region.version
  count := (congrArg getLittleEndian (same _ _ (by decide) (by decide))).trans region.count
  tocOffset := (congrArg getLittleEndian (same _ _ (by decide) (by decide))).trans region.tocOffset
  generation := (congrArg getLittleEndian (same _ _ (by decide) (by decide))).trans region.generation
  free n slot := by
    have bounds := readerSlot_bounds slot
    have low : coordRegionOffset ≤ 320 := by decide
    exact (congrArg getLittleEndian (same _ _ (low.trans bounds.1) bounds.2)).trans
      (region.free n slot)

theorem slice_word {offset value there width : Nat} (apart : Apart offset 8 there width) :
    slice (overwrite page offset (putLittleEndian 8 value)) there width =
      slice page there width := by
  rw [slice_apart]
  rwa [putLittleEndian_length]

/-- A word that is written is read back. -/
theorem get_self {offset : Nat} (sized : page.length = headerSize)
    (inside : offset + 8 ≤ headerSize) (value : UInt64) :
    get (overwrite page offset (putLittleEndian 8 value.toNat)) offset 8 = value.toNat := by
  have written := @slice_overwrite page offset (putLittleEndian 8 value.toNat) (by
    rwa [putLittleEndian_length, sized])
  rw [putLittleEndian_length] at written
  rw [get, written, getLittleEndian_put 8 _ value.toNat_lt]

theorem publishToc (region : Region page tocOffset generation) (sized : page.length = headerSize)
    (value : UInt64) :
    Region (overwrite page publishedTocAt (putLittleEndian 8 value.toNat)) value generation where
  magic := (slice_word (by decide)).trans region.magic
  version := (congrArg getLittleEndian (slice_word (by decide))).trans region.version
  count := (congrArg getLittleEndian (slice_word (by decide))).trans region.count
  tocOffset := get_self sized (by decide) value
  generation := (congrArg getLittleEndian (slice_word (by decide))).trans region.generation
  free n slot := by
    have bounds := readerSlot_bounds slot
    have below : publishedTocAt + 8 ≤ 320 := by decide
    exact (congrArg getLittleEndian (slice_word (.inl (below.trans bounds.1)))).trans
      (region.free n slot)

theorem publishGeneration (region : Region page tocOffset generation)
    (sized : page.length = headerSize) (value : UInt64) :
    Region (overwrite page publishedGenerationAt (putLittleEndian 8 value.toNat)) tocOffset
      value where
  magic := (slice_word (by decide)).trans region.magic
  version := (congrArg getLittleEndian (slice_word (by decide))).trans region.version
  count := (congrArg getLittleEndian (slice_word (by decide))).trans region.count
  tocOffset := (congrArg getLittleEndian (slice_word (by decide))).trans region.tocOffset
  generation := get_self sized (by decide) value
  free n slot := by
    have bounds := readerSlot_bounds slot
    have below : publishedGenerationAt + 8 ≤ 320 := by decide
    exact (congrArg getLittleEndian (slice_word (.inl (below.trans bounds.1)))).trans
      (region.free n slot)

theorem stampInitial (sized : page.length = headerSize) :
    Region (Valise.stampInitial page) 0 0 := by
  have read : ∀ {offset width value : Nat},
      (offset, putLittleEndian width value) ∈ initialWrites → value < 256 ^ width →
      get (Valise.stampInitial page) offset width = value := by
    intro offset width value listed fits
    have written := slice_stampInitial sized listed
    rw [putLittleEndian_length] at written
    rw [get, written, getLittleEndian_put width value fits]
  have zeros : ∀ start, start + 8 ≤ coordRegionSize →
      (∀ write ∈ initialWrites, Apart write.1 write.2.length (coordRegionOffset + start) 8) →
      getLittleEndian (slice (List.replicate coordRegionSize 0) start 8) = 0 →
      get (Valise.stampInitial page) (coordRegionOffset + start) 8 = 0 := by
    intro start inside apart zero
    rw [get, Valise.stampInitial, slice_writeAll_apart apart, slice_inside, zero]
    · rw [List.length_replicate, sized]
      decide
    · rwa [List.length_replicate]
  have slots : ∀ n < coordReaderSlotCount, (readerSlot n + CoordOffset.pinnedTocOffset,
      putLittleEndian 8 (2 ^ 64 - 1)) ∈ initialWrites := by
    decide
  refine ⟨?_, read (by decide) (by decide), read (by decide) (by decide),
    zeros CoordOffset.publishedTocOffset (by decide) (by decide) (by decide),
    zeros CoordOffset.publishedSnapshotGeneration (by decide) (by decide) (by decide),
    fun n slot => read (slots n slot) (by decide)⟩
  exact @slice_stampInitial page sized (coordRegionOffset + CoordOffset.magic, coordMagic) (by decide)

/-- The digest lies behind the region. -/
theorem layOut {header : Header} (has : header.advertises featureCoordinationRegion = true) :
    Region (HeaderCodec.layOut header) 0 0 := by
  have stamped : Region (Valise.stampInitial
      (writeAll (List.replicate headerSize 0) (HeaderCodec.logicalWrites header))) 0 0 :=
    stampInitial (by rw [length_writeAll, List.length_replicate])
  unfold HeaderCodec.layOut
  dsimp only
  rw [if_pos has]
  split
  · refine stamped.congr fun offset width _ high => slice_apart (.inr ?_)
    exact Nat.le_trans high (by decide)
  · exact stamped

end Region

end Valise
