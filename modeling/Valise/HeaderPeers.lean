import Valise.HeaderPages
import Valise.Library.Runs

/-!
Processes that share the header page of a file: the page refines numbers that are written one at a
time, so that no write loses another one.
-/

namespace Valise

open ByteLists Outcomes Pages

section Peers

variable (fileUuid : { bytes : Bytes // bytes.length = 16 }) (digest : Checksum)

/-- The header of a file, at a footer. -/
def fileHeader (footerOffset snapshotGeneration : UInt64) : Header where
  fileUuid := fileUuid
  footerOffset := footerOffset
  snapshotGeneration := snapshotGeneration
  createContractDigest := digest

/-- The two header writes of a create: the whole page, then the prefix that names the first footer. -/
def createPage : Result HeaderPage := do
  let page ← HeaderCodec.writeInitial (fileHeader fileUuid digest 0 0)
  HeaderCodec.writeLogicalPrefix page (fileHeader fileUuid digest (UInt64.ofNat (fileLen [])) 1)

def openHeader (page : HeaderPage) : Result Header := do
  let header ← HeaderCodec.decode page
  Outcome.ensure (header.advertises featureCoordinationRegion = true) (.format
    "open: file lacks FEATURE_COORDINATION_REGION (legacy files are not supported)")
  Outcome.ensure (header.advertises featureCreateContract = true) (.format
    "open: file lacks FEATURE_CREATE_CONTRACT (legacy files are not supported)")
  return header

/-- The page of a file, and the header that each process with an open handle has in memory. -/
structure HeaderPeers (ι : Type) where
  page : HeaderPage
  handles : ι → Option Header

variable {ι : Type}

def HeaderPeers.setHandle [DecidableEq ι] (peers : HeaderPeers ι) (process : ι)
    (header : Option Header) : HeaderPeers ι :=
  { peers with handles := Function.update peers.handles process header }

/-- The steps of a commit that touch the header, and those around it, of any process at any time.
An open may go back to another footer than the header names, and a commit names a new one. -/
inductive HeaderStep [DecidableEq ι] : HeaderPeers ι → HeaderPeers ι → Prop where
  | opened {peers process header} (footerOffset snapshotGeneration : UInt64) :
      openHeader peers.page = .ok header →
      HeaderStep peers (peers.setHandle process (some { header with footerOffset, snapshotGeneration }))
  | named {peers process header} (footerOffset snapshotGeneration : UInt64) :
      peers.handles process = some header →
      HeaderStep peers (peers.setHandle process (some { header with footerOffset, snapshotGeneration }))
  | publishedToc {peers process header} : peers.handles process = some header →
      isActive peers.page.1 = true →
      HeaderStep peers { peers with
        page := peers.page.write publishedTocAt (putLittleEndian 8 header.footerOffset.toNat) }
  | publishedGeneration {peers process header} : peers.handles process = some header →
      isActive peers.page.1 = true →
      HeaderStep peers { peers with
        page := peers.page.write publishedGenerationAt
          (putLittleEndian 8 header.snapshotGeneration.toNat) }
  | rewrote {peers process header page} : peers.handles process = some header →
      HeaderCodec.writeLogicalPrefix peers.page header = .ok page →
      HeaderStep peers { peers with page }
  | closed {peers} (process : ι) : HeaderStep peers (peers.setHandle process none)

/-- A file just created, with the handle of the process that created it. -/
def HeaderPeers.Created [DecidableEq ι] (peers : HeaderPeers ι) : Prop :=
  createPage fileUuid digest = .ok peers.page ∧ ∃ creator : ι, peers.handles = fun process =>
    if process = creator then some (fileHeader fileUuid digest (UInt64.ofNat (fileLen [])) 1)
    else none

/-! ### What they write -/

/-- Four numbers that are written one at a time, and the footer of each open handle. -/
structure HeaderCells (ι : Type) where
  footerOffset : UInt64
  snapshotGeneration : UInt64
  publishedTocOffset : UInt64
  publishedGeneration : UInt64
  handles : ι → Option (UInt64 × UInt64)

inductive CellStep [DecidableEq ι] : HeaderCells ι → HeaderCells ι → Prop where
  | opened {cells} (process : ι) (footer : UInt64 × UInt64) :
      CellStep cells { cells with handles := Function.update cells.handles process (some footer) }
  | named {cells process footer} (next : UInt64 × UInt64) : cells.handles process = some footer →
      CellStep cells { cells with handles := Function.update cells.handles process (some next) }
  | publishedToc {cells process footer} : cells.handles process = some footer →
      CellStep cells { cells with publishedTocOffset := footer.1 }
  | publishedGeneration {cells process footer} : cells.handles process = some footer →
      CellStep cells { cells with publishedGeneration := footer.2 }
  | rewrote {cells process footer} : cells.handles process = some footer →
      CellStep cells { cells with footerOffset := footer.1, snapshotGeneration := footer.2 }
  | closed {cells} (process : ι) :
      CellStep cells { cells with handles := Function.update cells.handles process none }

/-- The page holds the numbers, and every handle is one of the file. -/
structure HeaderPeers.Holds (peers : HeaderPeers ι) (cells : HeaderCells ι) : Prop where
  decodes : HeaderCodec.decode peers.page =
    .ok (fileHeader fileUuid digest cells.footerOffset cells.snapshotGeneration)
  region : Region peers.page.1 cells.publishedTocOffset cells.publishedGeneration
  handles : ∀ process, peers.handles process =
    (cells.handles process).map fun footer => fileHeader fileUuid digest footer.1 footer.2

variable {fileUuid digest}

theorem fileHeader_advertises (footerOffset snapshotGeneration : UInt64) :
    (fileHeader fileUuid digest footerOffset snapshotGeneration).advertises
        featureCoordinationRegion = true ∧
      (fileHeader fileUuid digest footerOffset snapshotGeneration).advertises
        featureCreateContract = true := by
  have both : (0x00C0 : UInt64) &&& featureCoordinationRegion ≠ 0 ∧
      (0x00C0 : UInt64) &&& featureCreateContract ≠ 0 := by
    decide
  exact ⟨decide_eq_true both.1, decide_eq_true both.2⟩

/-- A write behind the logical prefix that spares the digest is not seen by a decode. -/
theorem decode_write {page : HeaderPage} {offset : Nat} {bytes : Bytes}
    (behind : HeaderCodec.logicalEnd ≤ offset)
    (apart : Apart offset bytes.length createContractDigestOffset blake3Len) :
    HeaderCodec.decode (page.write offset bytes) = HeaderCodec.decode page := by
  have logical : ∀ {start width : Nat}, start + width ≤ HeaderCodec.logicalEnd →
      slice (overwrite page.1 offset bytes) start width = slice page.1 start width :=
    fun inside => slice_apart (.inr (inside.trans behind))
  exact HeaderCodec.decode_congr ⟨logical (by decide), logical (by decide), logical (by decide)⟩
    (.inl (slice_apart apart))

theorem writeLogicalPrefix_ok {page after : HeaderPage} {header : Header}
    (wrote : HeaderCodec.writeLogicalPrefix page header = .ok after) :
    header.validate = .ok () ∧
      after = page.write 0 ((HeaderCodec.layOut header).take HeaderCodec.logicalEnd) := by
  obtain ⟨buf, encoded, same⟩ := Outcome.bind_eq_ok.mp wrote
  obtain ⟨valid, rfl⟩ := HeaderCodec.encode_ok.mp encoded
  exact ⟨valid, (Outcome.ok.inj same).symm⟩

theorem length_logicalPrefix (header : Header) :
    ((HeaderCodec.layOut header).take HeaderCodec.logicalEnd).length = HeaderCodec.logicalEnd := by
  rw [List.length_take, HeaderCodec.layOut_sized]
  decide

/-- The prefix of a header of the same file leaves its digest in place. -/
theorem decode_rewrite {page after : HeaderPage} {footerOffset snapshotGeneration : UInt64}
    {header : Header} (held : slice page.1 createContractDigestOffset blake3Len = digest.1)
    (here : header = fileHeader fileUuid digest footerOffset snapshotGeneration)
    (wrote : HeaderCodec.writeLogicalPrefix page header = .ok after) :
    HeaderCodec.decode after = .ok header ∧
      slice after.1 createContractDigestOffset blake3Len = digest.1 := by
  obtain ⟨valid, rfl⟩ := writeLogicalPrefix_ok wrote
  have carries : header.advertises featureCreateContract = true := by
    rw [here]
    exact (fileHeader_advertises _ _).2
  have kept : slice (page.write 0 ((HeaderCodec.layOut header).take HeaderCodec.logicalEnd)).1
      createContractDigestOffset blake3Len = digest.1 := by
    refine (slice_apart ?_).trans held
    rw [length_logicalPrefix]
    decide
  refine ⟨HeaderCodec.decode_ok_iff.mpr ⟨_, HeaderCodec.encode_ok.mpr ⟨valid, rfl⟩,
    fun plain => ?_, ?_, fun _ => ?_⟩, kept⟩
  · rw [carries] at plain
    cases plain
  · have logical : ∀ {start width : Nat}, start + width ≤ HeaderCodec.logicalEnd →
        slice (page.write 0 ((HeaderCodec.layOut header).take HeaderCodec.logicalEnd)).1 start
          width = slice (HeaderCodec.layOut header) start width := by
      intro start width inside
      have written := @slice_inside page.1 0
        ((HeaderCodec.layOut header).take HeaderCodec.logicalEnd) start width
        (by rw [length_logicalPrefix, page.2]; decide) (by rwa [length_logicalPrefix])
      rw [Nat.zero_add] at written
      refine written.trans (slice_take _ _ _ _ ?_)
      rwa [length_logicalPrefix]
    exact ⟨logical (by decide), logical (by decide), logical (by decide)⟩
  · rw [kept, HeaderCodec.digest_layOut carries, here]
    rfl

theorem region_rewrite {page after : HeaderPage} {header : Header} {tocOffset generation : UInt64}
    (region : Region page.1 tocOffset generation)
    (wrote : HeaderCodec.writeLogicalPrefix page header = .ok after) :
    Region after.1 tocOffset generation := by
  obtain ⟨-, rfl⟩ := writeLogicalPrefix_ok wrote
  refine region.congr fun offset width low _ => slice_apart (.inl ?_)
  rw [length_logicalPrefix]
  exact Nat.le_trans (by decide) low

/-- The digest is where a decode found it. -/
theorem HeaderPeers.Holds.keepsDigest {peers : HeaderPeers ι} {cells : HeaderCells ι}
    (holds : HeaderPeers.Holds fileUuid digest peers cells) :
    slice peers.page.1 createContractDigestOffset blake3Len = digest.1 := by
  obtain ⟨buf, encoded, -, -, carried⟩ := HeaderCodec.decode_ok_iff.mp holds.decodes
  obtain ⟨-, rfl⟩ := HeaderCodec.encode_ok.mp encoded
  have carries := (@fileHeader_advertises fileUuid digest cells.footerOffset
    cells.snapshotGeneration).2
  exact (carried carries).trans (HeaderCodec.digest_layOut carries)

/-- A handle of a process is one of the file. -/
theorem HeaderPeers.Holds.handle {peers : HeaderPeers ι} {cells : HeaderCells ι}
    (holds : HeaderPeers.Holds fileUuid digest peers cells) {process : ι} {header : Header}
    (held : peers.handles process = some header) : ∃ footer, cells.handles process = some footer ∧
      header = fileHeader fileUuid digest footer.1 footer.2 := by
  rw [holds.handles process, Option.map_eq_some_iff] at held
  obtain ⟨footer, found, rfl⟩ := held
  exact ⟨footer, found, rfl⟩

theorem HeaderPeers.Holds.setHandle [DecidableEq ι] {peers : HeaderPeers ι} {cells : HeaderCells ι}
    (holds : HeaderPeers.Holds fileUuid digest peers cells) (process : ι)
    (footer : Option (UInt64 × UInt64)) :
    HeaderPeers.Holds fileUuid digest (peers.setHandle process
        (footer.map fun footer => fileHeader fileUuid digest footer.1 footer.2))
      { cells with handles := Function.update cells.handles process footer } where
  decodes := holds.decodes
  region := holds.region
  handles other := by
    by_cases same : other = process
    · subst same
      simp only [HeaderPeers.setHandle, Function.update_self]
    · simp only [HeaderPeers.setHandle, Function.update_of_ne same]
      exact holds.handles other

theorem HeaderPeers.Holds.step [DecidableEq ι] {before after : HeaderPeers ι} {cells : HeaderCells ι}
    (holds : HeaderPeers.Holds fileUuid digest before cells) (step : HeaderStep before after) :
    ∃ next, CellStep cells next ∧ HeaderPeers.Holds fileUuid digest after next := by
  cases step with
  | opened footerOffset snapshotGeneration opens =>
      rename_i process header
      obtain ⟨found, decoded, opens⟩ := Outcome.bind_eq_ok.mp opens
      obtain ⟨_, -, opens⟩ := Outcome.bind_eq_ok.mp opens
      obtain ⟨_, -, same⟩ := Outcome.bind_eq_ok.mp opens
      obtain rfl := Outcome.ok.inj same
      obtain rfl := Outcome.ok.inj (holds.decodes.symm.trans decoded)
      exact ⟨_, .opened process (footerOffset, snapshotGeneration),
        holds.setHandle process (some (footerOffset, snapshotGeneration))⟩
  | named footerOffset snapshotGeneration held =>
      rename_i process header
      obtain ⟨footer, found, rfl⟩ := holds.handle held
      exact ⟨_, .named (footerOffset, snapshotGeneration) found,
        holds.setHandle process (some (footerOffset, snapshotGeneration))⟩
  | publishedToc held active =>
      obtain ⟨footer, found, rfl⟩ := holds.handle held
      refine ⟨_, .publishedToc found, (decode_write (by decide) ?_).trans holds.decodes,
        holds.region.publishToc before.page.2 _, holds.handles⟩
      rw [putLittleEndian_length]
      decide
  | publishedGeneration held active =>
      obtain ⟨footer, found, rfl⟩ := holds.handle held
      refine ⟨_, .publishedGeneration found, (decode_write (by decide) ?_).trans holds.decodes,
        holds.region.publishGeneration before.page.2 _, holds.handles⟩
      rw [putLittleEndian_length]
      decide
  | rewrote held wrote =>
      obtain ⟨footer, found, here⟩ := holds.handle held
      refine ⟨_, .rewrote found, ?_, region_rewrite holds.region wrote, holds.handles⟩
      exact here ▸ (decode_rewrite holds.keepsDigest here wrote).1
  | closed process =>
      exact ⟨_, .closed process, holds.setHandle process none⟩

end Peers

end Valise
