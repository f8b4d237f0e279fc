import Valise.Recovery

/-!
What a create and a commit leave in the file: segments, then a footer at the end, then the header
rewrite that names it. A crash may keep any part of the appended bytes, with the two header fields
torn independently.
-/

namespace Valise

open ByteLists Outcomes

section Commits

variable (blake3 : Bytes → Checksum)

def TocFooter.empty (generation : UInt64) (contract : CreateContractV1) : TocFooter :=
  TocFooterCodec.encodeBody blake3 { snapshotGeneration := generation, createContract := contract }

def createWithOptions (fileUuid : { bytes : Bytes // bytes.length = 16 })
    (contract : CreateContractV1) : Result FileImage := do
  let footer := TocFooter.empty blake3 1 contract
  let data ← writeTocFooterAtEnd blake3 [] footer
  return {
    header := {
      fileUuid := fileUuid
      footerOffset := UInt64.ofNat (fileLen [])
      snapshotGeneration := footer.body.snapshotGeneration
      createContractDigest := contract.digest blake3 }
    data := data }

/-- The three writes of a commit: `segments` at the end, the footer for `body` after them, and the
header fields that name it. -/
def commitPhaseWrites (image : FileImage) (segments : Bytes) (body : TocFooterBody) :
    Result FileImage := do
  let footer := TocFooterCodec.encodeBody blake3 body
  let footerOffset := fileLen (image.data ++ segments)
  let data ← writeTocFooterAtEnd blake3 (image.data ++ segments) footer
  return {
    header := { image.header with
      footerOffset := UInt64.ofNat footerOffset
      snapshotGeneration := footer.body.snapshotGeneration }
    data := data }

/-- The footer a commit of `body` after `segments` leaves behind. -/
def committedFooter (image : FileImage) (segments : Bytes) (body : TocFooterBody) :
    FooterCandidate where
  offset := fileLen (image.data ++ segments)
  footer := TocFooterCodec.encodeBody blake3 body

theorem writeTocFooterAtEnd_encodeBody (data : Bytes) (body : TocFooterBody) :
    writeTocFooterAtEnd blake3 data (TocFooterCodec.encodeBody blake3 body) =
      .ok (data ++ TocFooterCodec.image blake3 body) := by
  rw [writeTocFooterAtEnd, TocFooterCodec.encode_encodeBody]
  rfl

theorem commitPhaseWrites_ok (image : FileImage) (segments : Bytes) (body : TocFooterBody) :
    commitPhaseWrites blake3 image segments body = .ok {
      header := { image.header with
        footerOffset := UInt64.ofNat (committedFooter blake3 image segments body).offset
        snapshotGeneration := body.snapshotGeneration }
      data := image.data ++ segments ++ TocFooterCodec.image blake3 body } := by
  rw [commitPhaseWrites, writeTocFooterAtEnd_encodeBody]
  rfl

theorem createWithOptions_ok (fileUuid : { bytes : Bytes // bytes.length = 16 })
    (contract : CreateContractV1) :
    createWithOptions blake3 fileUuid contract = .ok {
      header := {
        fileUuid := fileUuid
        footerOffset := UInt64.ofNat (fileLen [])
        snapshotGeneration := 1
        createContractDigest := contract.digest blake3 }
      data := TocFooterCodec.image blake3
        { snapshotGeneration := 1, createContract := contract } } := by
  unfold createWithOptions TocFooter.empty
  dsimp only
  rw [writeTocFooterAtEnd_encodeBody]
  rfl

theorem committedFooter_readable (image : FileImage) (segments : Bytes) (body : TocFooterBody)
    (fits : fileLen (image.data ++ segments ++ TocFooterCodec.image blake3 body) < 2 ^ 64) :
    readTocFooter blake3 (image.data ++ segments ++ TocFooterCodec.image blake3 body)
        (committedFooter blake3 image segments body).offset =
      .ok (committedFooter blake3 image segments body).footer :=
  readTocFooter_end blake3 (image.data ++ segments) body fits

/-- A file system holds no file of `2 ^ 63` bytes or more. -/
def Fits (data : Bytes) : Prop := fileLen data < 2 ^ 63

/-- Files built by one create and any number of successful commits, with the footers those wrote,
the newest first. Segment bytes are arbitrary; a body keeps the contract and counts up. -/
inductive History : FileImage → FooterCandidate → List FooterCandidate → Prop where
  | create {fileUuid contract image} :
      createWithOptions blake3 fileUuid contract = .ok image → Fits image.data →
      History image ⟨headerSize, TocFooter.empty blake3 1 contract⟩ []
  | commit {image last older segments body next} :
      History image last older →
      body.snapshotGeneration = image.header.snapshotGeneration + 1 →
      body.createContract = last.footer.body.createContract →
      commitPhaseWrites blake3 image segments body = .ok next → Fits next.data →
      History next (committedFooter blake3 image segments body) (last :: older)

/-- What every such file satisfies. -/
structure Consistent (image : FileImage) (last : FooterCandidate)
    (older : List FooterCandidate) : Prop where
  fits : Fits image.data
  named : image.header.footerOffset.toNat = last.offset
  generation : image.header.snapshotGeneration = last.footer.body.snapshotGeneration
  readable : ∀ candidate ∈ last :: older,
    readTocFooter blake3 image.data candidate.offset = .ok candidate.footer
  contract : ∀ candidate ∈ last :: older,
    candidate.footer.body.createContract.digest blake3 = image.header.createContractDigest
  newest : ∀ candidate ∈ older, candidate.footer.body.snapshotGeneration.toNat <
    last.footer.body.snapshotGeneration.toNat
  counted : last.footer.body.snapshotGeneration.toNat * tocHeaderLen ≤ image.data.length

theorem Consistent.commit {image next : FileImage} {last : FooterCandidate}
    {older : List FooterCandidate} {segments : Bytes} {body : TocFooterBody}
    (consistent : Consistent blake3 image last older)
    (counts : body.snapshotGeneration = image.header.snapshotGeneration + 1)
    (keeps : body.createContract = last.footer.body.createContract)
    (written : commitPhaseWrites blake3 image segments body = .ok next)
    (fits : Fits next.data) :
    Consistent blake3 next (committedFooter blake3 image segments body) (last :: older) := by
  rw [commitPhaseWrites_ok, Outcome.ok.injEq] at written
  subst written
  have long := TocFooterCodec.image_length blake3 body
  simp only [Fits, fileLen, List.length_append] at fits
  have counted := consistent.counted
  have imageFits := consistent.fits
  have next_generation : body.snapshotGeneration.toNat =
      last.footer.body.snapshotGeneration.toNat + 1 := by
    have small : last.footer.body.snapshotGeneration.toNat + 1 < 2 ^ 64 := by
      simp only [Fits, fileLen, tocHeaderLen] at imageFits counted
      omega
    rw [counts, consistent.generation, UInt64.toNat_add]
    exact Nat.mod_eq_of_lt small
  refine ⟨?_, ?_, rfl, ?_, ?_, ?_, ?_⟩
  · simpa only [Fits, fileLen, List.length_append] using fits
  · have small : fileLen (image.data ++ segments) < 2 ^ 64 := by
      simp only [fileLen, List.length_append]
      omega
    exact UInt64.toNat_ofNat_of_lt' small
  · intro candidate member
    rcases List.mem_cons.mp member with rfl | old
    · refine committedFooter_readable blake3 image segments body ?_
      simp only [fileLen, List.length_append]
      omega
    · rw [List.append_assoc]
      exact readTocFooter_append blake3 _ (consistent.readable candidate old)
  · intro candidate member
    rcases List.mem_cons.mp member with rfl | old
    · change body.createContract.digest blake3 = _
      rw [keeps]
      exact consistent.contract last List.mem_cons_self
    · exact consistent.contract candidate old
  · intro candidate member
    change _ < body.snapshotGeneration.toNat
    rcases List.mem_cons.mp member with rfl | old
    · omega
    · have earlier := consistent.newest candidate old
      omega
  · change body.snapshotGeneration.toNat * tocHeaderLen ≤ _
    simp only [List.length_append, next_generation, Nat.add_mul]
    omega

theorem History.consistent {image : FileImage} {last : FooterCandidate}
    {older : List FooterCandidate} (history : History blake3 image last older) :
    Consistent blake3 image last older := by
  induction history with
  | create created fits =>
      rename_i fileUuid contract image
      rw [createWithOptions_ok, Outcome.ok.injEq] at created
      subst created
      have long := TocFooterCodec.image_length blake3
        { snapshotGeneration := 1, createContract := contract }
      simp only [Fits, fileLen] at fits
      refine ⟨fits, rfl, rfl, ?_, ?_, by simp, ?_⟩
      · intro candidate member
        obtain rfl := List.mem_singleton.mp member
        refine readTocFooter_end blake3 []
          { snapshotGeneration := 1, createContract := contract } ?_
        simp only [fileLen, List.nil_append]
        omega
      · intro candidate member
        obtain rfl := List.mem_singleton.mp member
        rfl
      · change 1 * tocHeaderLen ≤ (TocFooterCodec.image blake3
          { snapshotGeneration := 1, createContract := contract }).length
        omega
  | commit _ counts keeps written fits ih => exact ih.commit blake3 counts keeps written fits

end Commits

end Valise
