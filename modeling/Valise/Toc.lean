import Valise.Format

/-!
The TOC footer encoding: an 88-byte header with two embedded checksums, then the body.
-/

namespace Valise

open ByteLists Outcomes

-- "VLTC"
def tocMagic : Bytes := [86, 76, 84, 67]
def tocVersion : Nat := 1
def tocHeaderLen : Nat := 88

structure TocFooter where
  body : TocFooterBody
  checksum : Checksum
deriving DecidableEq

def getU16 (bytes : Bytes) (offset : Nat) : Nat := getLittleEndian (slice bytes offset 2)
def getU64 (bytes : Bytes) (offset : Nat) : Nat := getLittleEndian (slice bytes offset 8)

def checkedAdd (left right : Nat) (error : Error) : Result Nat :=
  if left + right < 2 ^ 64 then .ok (left + right) else .err error

namespace TocFooterCodec

/-- The first 56 bytes of an encoded footer: all that `footerChecksum` covers besides the body. -/
def fields (generation : UInt64) (bodyLen : Nat) (bodyChecksum : Checksum) : Bytes :=
  tocMagic ++ putLittleEndian 2 tocVersion ++ putLittleEndian 2 tocHeaderLen ++
    putLittleEndian 8 generation.toNat ++ putLittleEndian 8 bodyLen ++ bodyChecksum.1

variable (blake3 : Bytes → Checksum)

def footerChecksum (generation : UInt64) (body : Bytes) : Checksum :=
  blake3 (fields generation body.length (blake3 body) ++ body)

def encodeBody (body : TocFooterBody) : TocFooter where
  body := body
  checksum := footerChecksum blake3 body.snapshotGeneration (TocFooterBody.codec.encode body)

def encode (footer : TocFooter) : Result Bytes := do
  let body := TocFooterBody.codec.encode footer.body
  let bodyChecksum := blake3 body
  let checksum := footerChecksum blake3 footer.body.snapshotGeneration body
  Outcome.ensure (checksum = footer.checksum) (.integrity "TOC footer checksum is stale")
  return fields footer.body.snapshotGeneration body.length bodyChecksum ++ checksum.1 ++ body

/-- The header checks that `decode` and `encodedLenFromHeader` share; yields the body length. -/
def checkHeader (bytes : Bytes) : Result Nat := do
  Outcome.ensure (slice bytes 0 4 = tocMagic) (.format "TOC footer magic mismatch")
  let version := getU16 bytes 4
  Outcome.ensure (version = tocVersion)
    (.format ("unsupported TOC version: " ++ toString version))
  let headerLen := getU16 bytes 6
  Outcome.ensure (headerLen = tocHeaderLen)
    (.format ("invalid TOC header length: expected 88, got " ++ toString headerLen))
  return getU64 bytes 16

def encodedLenFromHeader (bytes : Bytes) : Result Nat := do
  let bodyLen ← checkHeader bytes
  checkedAdd tocHeaderLen bodyLen (.format "TOC footer length overflow")

def decode (bytes : Bytes) : Result (TocFooter × Nat) := do
  Outcome.ensure (tocHeaderLen ≤ bytes.length) (.format "TOC footer truncated")
  let bodyLen ← checkHeader bytes
  let generation := getU64 bytes 8
  let totalLen ← checkedAdd tocHeaderLen bodyLen (.format "TOC footer length overflow")
  Outcome.ensure (totalLen ≤ bytes.length) (.format "TOC footer body truncated")
  let body := slice bytes tocHeaderLen bodyLen
  Outcome.ensure (slice bytes 24 32 = (blake3 body).1) (.integrity "TOC body checksum mismatch")
  let checksum := footerChecksum blake3 (UInt64.ofNat generation) body
  Outcome.ensure (slice bytes 56 32 = checksum.1) (.integrity "TOC footer checksum mismatch")
  match TocFooterBody.codec.decode body with
  | none => .err (.serde "TOC footer body")
  | some (decoded, rest) => do
      Outcome.ensure (rest = []) (.format "TOC body has trailing bytes")
      Outcome.ensure (decoded.snapshotGeneration.toNat = generation)
        (.integrity "TOC snapshot generation mismatch")
      return (⟨decoded, checksum⟩, totalLen)

/-! ### What the readers accept, and that they never abort -/

theorem checkHeader_ok {bytes : Bytes} {bodyLen : Nat} :
    checkHeader bytes = .ok bodyLen ↔
      slice bytes 0 4 = tocMagic ∧ getU16 bytes 4 = tocVersion ∧
        getU16 bytes 6 = tocHeaderLen ∧ getU64 bytes 16 = bodyLen := by
  simp [checkHeader, Outcome.bind_eq_ok]

theorem encodedLenFromHeader_ok {bytes : Bytes} {footerLen : Nat} :
    encodedLenFromHeader bytes = .ok footerLen ↔
      ∃ bodyLen, checkHeader bytes = .ok bodyLen ∧
        tocHeaderLen + bodyLen < 2 ^ 64 ∧ footerLen = tocHeaderLen + bodyLen := by
  unfold encodedLenFromHeader checkedAdd
  rw [Outcome.bind_eq_ok]
  constructor
  · rintro ⟨bodyLen, checked, added⟩
    split at added
    · next fits => exact ⟨bodyLen, checked, fits, by simpa using added.symm⟩
    · cases added
  · rintro ⟨bodyLen, checked, fits, rfl⟩
    exact ⟨bodyLen, checked, if_pos fits⟩

theorem checkHeader_ne_panic (bytes : Bytes) : checkHeader bytes ≠ .panic := by
  unfold checkHeader
  refine Outcome.bind_ne_panic Outcome.ensure_ne_panic fun _ => ?_
  refine Outcome.bind_ne_panic Outcome.ensure_ne_panic fun _ => ?_
  exact Outcome.bind_ne_panic Outcome.ensure_ne_panic fun _ => by simp

theorem checkedAdd_ne_panic (left right : Nat) (error : Error) :
    checkedAdd left right error ≠ .panic := by
  unfold checkedAdd
  split <;> simp

theorem encodedLenFromHeader_ne_panic (bytes : Bytes) : encodedLenFromHeader bytes ≠ .panic :=
  Outcome.bind_ne_panic (checkHeader_ne_panic bytes) fun _ => checkedAdd_ne_panic _ _ _

theorem decode_ne_panic (bytes : Bytes) : decode blake3 bytes ≠ .panic := by
  unfold decode
  refine Outcome.bind_ne_panic Outcome.ensure_ne_panic fun _ => ?_
  refine Outcome.bind_ne_panic (checkHeader_ne_panic bytes) fun bodyLen => ?_
  refine Outcome.bind_ne_panic (checkedAdd_ne_panic _ _ _) fun _ => ?_
  refine Outcome.bind_ne_panic Outcome.ensure_ne_panic fun _ => ?_
  refine Outcome.bind_ne_panic Outcome.ensure_ne_panic fun _ => ?_
  refine Outcome.bind_ne_panic Outcome.ensure_ne_panic fun _ => ?_
  split
  · simp
  · refine Outcome.bind_ne_panic Outcome.ensure_ne_panic fun _ => ?_
    exact Outcome.bind_ne_panic Outcome.ensure_ne_panic fun _ => by simp

/-! ### What an encoded footer looks like -/

/-- The bytes `encode` produces for a footer built by `encodeBody`. -/
def image (body : TocFooterBody) : Bytes :=
  let encoded := TocFooterBody.codec.encode body
  fields body.snapshotGeneration encoded.length (blake3 encoded) ++
    (footerChecksum blake3 body.snapshotGeneration encoded).1 ++ encoded

theorem encode_encodeBody (body : TocFooterBody) :
    encode blake3 (encodeBody blake3 body) = .ok (image blake3 body) := by
  simp [encode, encodeBody, image, Outcome.ensure]

@[simp] theorem fields_length (generation : UInt64) (bodyLen : Nat) (bodyChecksum : Checksum) :
    (fields generation bodyLen bodyChecksum).length = 56 := by
  simp [fields, tocMagic, bodyChecksum.2, blake3Len]

theorem image_length (body : TocFooterBody) :
    (image blake3 body).length = tocHeaderLen + (TocFooterBody.codec.encode body).length := by
  have digest := (footerChecksum blake3 body.snapshotGeneration
    (TocFooterBody.codec.encode body)).2
  simp only [image, List.length_append, fields_length, digest, blake3Len, tocHeaderLen]

theorem slice_fields (generation : UInt64) (bodyLen : Nat) (bodyChecksum : Checksum)
    (tail : Bytes) :
    slice (fields generation bodyLen bodyChecksum ++ tail) 0 4 = tocMagic ∧
      slice (fields generation bodyLen bodyChecksum ++ tail) 4 2 =
        putLittleEndian 2 tocVersion ∧
      slice (fields generation bodyLen bodyChecksum ++ tail) 6 2 =
        putLittleEndian 2 tocHeaderLen ∧
      slice (fields generation bodyLen bodyChecksum ++ tail) 8 8 =
        putLittleEndian 8 generation.toNat ∧
      slice (fields generation bodyLen bodyChecksum ++ tail) 16 8 =
        putLittleEndian 8 bodyLen ∧
      slice (fields generation bodyLen bodyChecksum ++ tail) 24 32 = bodyChecksum.1 := by
  have digest := bodyChecksum.2
  simp only [blake3Len] at digest
  simp [slice, fields, tocMagic, List.drop_append, List.take_append, digest, drop_putLittleEndian]

theorem checkHeader_fields (generation : UInt64) (bodyLen : Nat) (bodyChecksum : Checksum)
    (tail : Bytes) (fits : bodyLen < 2 ^ 64) :
    checkHeader (fields generation bodyLen bodyChecksum ++ tail) = .ok bodyLen := by
  obtain ⟨magic, version, headerLen, -, length, -⟩ :=
    slice_fields generation bodyLen bodyChecksum tail
  have readVersion : getU16 (fields generation bodyLen bodyChecksum ++ tail) 4 = tocVersion := by
    rw [getU16, version, getLittleEndian_put 2 tocVersion (by decide)]
  have readHeaderLen :
      getU16 (fields generation bodyLen bodyChecksum ++ tail) 6 = tocHeaderLen := by
    rw [getU16, headerLen, getLittleEndian_put 2 tocHeaderLen (by decide)]
  have readLength : getU64 (fields generation bodyLen bodyChecksum ++ tail) 16 = bodyLen := by
    rw [getU64, length, getLittleEndian_put 8 bodyLen (by simpa using fits)]
  simp [checkHeader, Outcome.ensure, magic, readVersion, readHeaderLen, readLength]

theorem slice_image_body (body : TocFooterBody) (tail : Bytes) :
    slice (image blake3 body ++ tail) tocHeaderLen (TocFooterBody.codec.encode body).length =
      TocFooterBody.codec.encode body := by
  have digest := (footerChecksum blake3 body.snapshotGeneration
    (TocFooterBody.codec.encode body)).2
  simp only [blake3Len] at digest
  have front : (fields body.snapshotGeneration (TocFooterBody.codec.encode body).length
      (blake3 (TocFooterBody.codec.encode body)) ++ (footerChecksum blake3 body.snapshotGeneration
        (TocFooterBody.codec.encode body)).1).length = tocHeaderLen := by
    simp [digest, tocHeaderLen]
  have whole := slice_append_right
    (fields body.snapshotGeneration (TocFooterBody.codec.encode body).length
      (blake3 (TocFooterBody.codec.encode body)) ++ (footerChecksum blake3 body.snapshotGeneration
        (TocFooterBody.codec.encode body)).1)
    (TocFooterBody.codec.encode body ++ tail) 0 (TocFooterBody.codec.encode body).length
  rw [front] at whole
  simpa [image, slice] using whole

theorem slice_image_checksum (body : TocFooterBody) (tail : Bytes) :
    slice (image blake3 body ++ tail) 56 32 =
      (footerChecksum blake3 body.snapshotGeneration (TocFooterBody.codec.encode body)).1 := by
  have digest := (footerChecksum blake3 body.snapshotGeneration
    (TocFooterBody.codec.encode body)).2
  simp only [blake3Len] at digest
  simp [slice, image, digest]

theorem decode_image (body : TocFooterBody) (tail : Bytes)
    (fits : tocHeaderLen + (TocFooterBody.codec.encode body).length < 2 ^ 64) :
    decode blake3 (image blake3 body ++ tail) =
      .ok (encodeBody blake3 body, (image blake3 body).length) := by
  have bodyFits : (TocFooterBody.codec.encode body).length < 2 ^ 64 := by omega
  have enough : tocHeaderLen + (TocFooterBody.codec.encode body).length ≤
      (image blake3 body ++ tail).length := by
    simp only [List.length_append, image_length]
    omega
  have header : checkHeader (image blake3 body ++ tail) =
      .ok (TocFooterBody.codec.encode body).length := by
    simp only [image, List.append_assoc]
    exact checkHeader_fields _ _ _ _ bodyFits
  have slices := slice_fields body.snapshotGeneration (TocFooterBody.codec.encode body).length
    (blake3 (TocFooterBody.codec.encode body))
    ((footerChecksum blake3 body.snapshotGeneration (TocFooterBody.codec.encode body)).1 ++
      (TocFooterBody.codec.encode body ++ tail))
  have generation : getU64 (image blake3 body ++ tail) 8 = body.snapshotGeneration.toNat := by
    simp only [image, List.append_assoc, getU64, slices.2.2.2.1]
    exact getLittleEndian_put 8 _ (by simpa using body.snapshotGeneration.toNat_lt)
  have bodyChecksum : slice (image blake3 body ++ tail) 24 32 =
      (blake3 (TocFooterBody.codec.encode body)).1 := by
    simp only [image, List.append_assoc]
    exact slices.2.2.2.2.2
  have decoded := TocFooterBody.codec.decode_encode body []
  rw [List.append_nil] at decoded
  have long : tocHeaderLen ≤ (image blake3 body ++ tail).length := by omega
  unfold decode
  rw [Outcome.ensure_true _ long, header]
  simp only [Outcome.ok_bind, generation, checkedAdd, if_pos fits, slice_image_body, slice_image_checksum, bodyChecksum,
    UInt64.ofNat_toNat, decoded, Outcome.pure_eq, image_length]
  rw [Outcome.ensure_true _ enough]
  simp [Outcome.ensure, encodeBody]

end TocFooterCodec

end Valise
