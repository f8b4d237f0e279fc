import Valise.TocIo

/-!
Footers read from any file at any offset: what comes back lies inside the file, unless the length
that an unverified header declares carries the end of the footer past the last offset.
-/

namespace Valise

open ByteLists Outcomes

namespace WholeFile

/-! ### Reading one footer -/

def readExact (file : Bytes) (offset len : Nat) : Result Bytes :=
  if offset + len ≤ file.length then .ok (slice file offset len) else .err .io

section Reading

variable (blake3 : Bytes → Checksum)

def readTocFooter (file : Bytes) (offset : Nat) : Result TocFooter := do
  Outcome.ensure (offset ≠ 0) (.format "header does not point to a TOC footer")
  Outcome.ensure (offset < file.length) (.format "TOC footer offset is past EOF")
  let header ← readExact file offset tocHeaderLen
  let footerLen ← TocFooterCodec.encodedLenFromHeader header
  let finish ← uncheckedAdd offset footerLen
  Outcome.ensure (finish ≤ file.length) (.format "TOC footer body is past EOF")
  let rest ← readExact file (offset + tocHeaderLen) (footerLen - tocHeaderLen)
  let (footer, _) ← TocFooterCodec.decode blake3 (header ++ rest)
  return footer

end Reading

/-- A header whose length carries the end of its footer past `2 ^ 64`. -/
def WrapsAt (file : Bytes) (offset : Nat) : Prop :=
  offset ≠ 0 ∧ ∃ header footerLen, readExact file offset tocHeaderLen = .ok header ∧
    TocFooterCodec.encodedLenFromHeader header = .ok footerLen ∧ 2 ^ 64 ≤ offset + footerLen

section Reading

variable {blake3 : Bytes → Checksum} {file : Bytes} {offset : Nat}

theorem readExact_ok {len : Nat} {bytes : Bytes} : readExact file offset len = .ok bytes ↔
    offset + len ≤ file.length ∧ bytes = slice file offset len := by
  unfold readExact
  split
  · next inside => simp [inside, eq_comm]
  · next outside => simp [outside]

theorem readExact_ne_panic {len : Nat} : readExact file offset len ≠ .panic := by
  unfold readExact
  split <;> simp

/-- What is decoded is the whole of what was read. -/
theorem decode_total {bytes : Bytes} {footer : TocFooter} {total bodyLen : Nat}
    (header : TocFooterCodec.checkHeader bytes = .ok bodyLen)
    (decoded : TocFooterCodec.decode blake3 bytes = .ok (footer, total)) :
    total = tocHeaderLen + bodyLen := by
  unfold TocFooterCodec.decode at decoded
  obtain ⟨_, _, decoded⟩ := Outcome.bind_eq_ok.mp decoded
  obtain ⟨length, same, decoded⟩ := Outcome.bind_eq_ok.mp decoded
  obtain rfl := Outcome.ok.inj (same.symm.trans header)
  obtain ⟨whole, added, decoded⟩ := Outcome.bind_eq_ok.mp decoded
  have sum : whole = tocHeaderLen + length := by
    unfold checkedAdd at added
    split at added
    · exact (Outcome.ok.inj added).symm
    · cases added
  obtain ⟨_, _, decoded⟩ := Outcome.bind_eq_ok.mp decoded
  obtain ⟨_, _, decoded⟩ := Outcome.bind_eq_ok.mp decoded
  obtain ⟨_, _, decoded⟩ := Outcome.bind_eq_ok.mp decoded
  split at decoded
  · cases decoded
  · obtain ⟨_, _, decoded⟩ := Outcome.bind_eq_ok.mp decoded
    obtain ⟨_, _, decoded⟩ := Outcome.bind_eq_ok.mp decoded
    obtain ⟨_, rfl⟩ := Prod.mk.inj (Outcome.ok.inj decoded)
    exact sum

theorem readTocFooter_wraps (wraps : WrapsAt file offset) :
    readTocFooter blake3 file offset = .panic := by
  obtain ⟨nonzero, header, footerLen, read, accepted, past⟩ := wraps
  have inside : offset < file.length := by
    have := (readExact_ok.mp read).1
    simp only [tocHeaderLen] at this
    omega
  rw [readTocFooter, Outcome.ensure_true _ nonzero, Outcome.ok_bind, Outcome.ensure_true _ inside,
    Outcome.ok_bind, read, Outcome.ok_bind, accepted, Outcome.ok_bind, uncheckedAdd,
    if_neg (Nat.not_lt.mpr past)]
  rfl

/-- A footer lies inside the file and is decoded from its own bytes. -/
def Inside (blake3 : Bytes → Checksum) (file : Bytes) (offset : Nat) (footer : TocFooter) : Prop :=
  ∃ total, tocHeaderLen ≤ total ∧ offset + total ≤ file.length ∧
    TocFooterCodec.decode blake3 (slice file offset total) = .ok (footer, total)

theorem slice_split (start first second : Nat) :
    slice file start first ++ slice file (start + first) second =
      slice file start (first + second) := by
  rw [slice, slice, slice, ← List.drop_drop, List.take_add]

theorem readTocFooter_inside {footer : TocFooter}
    (found : readTocFooter blake3 file offset = .ok footer) : Inside blake3 file offset footer := by
  unfold readTocFooter at found
  obtain ⟨_, _, found⟩ := Outcome.bind_eq_ok.mp found
  obtain ⟨_, _, found⟩ := Outcome.bind_eq_ok.mp found
  obtain ⟨header, read, found⟩ := Outcome.bind_eq_ok.mp found
  obtain ⟨footerLen, accepted, found⟩ := Outcome.bind_eq_ok.mp found
  obtain ⟨finish, added, found⟩ := Outcome.bind_eq_ok.mp found
  obtain ⟨_, bounded, found⟩ := Outcome.bind_eq_ok.mp found
  obtain ⟨rest, readRest, found⟩ := Outcome.bind_eq_ok.mp found
  obtain ⟨⟨decoded, total⟩, decodes, same⟩ := Outcome.bind_eq_ok.mp found
  obtain rfl := Outcome.ok.inj same
  obtain ⟨_, rfl⟩ := uncheckedAdd_ok.mp added
  have bound := Outcome.ensure_eq_ok.mp bounded
  obtain ⟨bodyLen, checked, _, rfl⟩ := TocFooterCodec.encodedLenFromHeader_ok.mp accepted
  obtain ⟨_, rfl⟩ := readExact_ok.mp read
  obtain ⟨_, rfl⟩ := readExact_ok.mp readRest
  rw [Nat.add_sub_cancel_left, slice_split] at decodes
  have front : TocFooterCodec.checkHeader (slice file offset (tocHeaderLen + bodyLen)) =
      .ok bodyLen := by
    have pieces (start len : Nat) (within : start + len ≤ tocHeaderLen) :
        slice (slice file offset (tocHeaderLen + bodyLen)) start len =
          slice (slice file offset tocHeaderLen) start len := by
      rw [slice_slice _ _ _ _ _ (by omega), slice_slice _ _ _ _ _ within]
    rw [TocFooterCodec.checkHeader_ok, getU16, getU16, getU64] at checked ⊢
    rwa [pieces 0 4 (by decide), pieces 4 2 (by decide), pieces 6 2 (by decide),
      pieces 16 8 (by decide)]
  have whole := decode_total front decodes
  subst whole
  exact ⟨_, Nat.le_add_right _ _, bound, decodes⟩

/-- Only an addition that wraps keeps a read from its footer or its error. -/
theorem readTocFooter_bounded (noWrap : ¬WrapsAt file offset) :
    (∃ error, readTocFooter blake3 file offset = .err error) ∨
      ∃ footer, readTocFooter blake3 file offset = .ok footer ∧
        Inside blake3 file offset footer := by
  cases ran : readTocFooter blake3 file offset with
  | ok footer => exact .inr ⟨footer, rfl, readTocFooter_inside ran⟩
  | err error => exact .inl ⟨error, rfl⟩
  | panic =>
      refine absurd ran ?_
      unfold readTocFooter
      by_cases nonzero : offset ≠ 0
      · rw [Outcome.ensure_true _ nonzero, Outcome.ok_bind]
        refine Outcome.bind_ne_panic Outcome.ensure_ne_panic fun _ => ?_
        cases read : readExact file offset tocHeaderLen with
        | ok header =>
            rw [Outcome.ok_bind]
            cases accepted : TocFooterCodec.encodedLenFromHeader header with
            | ok footerLen =>
                have fits : offset + footerLen < 2 ^ 64 := by
                  by_contra wraps
                  exact noWrap ⟨nonzero, header, footerLen, read, accepted, by omega⟩
                rw [Outcome.ok_bind, uncheckedAdd, if_pos fits, Outcome.ok_bind]
                refine Outcome.bind_ne_panic Outcome.ensure_ne_panic fun _ => ?_
                refine Outcome.bind_ne_panic readExact_ne_panic fun _ => ?_
                exact Outcome.bind_ne_panic (TocFooterCodec.decode_ne_panic blake3 _) fun _ => by simp
            | err error => simp
            | panic => exact absurd accepted (TocFooterCodec.encodedLenFromHeader_ne_panic header)
        | err error => simp
        | panic => exact absurd read readExact_ne_panic
      · rw [Outcome.ensure_false _ nonzero]
        simp

end Reading

end WholeFile

/-! ### A changed byte -/

theorem slice_congr {first second : Bytes} {offset width : Nat}
    (same : ∀ place, offset ≤ place → place < offset + width → first[place]? = second[place]?) :
    slice first offset width = slice second offset width := by
  refine List.ext_getElem? fun place => ?_
  rw [slice, slice, List.getElem?_take, List.getElem?_take]
  split
  · rw [List.getElem?_drop, List.getElem?_drop]
    exact same _ (by omega) (by omega)
  · rfl

namespace TocFooterCodec

variable {blake3 : Bytes → Checksum}

/-- What the footer checksum of a byte string stands for. -/
def covered (blake3 : Bytes → Checksum) (bytes : Bytes) : Bytes :=
  let body := slice bytes tocHeaderLen (getU64 bytes 16)
  fields (UInt64.ofNat (getU64 bytes 8)) body.length (blake3 body) ++ body

/-- What a decoded byte string consists of. -/
structure Whole (blake3 : Bytes → Checksum) (bytes : Bytes) : Prop where
  front : bytes.take 56 = fields (UInt64.ofNat (getU64 bytes 8)) (getU64 bytes 16)
    (blake3 (slice bytes tocHeaderLen (getU64 bytes 16)))
  checksum : slice bytes 56 32 = (blake3 (covered blake3 bytes)).1
  room : tocHeaderLen + getU64 bytes 16 ≤ bytes.length

theorem put_get {bytes : Bytes} {offset width : Nat} (inside : offset + width ≤ bytes.length) :
    putLittleEndian width (getLittleEndian (slice bytes offset width)) =
      slice bytes offset width := by
  have back := putLittleEndian_get (slice bytes offset width)
  rwa [slice_length inside] at back

theorem getU64_lt (bytes : Bytes) (offset : Nat) : getU64 bytes offset < 2 ^ 64 := by
  have bound := getLittleEndian_lt (slice bytes offset 8)
  have short : (slice bytes offset 8).length ≤ 8 := by
    rw [slice, List.length_take]
    exact Nat.min_le_left _ _
  exact Nat.lt_of_lt_of_le bound (Nat.pow_le_pow_right (by decide) short)

theorem whole_of_decode {bytes : Bytes} {footer : TocFooter} {total : Nat}
    (decoded : decode blake3 bytes = .ok (footer, total)) : Whole blake3 bytes := by
  unfold decode at decoded
  obtain ⟨_, _, decoded⟩ := Outcome.bind_eq_ok.mp decoded
  obtain ⟨bodyLen, header, decoded⟩ := Outcome.bind_eq_ok.mp decoded
  obtain ⟨magic, version, headerLen, rfl⟩ := checkHeader_ok.mp header
  obtain ⟨whole, added, decoded⟩ := Outcome.bind_eq_ok.mp decoded
  obtain ⟨_, bounded, decoded⟩ := Outcome.bind_eq_ok.mp decoded
  obtain ⟨_, bodyChecked, decoded⟩ := Outcome.bind_eq_ok.mp decoded
  obtain ⟨_, footerChecked, _⟩ := Outcome.bind_eq_ok.mp decoded
  have sum : whole = tocHeaderLen + getU64 bytes 16 := by
    unfold checkedAdd at added
    split at added
    · exact (Outcome.ok.inj added).symm
    · cases added
  subst sum
  have room := Outcome.ensure_eq_ok.mp bounded
  have long : 88 ≤ bytes.length := Nat.le_trans (Nat.le_add_right _ _) room
  have bodyLength : (slice bytes tocHeaderLen (getU64 bytes 16)).length = getU64 bytes 16 :=
    slice_length room
  refine ⟨?_, ?_, room⟩
  · have parts : bytes.take 56 = slice bytes 0 4 ++ slice bytes 4 2 ++ slice bytes 6 2 ++
        slice bytes 8 8 ++ slice bytes 16 8 ++ slice bytes 24 32 := by
      rw [WholeFile.slice_split 0 4 2, WholeFile.slice_split 0 6 2, WholeFile.slice_split 0 8 8,
        WholeFile.slice_split 0 16 8, WholeFile.slice_split 0 24 32]
      rfl
    have generation : (UInt64.ofNat (getU64 bytes 8)).toNat = getU64 bytes 8 :=
      UInt64.toNat_ofNat_of_lt' (getU64_lt bytes 8)
    have versionBytes : putLittleEndian 2 tocVersion = slice bytes 4 2 := by
      rw [← version]
      exact put_get (by omega)
    have headerLenBytes : putLittleEndian 2 tocHeaderLen = slice bytes 6 2 := by
      rw [← headerLen]
      exact put_get (by omega)
    have generationBytes : putLittleEndian 8 (getU64 bytes 8) = slice bytes 8 8 := put_get (by omega)
    have lengthBytes : putLittleEndian 8 (getU64 bytes 16) = slice bytes 16 8 := put_get (by omega)
    rw [parts, fields, generation, versionBytes, headerLenBytes, generationBytes, lengthBytes, magic,
      Outcome.ensure_eq_ok.mp bodyChecked]
  · rw [Outcome.ensure_eq_ok.mp footerChecked]
    rfl

/-- Where the checksums of two decoded strings stand for the same, the strings are the same but for
the checksums themselves. -/
theorem whole_unique {first second : Bytes} (one : Whole blake3 first) (other : Whole blake3 second)
    (exact : first.length = tocHeaderLen + getU64 first 16) (length : second.length = first.length)
    (same : covered blake3 first = covered blake3 second)
    (checksums : slice first 56 32 = slice second 56 32) : first = second := by
  have bodies (bytes : Bytes) (whole : Whole blake3 bytes) :
      (slice bytes tocHeaderLen (getU64 bytes 16)).length = getU64 bytes 16 :=
    slice_length whole.room
  unfold covered at same
  simp only [bodies first one, bodies second other, ← one.front, ← other.front] at same
  have long := one.room
  have longer := other.room
  simp only [tocHeaderLen] at long longer exact
  have fronts : (first.take 56).length = (second.take 56).length := by
    rw [List.length_take, List.length_take]
    omega
  obtain ⟨fields, body⟩ := List.append_inj same fronts
  have lengths := congrArg List.length body
  rw [bodies first one, bodies second other] at lengths
  have split (bytes : Bytes) (whole : bytes.length = 88 + getU64 bytes 16) :
      bytes = bytes.take 56 ++ (slice bytes 56 32 ++
        slice bytes tocHeaderLen (getU64 bytes 16)) := by
    have rest : slice bytes 56 32 ++ slice bytes (56 + 32) (getU64 bytes 16) = bytes.drop 56 := by
      rw [WholeFile.slice_split, slice, List.take_of_length_le]
      rw [List.length_drop]
      omega
    have joined : slice bytes 56 32 ++ slice bytes tocHeaderLen (getU64 bytes 16) =
        bytes.drop 56 := rest
    rw [joined, List.take_append_drop]
  rw [split first exact, split second (by omega), fields, checksums, body]

/-- No single byte of an encoded footer can be changed without the decoder noticing. -/
theorem decode_changed {bytes : Bytes} {footer : TocFooter} {total position : Nat} {value : UInt8}
    (decoded : decode blake3 bytes = .ok (footer, total))
    (exact : bytes.length = tocHeaderLen + getU64 bytes 16)
    (changes : bytes.set position value ≠ bytes)
    (noCollision : blake3 (covered blake3 bytes) = blake3 (covered blake3 (bytes.set position value))
      → covered blake3 bytes = covered blake3 (bytes.set position value))
    (result : TocFooter × Nat) : decode blake3 (bytes.set position value) ≠ .ok result := by
  obtain ⟨other, length⟩ := result
  intro accepted
  have one := whole_of_decode decoded
  have another := whole_of_decode accepted
  have elsewhere : ∀ place, place ≠ position →
      bytes[place]? = (bytes.set position value)[place]? := by
    intro place apart
    rw [List.getElem?_set_ne apart.symm]
  by_cases within : 56 ≤ position ∧ position < 88
  · -- Only a checksum byte changed, so the checksum stands for what it stood for.
    have generations : getU64 bytes 8 = getU64 (bytes.set position value) 8 :=
      congrArg getLittleEndian (slice_congr fun place _ _ => elsewhere place (by omega))
    have lengths : getU64 bytes 16 = getU64 (bytes.set position value) 16 :=
      congrArg getLittleEndian (slice_congr fun place _ _ => elsewhere place (by omega))
    have bodies : slice bytes tocHeaderLen (getU64 bytes 16) =
        slice (bytes.set position value) tocHeaderLen (getU64 (bytes.set position value) 16) := by
      rw [← lengths]
      refine slice_congr fun place low _ => elsewhere place ?_
      simp only [tocHeaderLen] at low
      omega
    have same : covered blake3 bytes = covered blake3 (bytes.set position value) := by
      unfold covered
      rw [generations, bodies]
    have checksums : slice bytes 56 32 = slice (bytes.set position value) 56 32 := by
      rw [one.checksum, another.checksum, same]
    exact changes (whole_unique one another exact List.length_set same checksums).symm
  · have checksums : slice bytes 56 32 = slice (bytes.set position value) 56 32 :=
      slice_congr fun place _ _ => elsewhere place (by omega)
    have digests := Subtype.ext (one.checksum.symm.trans (checksums.trans another.checksum))
    exact changes (whole_unique one another exact List.length_set (noCollision digests)
      checksums).symm

theorem encode_ok {footer : TocFooter} {bytes : Bytes} (encoded : encode blake3 footer = .ok bytes) :
    footer = encodeBody blake3 footer.body ∧ bytes = image blake3 footer.body := by
  unfold encode at encoded
  obtain ⟨_, held, same⟩ := Outcome.bind_eq_ok.mp encoded
  have fresh := Outcome.ensure_eq_ok.mp held
  obtain rfl := Outcome.ok.inj same
  refine ⟨?_, rfl⟩
  obtain ⟨body, checksum⟩ := footer
  exact congrArg (TocFooter.mk body) fresh.symm

theorem getU64_image (body : TocFooterBody)
    (fits : tocHeaderLen + (TocFooterBody.codec.encode body).length < 2 ^ 64) :
    getU64 (image blake3 body) 16 = (TocFooterBody.codec.encode body).length := by
  have header := checkHeader_fields body.snapshotGeneration (TocFooterBody.codec.encode body).length
    (blake3 (TocFooterBody.codec.encode body)) ((footerChecksum blake3 body.snapshotGeneration
      (TocFooterBody.codec.encode body)).1 ++ TocFooterBody.codec.encode body) (by omega)
  rw [← List.append_assoc] at header
  exact (checkHeader_ok.mp header).2.2.2

end TocFooterCodec

namespace WholeFile

variable {blake3 : Bytes → Checksum}

/-- What comes back from a read is an error, or a footer inside the file. -/
def Bounded (blake3 : Bytes → Checksum) (file : Bytes) (offset : Nat) : Prop :=
  (∃ error, readTocFooter blake3 file offset = .err error) ∨
    ∃ footer, readTocFooter blake3 file offset = .ok footer ∧ Inside blake3 file offset footer

theorem bounded_iff {file : Bytes} {offset : Nat} :
    Bounded blake3 file offset ↔ ¬WrapsAt file offset := by
  constructor
  · intro bounded wraps
    have aborts := @readTocFooter_wraps blake3 file offset wraps
    rcases bounded with ⟨error, failed⟩ | ⟨footer, found, _⟩
    · rw [aborts] at failed
      cases failed
    · rw [aborts] at found
      cases found
  · exact readTocFooter_bounded

/-- Encoded footers are read back, and noticed when a byte of them changes. Reading one from a file
is bounded unless a declared length wraps. -/
theorem footerParsing_iff (blake3 : Bytes → Checksum) (file : Bytes) (offset : Nat) :
    ((∀ footer bytes, TocFooterCodec.encode blake3 footer = .ok bytes → bytes.length < 2 ^ 64 →
        TocFooterCodec.decode blake3 bytes = .ok (footer, bytes.length) ∧
        TocFooterCodec.encodedLenFromHeader (bytes.take tocHeaderLen) = .ok bytes.length ∧
        ∀ position value, bytes.set position value ≠ bytes →
          (blake3 (TocFooterCodec.covered blake3 bytes) =
              blake3 (TocFooterCodec.covered blake3 (bytes.set position value)) →
            TocFooterCodec.covered blake3 bytes =
              TocFooterCodec.covered blake3 (bytes.set position value)) →
          ∀ result, TocFooterCodec.decode blake3 (bytes.set position value) ≠ .ok result) ∧
      Bounded blake3 file offset) ↔ ¬WrapsAt file offset := by
  refine ⟨fun both => bounded_iff.mp both.2, fun noWrap => ⟨?_, bounded_iff.mpr noWrap⟩⟩
  intro footer bytes encoded fits
  obtain ⟨fresh, rfl⟩ := TocFooterCodec.encode_ok encoded
  rw [TocFooterCodec.image_length] at fits
  have decoded := TocFooterCodec.decode_image blake3 footer.body [] fits
  rw [List.append_nil, ← fresh] at decoded
  refine ⟨decoded, encodedLen_image blake3 footer.body fits, fun position value changes free => ?_⟩
  have exact : (TocFooterCodec.image blake3 footer.body).length =
      tocHeaderLen + getU64 (TocFooterCodec.image blake3 footer.body) 16 := by
    rw [TocFooterCodec.getU64_image footer.body fits, TocFooterCodec.image_length]
  exact TocFooterCodec.decode_changed decoded exact changes free

/-- A header that declares the longest footer that has a length. -/
def hostileHeader : Bytes :=
  tocMagic ++ putLittleEndian 2 tocVersion ++ putLittleEndian 2 tocHeaderLen ++
    putLittleEndian 8 0 ++ putLittleEndian 8 (2 ^ 64 - 89) ++ List.replicate 64 0

def hostileFile : Bytes := List.replicate headerSize 0 ++ hostileHeader

theorem hostileFile_wraps : WrapsAt hostileFile headerSize := by
  refine ⟨by decide, hostileHeader, 2 ^ 64 - 1, ?_, ?_, by decide⟩
  · refine readExact_ok.mpr ⟨?_, ?_⟩
    · rw [hostileFile, List.length_append, List.length_replicate]
      decide
    · have front : (List.replicate headerSize (0 : UInt8)).length = headerSize :=
        List.length_replicate
      have shifted := slice_append_right (List.replicate headerSize 0) hostileHeader 0 tocHeaderLen
      rw [front, Nat.add_zero] at shifted
      rw [hostileFile, shifted]
      rfl
  · rfl

theorem footerParsing_fails :
    ¬Bounded (fun _ => ⟨List.replicate 32 0, rfl⟩) hostileFile headerSize :=
  fun bounded => bounded_iff.mp bounded hostileFile_wraps

/-! ### The scan -/

/-- Nothing is looked for in the header region. -/
def scanForFooterCandidates (blake3 : Bytes → Checksum) (chunk : Nat) (file : Bytes) :
    Result (List FooterCandidate) :=
  if file.length ≤ headerSize then return []
  else scanChunks blake3 chunk (file.drop headerSize) (file.length - headerSize) [] 0

/-- The scan found every readable footer of the data region, once and in order. -/
def Complete (blake3 : Bytes → Checksum) (chunk : Nat) (file : Bytes) : Prop :=
  ∃ candidates, scanForFooterCandidates blake3 chunk file = .ok candidates ∧
    (∀ candidate, candidate ∈ candidates ↔ headerSize ≤ candidate.offset ∧
      readTocFooter blake3 file candidate.offset = .ok candidate.footer) ∧
    candidates.Pairwise fun earlier later => earlier.offset < later.offset

theorem WrapsAt.inside {file : Bytes} {offset : Nat} (wraps : WrapsAt file offset) :
    offset < file.length := by
  obtain ⟨_, _, _, read, _, _⟩ := wraps
  have := (readExact_ok.mp read).1
  simp only [tocHeaderLen] at this
  omega

/-- Past the header region the chunks make up one buffer. -/
theorem scan_eq (blake3 : Bytes → Checksum) {chunk : Nat} (some : 0 < chunk) {file : Bytes}
    (long : headerSize < file.length) : scanForFooterCandidates blake3 chunk file =
      scanBuffer blake3 (file.drop headerSize) headerSize (file.drop headerSize) := by
  have length : (file.drop headerSize).length = file.length - headerSize := List.length_drop
  have whole := scanChunks_eq blake3 chunk (file.drop headerSize) (file.length - headerSize) [] 0
    some (by omega) (by decide) (Nat.zero_le _)
  rw [scanForFooterCandidates, if_neg (Nat.not_le.mpr long), whole]
  rfl

end WholeFile

end Valise
