import Valise.CrashAtomicity

/-!
Which footer a scan selects when stored bytes may themselves read as footers.
-/

namespace Valise

open ByteLists Outcomes Ranking

section Selection

variable (blake3 : Bytes → Checksum) {σ : Type} (load : Bytes → TocFooter → Except Error σ)

/-- A file of this lineage: what the commits left, any bytes after it, any offset and generation in
the header. The digest region is never rewritten. -/
structure Descends (image : FileImage) (last : FooterCandidate)
    (older : List FooterCandidate) : Prop where
  committed : ∃ base tail, History blake3 base last older ∧ image.data = base.data ++ tail ∧
    image.header.createContractDigest = base.header.createContractDigest

/-- Whatever a scan recovers is a footer that a commit wrote. -/
def SelectsCommitted (image : FileImage) (footers : List FooterCandidate) : Prop :=
  ∀ cause offset footer state,
    recoverViaScan blake3 load image cause = .ok (offset, footer, state) →
      (⟨offset, footer⟩ : FooterCandidate) ∈ footers

/-- Every readable footer with this file's contract whose roots load, but that no commit wrote, is
outranked by a committed footer whose roots load. A header whose length wraps stops any scan. -/
def DecoysOutranked (image : FileImage) (footers : List FooterCandidate) : Prop :=
  (∃ position, WrapsAt image.data position) ∨
    ∀ decoy, Anchors blake3 image decoy → Loads load image decoy.footer → decoy ∉ footers →
      ∃ genuine ∈ footers, Loads load image genuine.footer ∧ ¬decoy.before genuine

variable {image : FileImage} {last : FooterCandidate} {older : List FooterCandidate}

theorem Descends.anchors (descends : Descends blake3 image last older)
    {candidate : FooterCandidate} (member : candidate ∈ last :: older) :
    Anchors blake3 image candidate := by
  obtain ⟨base, tail, history, data, digest⟩ := descends.committed
  have consistent := history.consistent blake3
  refine ⟨?_, by rw [digest, consistent.contract candidate member]⟩
  rw [data]
  exact readTocFooter_append blake3 tail (consistent.readable candidate member)

theorem Descends.lineage (descends : Descends blake3 image last older) :
    ∃ candidate, Anchors blake3 image candidate :=
  ⟨last, descends.anchors blake3 List.mem_cons_self⟩

theorem Descends.outranked_of_selects (descends : Descends blake3 image last older)
    (selects : SelectsCommitted blake3 load image (last :: older)) :
    DecoysOutranked blake3 load image (last :: older) := by
  by_cases wraps : ∃ position, WrapsAt image.data position
  · exact Or.inl wraps
  right
  intro decoy anchored loads foreign
  obtain ⟨offset, footer, state, recovered⟩ := recoverViaScan_exists blake3 load ""
    (fun position wrapsAt => wraps ⟨position, wrapsAt⟩) anchored loads
  have genuine := selects _ _ _ _ recovered
  obtain ⟨-, winnerAnchors, loaded, wins⟩ :=
    (recoverViaScan_ok blake3 load (descends.lineage blake3)).mp recovered
  refine ⟨⟨offset, footer⟩, genuine, ⟨state, loaded⟩, fun ahead => foreign ?_⟩
  have tied := FooterCandidate.before_antisymm _ _ ahead (wins decoy anchored loads)
  rwa [anchors_unique blake3 anchored winnerAnchors tied]

theorem Descends.selects_of_outranked (descends : Descends blake3 image last older)
    (outranked : DecoysOutranked blake3 load image (last :: older)) :
    SelectsCommitted blake3 load image (last :: older) := by
  intro cause offset footer state recovered
  obtain ⟨noWrap, anchored, loaded, wins⟩ :=
    (recoverViaScan_ok blake3 load (descends.lineage blake3)).mp recovered
  rcases outranked with ⟨position, wraps⟩ | outranked
  · exact absurd wraps (noWrap position)
  · by_contra foreign
    obtain ⟨genuine, member, loads, ahead⟩ :=
      outranked ⟨offset, footer⟩ anchored ⟨state, loaded⟩ foreign
    exact ahead (wins genuine (descends.anchors blake3 member) loads)

/-- A scan keeps to committed footers exactly when no stored footer outranks them. -/
theorem selectsCommitted_iff (descends : Descends blake3 image last older) :
    SelectsCommitted blake3 load image (last :: older) ↔
      DecoysOutranked blake3 load image (last :: older) :=
  ⟨descends.outranked_of_selects blake3 load, descends.selects_of_outranked blake3 load⟩

end Selection

/-! ### A stored footer with the highest generation -/

theorem sampleTorn_descends {uri : Bytes} (fits : Fits (sampleAfter uri).data) :
    Descends rollingHash (sampleTorn uri) (sampleNext uri) [sampleLast] := by
  have counts : (sampleBody 2).snapshotGeneration =
      sampleBefore.header.snapshotGeneration + 1 := rfl
  have keeps : (sampleBody 2).createContract = sampleLast.footer.body.createContract := rfl
  exact ⟨sampleAfter uri, [], History.commit sample_history counts keeps
    (commitPhaseWrites_ok _ _ (uriSegment uri) _) fits, (List.append_nil _).symm, rfl⟩

theorem plainKey_selectsCommitted :
    SelectsCommitted rollingHash loadAll (sampleTorn plainKey)
      [sampleNext plainKey, sampleLast] :=
  (selectsCommitted_iff rollingHash loadAll (sampleTorn_descends plainKey_fits)).mpr
    (Or.inr fun decoy anchored _ foreign =>
      absurd (plainKey_noDecoy decoy anchored.1) foreign)

/-- A complete footer of generation `2 ^ 64 - 1` with the file's own contract and no roots. -/
def forgedBody : TocFooterBody := sampleBody (UInt64.ofNat (2 ^ 64 - 1))

def forgedFooter : Bytes := TocFooterCodec.image rollingHash forgedBody

def forgedCandidate : FooterCandidate where
  offset := headerSize + 222
  footer := TocFooterCodec.encodeBody rollingHash forgedBody

theorem forged_readable :
    readTocFooter rollingHash (sampleTorn forgedFooter).data (headerSize + 222) =
      .ok (TocFooterCodec.encodeBody rollingHash forgedBody) := by
  have place : (sampleBefore.data ++ (SegmentHeader.new rollingHash .metadata 1 1 .none
      (UInt64.ofNat forgedFooter.length) forgedFooter).encode).length = 222 := by
    decide +kernel
  have read := readTocFooter_image rollingHash
    (sampleBefore.data ++ (SegmentHeader.new rollingHash .metadata 1 1 .none
      (UInt64.ofNat forgedFooter.length) forgedFooter).encode)
    (TocFooterCodec.image rollingHash (sampleBody 2)) forgedBody (by decide +kernel)
  rw [place] at read
  rw [← read]
  simp only [sampleTorn, sampleAfter, uriSegment, segmentBytes, forgedFooter, List.append_assoc]

/-- A key that spells such a footer is what the scan of a torn file selects. -/
theorem selectsCommitted_fails_on_forgedFooter :
    Descends rollingHash (sampleTorn forgedFooter) (sampleNext forgedFooter) [sampleLast] ∧
      ¬SelectsCommitted rollingHash loadAll (sampleTorn forgedFooter)
        [sampleNext forgedFooter, sampleLast] := by
  have fits : Fits (sampleAfter forgedFooter).data := by
    unfold Fits
    decide +kernel
  have descends := sampleTorn_descends fits
  refine ⟨descends, fun selects => ?_⟩
  rcases descends.outranked_of_selects rollingHash loadAll selects with ⟨offset, wraps⟩ | outranked
  · have positions : ∀ offset ∈ magicPositions headerSize (sampleTorn forgedFooter).data,
        offset = sampleLast.offset ∨ offset = (sampleNext forgedFooter).offset ∨
          offset = headerSize + 222 := by
      decide +kernel
    refine noWrap_of_readable (fun offset member => ?_) offset wraps
    rcases positions offset member with atLast | atNext | atUri
    · rw [atLast]
      exact ⟨_, (sample_consistent fits).readable sampleLast (by simp)⟩
    · rw [atNext]
      exact ⟨_, (sample_consistent fits).readable (sampleNext forgedFooter) (by simp)⟩
    · rw [atUri]
      exact ⟨_, forged_readable⟩
  · have foreign : forgedCandidate ∉ [sampleNext forgedFooter, sampleLast] := by
      decide +kernel
    obtain ⟨genuine, member, -, ahead⟩ :=
      outranked forgedCandidate ⟨forged_readable, rfl⟩ ⟨(), rfl⟩ foreign
    refine ahead (FooterCandidate.before_of_lt ?_)
    simp only [List.mem_cons, List.not_mem_nil, or_false] at member
    rcases member with rfl | rfl
    · decide
    · decide

end Valise
