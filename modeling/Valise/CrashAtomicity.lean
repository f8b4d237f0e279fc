import Valise.CommitBytes
import Valise.Segment

/-!
One interrupted commit after a history of successful ones, and what an open then resolves to.
-/

namespace Valise

open ByteLists Numerals Outcomes Ranking

section Crashes

variable (blake3 : Bytes → Checksum) {σ : Type} (load : Bytes → TocFooter → Except Error σ)

/-- The file after a crash: any part of the appended bytes, and two independently torn fields. -/
structure Torn (before after crashed : FileImage) : Prop where
  appended : ∃ cut, before.data.length ≤ cut ∧ crashed.data = after.data.take cut
  footerOffset : crashed.header.footerOffset = before.header.footerOffset ∨
    crashed.header.footerOffset = after.header.footerOffset
  generation : crashed.header.snapshotGeneration = before.header.snapshotGeneration ∨
    crashed.header.snapshotGeneration = after.header.snapshotGeneration
  contract : crashed.header.createContractDigest = before.header.createContractDigest

theorem Torn.fits {before after crashed : FileImage} (torn : Torn before after crashed)
    (fits : Fits after.data) : Fits crashed.data := by
  obtain ⟨cut, -, data⟩ := torn.appended
  unfold Fits fileLen at *
  rw [data, List.length_take]
  omega

/-- No bytes but those of the commits' own footers read as a footer. -/
def NoDecoy (image : FileImage) (footers : List FooterCandidate) : Prop :=
  ∀ candidate : FooterCandidate,
    readTocFooter blake3 image.data candidate.offset = .ok candidate.footer → candidate ∈ footers

/-- An interrupted commit: a history ending at `last`, one more commit writing `next`, a crash. -/
structure Interrupted (crashed : FileImage) (last : FooterCandidate)
    (older : List FooterCandidate) (next : FooterCandidate) : Prop where
  interrupted : ∃ before after segments body,
    History blake3 before last older ∧
      body.snapshotGeneration = before.header.snapshotGeneration + 1 ∧
      body.createContract = last.footer.body.createContract ∧
      commitPhaseWrites blake3 before segments body = .ok after ∧ Fits after.data ∧
      next = committedFooter blake3 before segments body ∧ Torn before after crashed ∧
      NoDecoy blake3 after (next :: last :: older)

def Complete (crashed : FileImage) (next : FooterCandidate) : Prop :=
  readTocFooter blake3 crashed.data next.offset = .ok next.footer

def ResolvesTo (crashed : FileImage) (candidate : FooterCandidate) : Prop :=
  ∃ state, load crashed.data candidate.footer = .ok state ∧
    resolveFooterState blake3 load crashed = .ok (candidate.offset, candidate.footer, state)

/-- The open lands on the last snapshot or on the complete next one, and on the next one whenever
the header names it and its roots load. -/
def CrashAtomic (crashed : FileImage) (last next : FooterCandidate) : Prop :=
  (ResolvesTo blake3 load crashed last ∨
      Complete blake3 crashed next ∧ ResolvesTo blake3 load crashed next) ∧
    (crashed.header.footerOffset.toNat = next.offset → Complete blake3 crashed next →
      Loads load crashed next.footer → ResolvesTo blake3 load crashed next)

/-- Either the header agrees with a complete footer whose roots load, or no header in the file
carries a length that wraps and the roots of one of the two snapshots load. -/
def Recoverable (crashed : FileImage) (last next : FooterCandidate) : Prop :=
  HeaderHits blake3 load crashed last ∨ HeaderHits blake3 load crashed next ∨
    (∀ position, ¬WrapsAt crashed.data position) ∧
      (Loads load crashed last.footer ∨
        Complete blake3 crashed next ∧ Loads load crashed next.footer)

/-- What a crash leaves readable. -/
structure Remains (crashed : FileImage) (last : FooterCandidate) (older : List FooterCandidate)
    (next : FooterCandidate) : Prop where
  lastAnchors : Anchors blake3 crashed last
  nextAnchors : Complete blake3 crashed next → Anchors blake3 crashed next
  anchors : ∀ candidate, Anchors blake3 crashed candidate → candidate ∈ next :: last :: older
  bounded : ¬WrapsAt crashed.data crashed.header.footerOffset.toNat
  named : crashed.header.footerOffset.toNat = last.offset ∨
    crashed.header.footerOffset.toNat = next.offset
  distinct : ∀ candidate ∈ last :: older, candidate.offset ≠ next.offset
  lastBehind : last.footer.body.snapshotGeneration.toNat <
    next.footer.body.snapshotGeneration.toNat
  olderBehind : ∀ candidate ∈ older, candidate.footer.body.snapshotGeneration.toNat <
    last.footer.body.snapshotGeneration.toNat

variable {crashed : FileImage} {last : FooterCandidate} {older : List FooterCandidate}
  {next : FooterCandidate}

theorem wrapsAt_not_readable {data : Bytes} {offset : Nat} {footer : TocFooter}
    (read : readTocFooter blake3 data offset = .ok footer) : ¬WrapsAt data offset := by
  intro wraps
  rw [(readTocFooter_panic blake3).mpr wraps] at read
  cases read

theorem Interrupted.remains (interrupted : Interrupted blake3 crashed last older next) :
    Remains blake3 crashed last older next := by
  obtain ⟨before, after, segments, body, history, counts, keeps, written, fits, rfl, torn,
    noDecoy⟩ := interrupted
  have base := history.consistent blake3
  have full := base.commit blake3 counts keeps written fits
  obtain ⟨cut, kept, data⟩ := torn.appended
  have extends_before : ∃ tail, crashed.data = before.data ++ tail := by
    rw [commitPhaseWrites_ok, Outcome.ok.injEq] at written
    refine ⟨(segments ++ TocFooterCodec.image blake3 body).take (cut - before.data.length), ?_⟩
    rw [data, ← written, List.append_assoc, List.take_append, List.take_of_length_le kept]
  have extended_by : after.data = crashed.data ++ after.data.drop cut := by
    rw [data, List.take_append_drop]
  obtain ⟨tail, grown⟩ := extends_before
  have lastRead : readTocFooter blake3 crashed.data last.offset = .ok last.footer := by
    rw [grown]
    exact readTocFooter_append blake3 _ (base.readable last List.mem_cons_self)
  have digest (candidate : FooterCandidate)
      (member : candidate ∈ committedFooter blake3 before segments body :: last :: older) :
      candidate.footer.body.createContract.digest blake3 =
        crashed.header.createContractDigest := by
    rw [full.contract candidate member, torn.contract]
    rw [commitPhaseWrites_ok, Outcome.ok.injEq] at written
    rw [← written]
  have namedOne : crashed.header.footerOffset.toNat = last.offset ∨
      crashed.header.footerOffset.toNat =
        (committedFooter blake3 before segments body).offset := by
    rcases torn.footerOffset with old | new
    · exact Or.inl (by rw [old, base.named])
    · exact Or.inr (by rw [new, full.named])
  refine ⟨⟨lastRead, digest last (by simp)⟩, fun complete => ⟨complete, digest _ (by simp)⟩,
    ?_, ?_, namedOne, ?_, ?_, base.newest⟩
  · intro candidate anchored
    apply noDecoy
    rw [extended_by]
    exact readTocFooter_append blake3 _ anchored.1
  · intro wraps
    rcases namedOne with old | new
    · rw [old] at wraps
      exact wrapsAt_not_readable blake3 lastRead wraps
    · rw [new] at wraps
      have grownWraps := wraps.append (after.data.drop cut)
      rw [← extended_by] at grownWraps
      exact wrapsAt_not_readable blake3 (full.readable _ List.mem_cons_self) grownWraps
  · intro candidate member
    obtain ⟨header, -, -, -, read, -⟩ :=
      (readTocFooter_ok blake3).mp (base.readable candidate member)
    have inside := (readExact_ok.mp read).2.1
    simp only [tocHeaderLen, fileLen] at inside
    simp only [committedFooter, fileLen, List.length_append]
    omega
  · exact full.newest last List.mem_cons_self

theorem Remains.hit_cases (remains : Remains blake3 crashed last older next)
    {candidate : FooterCandidate} (hit : HeaderHits blake3 load crashed candidate) :
    candidate = last ∨ candidate = next := by
  obtain ⟨named, -, anchored, -⟩ := hit
  rcases remains.named with old | new
  · exact Or.inl (anchors_unique blake3 anchored remains.lastAnchors (by rw [← named, old]))
  · rcases List.mem_cons.mp (remains.anchors candidate anchored) with rfl | earlier
    · exact Or.inr rfl
    · exact absurd (by rw [← named, new]) (remains.distinct candidate earlier)

theorem Remains.resolves_last (remains : Remains blake3 crashed last older next)
    (hit : HeaderHits blake3 load crashed last) : CrashAtomic blake3 load crashed last next := by
  obtain ⟨state, loaded, resolved⟩ := resolveFooterState_hit blake3 load hit
  refine ⟨Or.inl ⟨state, loaded, resolved⟩, fun names => ?_⟩
  exact absurd (by rw [← hit.1, names]) (remains.distinct last List.mem_cons_self)

theorem resolves_next (hit : HeaderHits blake3 load crashed next) :
    CrashAtomic blake3 load crashed last next := by
  obtain ⟨state, loaded, resolved⟩ := resolveFooterState_hit blake3 load hit
  have resolves : ResolvesTo blake3 load crashed next := ⟨state, loaded, resolved⟩
  exact ⟨Or.inr ⟨hit.2.2.1.1, resolves⟩, fun _ _ _ => resolves⟩

/-- A scan ranks the next footer over the last one, and that one over every older one. -/
theorem Remains.scan (remains : Remains blake3 crashed last older next) (cause : String)
    (noWrap : ∀ position, ¬WrapsAt crashed.data position) {winner : FooterCandidate} {state : σ}
    (anchored : Anchors blake3 crashed winner) (loaded : load crashed.data winner.footer = .ok state)
    (wins : winner = next ∨ winner = last ∧
      ¬(Complete blake3 crashed next ∧ Loads load crashed next.footer)) :
    recoverViaScan blake3 load crashed cause = .ok (winner.offset, winner.footer, state) := by
  refine (recoverViaScan_ok blake3 load ⟨last, remains.lastAnchors⟩).mpr
    ⟨noWrap, anchored, loaded, fun other otherAnchored otherLoads => ?_⟩
  change winner.before other
  rcases wins with rfl | ⟨rfl, noNext⟩
  · rcases List.mem_cons.mp (remains.anchors other otherAnchored) with rfl | earlier
    · exact FooterCandidate.before_self _
    · rcases List.mem_cons.mp earlier with rfl | oldest
      · exact FooterCandidate.before_of_lt remains.lastBehind
      · have behind := remains.olderBehind other oldest
        have lastBehind := remains.lastBehind
        exact FooterCandidate.before_of_lt (by omega)
  · rcases List.mem_cons.mp (remains.anchors other otherAnchored) with rfl | earlier
    · exact absurd ⟨otherAnchored.1, otherLoads⟩ noNext
    · rcases List.mem_cons.mp earlier with rfl | oldest
      · exact FooterCandidate.before_self _
      · exact FooterCandidate.before_of_lt (remains.olderBehind other oldest)

/-- Without a header hit the open scans, and resolves to what the scan recovers. -/
theorem Remains.scans (remains : Remains blake3 crashed last older next)
    (miss : ∀ candidate, ¬HeaderHits blake3 load crashed candidate) :
    ∃ cause, ∀ winner, ResolvesTo blake3 load crashed winner ↔
      ∃ state, load crashed.data winner.footer = .ok state ∧
        recoverViaScan blake3 load crashed cause = .ok (winner.offset, winner.footer, state) := by
  obtain ⟨cause, scans⟩ := resolveFooterState_miss blake3 load miss remains.bounded
  exact ⟨cause, fun winner => by rw [ResolvesTo, scans]⟩

theorem Interrupted.recoverable_of_atomic
    (interrupted : Interrupted blake3 crashed last older next)
    (atomic : CrashAtomic blake3 load crashed last next) :
    Recoverable blake3 load crashed last next := by
  have remains := interrupted.remains
  by_cases hits : ∃ candidate, HeaderHits blake3 load crashed candidate
  · obtain ⟨candidate, hit⟩ := hits
    rcases remains.hit_cases blake3 load hit with rfl | rfl
    · exact Or.inl hit
    · exact Or.inr (Or.inl hit)
  · obtain ⟨cause, resolves_iff⟩ :=
      remains.scans blake3 load fun candidate hit => hits ⟨candidate, hit⟩
    have selected : ∃ winner, (winner = last ∨ winner = next) ∧
        ResolvesTo blake3 load crashed winner := by
      rcases atomic.1 with onLast | ⟨-, onNext⟩
      · exact ⟨last, Or.inl rfl, onLast⟩
      · exact ⟨next, Or.inr rfl, onNext⟩
    obtain ⟨winner, which, resolved⟩ := selected
    obtain ⟨state, loaded, recovered⟩ := (resolves_iff winner).mp resolved
    obtain ⟨noWrap, anchored, -, -⟩ :=
      (recoverViaScan_ok blake3 load ⟨last, remains.lastAnchors⟩).mp recovered
    refine Or.inr (Or.inr ⟨noWrap, ?_⟩)
    rcases which with rfl | rfl
    · exact Or.inl ⟨state, loaded⟩
    · exact Or.inr ⟨anchored.1, state, loaded⟩

theorem Interrupted.atomic_of_recoverable
    (interrupted : Interrupted blake3 crashed last older next)
    (recoverable : Recoverable blake3 load crashed last next) :
    CrashAtomic blake3 load crashed last next := by
  have remains := interrupted.remains
  rcases recoverable with hit | hit | ⟨noWrap, loads⟩
  · exact remains.resolves_last blake3 load hit
  · exact resolves_next blake3 load hit
  · by_cases hits : ∃ candidate, HeaderHits blake3 load crashed candidate
    · obtain ⟨candidate, hit⟩ := hits
      rcases remains.hit_cases blake3 load hit with rfl | rfl
      · exact remains.resolves_last blake3 load hit
      · exact resolves_next blake3 load hit
    · obtain ⟨cause, resolves_iff⟩ :=
        remains.scans blake3 load fun candidate hit => hits ⟨candidate, hit⟩
      by_cases nextLoads : Complete blake3 crashed next ∧ Loads load crashed next.footer
      · obtain ⟨complete, state, loaded⟩ := nextLoads
        have resolved : ResolvesTo blake3 load crashed next :=
          (resolves_iff next).mpr ⟨state, loaded, remains.scan blake3 load cause noWrap
            (remains.nextAnchors complete) loaded (Or.inl rfl)⟩
        exact ⟨Or.inr ⟨complete, resolved⟩, fun _ _ _ => resolved⟩
      · obtain ⟨state, loaded⟩ : Loads load crashed last.footer := by
          rcases loads with onLast | onNext
          · exact onLast
          · exact absurd onNext nextLoads
        have resolved : ResolvesTo blake3 load crashed last :=
          (resolves_iff last).mpr ⟨state, loaded, remains.scan blake3 load cause noWrap
            remains.lastAnchors loaded (Or.inr ⟨rfl, nextLoads⟩)⟩
        exact ⟨Or.inl resolved, fun _ complete nextLoad =>
          absurd ⟨complete, nextLoad⟩ nextLoads⟩

/-- Crash atomicity holds exactly when the file is recoverable. -/
theorem crashAtomic_iff_recoverable (interrupted : Interrupted blake3 crashed last older next) :
    CrashAtomic blake3 load crashed last next ↔ Recoverable blake3 load crashed last next :=
  ⟨interrupted.recoverable_of_atomic blake3 load, interrupted.atomic_of_recoverable blake3 load⟩

theorem noDecoy_of_magic {image : FileImage} {footers : List FooterCandidate}
    (readable : ∀ candidate ∈ footers,
      readTocFooter blake3 image.data candidate.offset = .ok candidate.footer)
    (known : ∀ position, tocMagic <+: image.data.drop position →
      (∃ candidate ∈ footers, candidate.offset = headerSize + position) ∨
        ∀ footer, readTocFooter blake3 image.data (headerSize + position) ≠ .ok footer) :
    NoDecoy blake3 image footers := by
  intro candidate read
  obtain ⟨low, magic⟩ := readTocFooter_magic blake3 (Or.inl ⟨_, read⟩)
  have back : headerSize + (candidate.offset - headerSize) = candidate.offset := by omega
  rcases known _ magic with ⟨other, member, same⟩ | unreadable
  · rw [back] at same
    have otherRead := readable other member
    rw [same, read, Outcome.ok.injEq] at otherRead
    obtain ⟨offset, footer⟩ := candidate
    obtain ⟨otherOffset, otherFooter⟩ := other
    simp only at same otherRead
    subst same otherRead
    exact member
  · rw [back] at unreadable
    exact absurd read (unreadable candidate.footer)

end Crashes

/-! ### A file with one commit, to evaluate -/

/-- A polynomial digest that stands in for BLAKE3 on concrete bytes. -/
def rollingHash (bytes : Bytes) : Checksum :=
  ⟨putLittleEndian 32 (bytes.foldl
    (fun state byte => (state * 257 + byte.toNat + 1) % (2 ^ 255 - 19)) 0), by simp [blake3Len]⟩

def loadAll (_ : Bytes) (_ : TocFooter) : Except Error Unit := .ok ()

def sampleUuid : { bytes : Bytes // bytes.length = 16 } := ⟨List.replicate 16 0, zeros_length⟩

def sampleBody (generation : UInt64) : TocFooterBody :=
  { snapshotGeneration := generation, createContract := {} }

def sampleBefore : FileImage where
  header := {
    fileUuid := sampleUuid
    footerOffset := UInt64.ofNat (fileLen [])
    snapshotGeneration := 1
    createContractDigest := ({} : CreateContractV1).digest rollingHash }
  data := TocFooterCodec.image rollingHash (sampleBody 1)

/-- The segment a flush writes for one frame's `uri`. -/
def uriSegment (uri : Bytes) : Bytes := segmentBytes rollingHash 1 .metadata 1 uri

def sampleLast : FooterCandidate := ⟨headerSize, TocFooter.empty rollingHash 1 {}⟩

def sampleNext (uri : Bytes) : FooterCandidate :=
  committedFooter rollingHash sampleBefore (uriSegment uri) (sampleBody 2)

def sampleAfter (uri : Bytes) : FileImage where
  header := { sampleBefore.header with
    footerOffset := UInt64.ofNat (sampleNext uri).offset
    snapshotGeneration := 2 }
  data := sampleBefore.data ++ uriSegment uri ++ TocFooterCodec.image rollingHash (sampleBody 2)

theorem sample_history : History rollingHash sampleBefore sampleLast [] :=
  History.create (createWithOptions_ok rollingHash sampleUuid {}) (by unfold Fits; decide +kernel)

theorem sample_interrupted {uri : Bytes} {crashed : FileImage}
    (fits : Fits (sampleAfter uri).data) (torn : Torn sampleBefore (sampleAfter uri) crashed)
    (noDecoy : NoDecoy rollingHash (sampleAfter uri) [sampleNext uri, sampleLast]) :
    Interrupted rollingHash crashed sampleLast [] (sampleNext uri) :=
  ⟨sampleBefore, sampleAfter uri, uriSegment uri, sampleBody 2, sample_history, rfl, rfl,
    commitPhaseWrites_ok _ _ _ _, fits, rfl, torn, noDecoy⟩

/-- The crash that kept every byte but tore the header: old offset, new generation. -/
def sampleTorn (uri : Bytes) : FileImage where
  header := { sampleBefore.header with snapshotGeneration := 2 }
  data := (sampleAfter uri).data

theorem sample_torn (uri : Bytes) : Torn sampleBefore (sampleAfter uri) (sampleTorn uri) where
  appended := ⟨(sampleAfter uri).data.length, by simp [sampleAfter], List.take_length.symm⟩
  footerOffset := Or.inl rfl
  generation := Or.inr rfl
  contract := rfl

def magicPositions : Nat → Bytes → List Nat
  | _, [] => []
  | base, byte :: rest =>
      if tocMagic.isPrefixOf (byte :: rest) then base :: magicPositions (base + 1) rest
      else magicPositions (base + 1) rest

theorem magicPositions_mem {data : Bytes} {position : Nat} (base : Nat)
    (magic : tocMagic <+: data.drop position) : base + position ∈ magicPositions base data := by
  induction data generalizing base position with
  | nil => simp [tocMagic] at magic
  | cons byte rest ih =>
      rw [magicPositions]
      cases position with
      | zero =>
          rw [List.drop_zero] at magic
          rw [if_pos (List.isPrefixOf_iff_prefix.mpr magic)]
          exact List.mem_cons_self
      | succ position =>
          have later := ih (base + 1) (by simpa using magic)
          have shift : base + 1 + position = base + (position + 1) := by omega
          rw [shift] at later
          split
          · exact List.mem_cons_of_mem _ later
          · exact later

theorem sample_consistent {uri : Bytes} (fits : Fits (sampleAfter uri).data) :
    Consistent rollingHash (sampleAfter uri) (sampleNext uri) [sampleLast] := by
  have counts : (sampleBody 2).snapshotGeneration =
      sampleBefore.header.snapshotGeneration + 1 := rfl
  have keeps : (sampleBody 2).createContract = sampleLast.footer.body.createContract := rfl
  exact (sample_history.consistent rollingHash).commit rollingHash counts keeps
    (commitPhaseWrites_ok rollingHash sampleBefore (uriSegment uri) (sampleBody 2)) fits

theorem sample_noDecoy {uri : Bytes} (fits : Fits (sampleAfter uri).data)
    (known : ∀ offset ∈ magicPositions headerSize (sampleAfter uri).data,
      offset = sampleLast.offset ∨ offset = (sampleNext uri).offset ∨
        WrapsAt (sampleAfter uri).data offset) :
    NoDecoy rollingHash (sampleAfter uri) [sampleNext uri, sampleLast] := by
  refine noDecoy_of_magic rollingHash (sample_consistent fits).readable fun position magic => ?_
  rcases known _ (magicPositions_mem headerSize magic) with atLast | atNext | wraps
  · exact Or.inl ⟨sampleLast, by simp, atLast.symm⟩
  · exact Or.inl ⟨sampleNext uri, by simp, atNext.symm⟩
  · exact Or.inr fun footer read => wrapsAt_not_readable rollingHash read wraps

theorem noWrap_of_readable {data : Bytes}
    (known : ∀ offset ∈ magicPositions headerSize data,
      ∃ footer, readTocFooter rollingHash data offset = .ok footer)
    (offset : Nat) : ¬WrapsAt data offset := by
  intro wraps
  obtain ⟨low, magic⟩ := readTocFooter_magic rollingHash (Or.inr wraps)
  have back : headerSize + (offset - headerSize) = offset := by omega
  obtain ⟨footer, read⟩ := known _ (magicPositions_mem headerSize magic)
  rw [back] at read
  exact wrapsAt_not_readable rollingHash read wraps

-- "key"
def plainKey : Bytes := [107, 101, 121]

theorem plainKey_fits : Fits (sampleAfter plainKey).data := by
  unfold Fits
  decide +kernel

theorem plainKey_positions : ∀ offset ∈ magicPositions headerSize (sampleAfter plainKey).data,
    offset = sampleLast.offset ∨ offset = (sampleNext plainKey).offset := by
  decide +kernel

theorem plainKey_noDecoy :
    NoDecoy rollingHash (sampleAfter plainKey) [sampleNext plainKey, sampleLast] :=
  sample_noDecoy plainKey_fits fun offset member =>
    (plainKey_positions offset member).imp_right Or.inl

theorem plainKey_noWrap (offset : Nat) : ¬WrapsAt (sampleTorn plainKey).data offset := by
  refine noWrap_of_readable (fun position member => ?_) offset
  rcases plainKey_positions position member with atLast | atNext
  · rw [atLast]
    exact ⟨_, (sample_consistent plainKey_fits).readable sampleLast (by simp)⟩
  · rw [atNext]
    exact ⟨_, (sample_consistent plainKey_fits).readable (sampleNext plainKey) (by simp)⟩

/-- The torn header of an ordinary commit leads the scan to the next footer. -/
theorem plainKey_crashAtomic :
    CrashAtomic rollingHash loadAll (sampleTorn plainKey) sampleLast (sampleNext plainKey) := by
  have interrupted := sample_interrupted plainKey_fits (sample_torn plainKey) plainKey_noDecoy
  have loads : Loads loadAll (sampleTorn plainKey) sampleLast.footer := ⟨(), rfl⟩
  exact (crashAtomic_iff_recoverable rollingHash loadAll interrupted).mpr
    (Or.inr (Or.inr ⟨plainKey_noWrap, Or.inl loads⟩))

/-- A footer header with a length field of `2 ^ 64 - 89`, as the caller of a put may pass it. -/
def wrappingHeader : Bytes :=
  tocMagic ++ putLittleEndian 2 tocVersion ++ putLittleEndian 2 tocHeaderLen ++
    putLittleEndian 8 0 ++ putLittleEndian 8 (2 ^ 64 - 89)

theorem wrappingHeader_wraps :
    WrapsAt (sampleAfter wrappingHeader).data (headerSize + 222) :=
  ⟨slice (sampleAfter wrappingHeader).data 222 tocHeaderLen, 2 ^ 64 - 1, by decide +kernel,
    by decide +kernel, by decide⟩

theorem wrappingHeader_interrupted :
    Interrupted rollingHash (sampleTorn wrappingHeader) sampleLast []
      (sampleNext wrappingHeader) := by
  have fits : Fits (sampleAfter wrappingHeader).data := by
    unfold Fits
    decide +kernel
  have positions : ∀ offset ∈ magicPositions headerSize (sampleAfter wrappingHeader).data,
      offset = sampleLast.offset ∨ offset = (sampleNext wrappingHeader).offset ∨
        offset = headerSize + 222 := by
    decide +kernel
  refine sample_interrupted fits (sample_torn _) (sample_noDecoy fits fun offset member => ?_)
  rcases positions offset member with atLast | atNext | atUri
  · exact Or.inl atLast
  · exact Or.inr (Or.inl atNext)
  · rw [atUri]
    exact Or.inr (Or.inr wrappingHeader_wraps)

/-- A key whose bytes are such a header turns a torn header rewrite into an abort, although the
roots of every snapshot load. -/
theorem crashAtomic_fails_on_wrappingHeader :
    Interrupted rollingHash (sampleTorn wrappingHeader) sampleLast []
        (sampleNext wrappingHeader) ∧
      Loads loadAll (sampleTorn wrappingHeader) sampleLast.footer ∧
      Loads loadAll (sampleTorn wrappingHeader) (sampleNext wrappingHeader).footer ∧
      ¬CrashAtomic rollingHash loadAll (sampleTorn wrappingHeader) sampleLast
        (sampleNext wrappingHeader) := by
  refine ⟨wrappingHeader_interrupted, ⟨(), rfl⟩, ⟨(), rfl⟩, fun atomic => ?_⟩
  rcases wrappingHeader_interrupted.recoverable_of_atomic rollingHash loadAll atomic with
    ⟨-, generation, -⟩ | ⟨named, -⟩ | ⟨noWrap, -⟩
  · exact absurd generation (by decide)
  · exact absurd named (by decide +kernel)
  · exact noWrap _ wrappingHeader_wraps

end Valise
