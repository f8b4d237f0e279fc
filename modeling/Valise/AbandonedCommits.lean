import Valise.ScanSelection
import Valise.Library.Reading
import Valise.Library.Runs

/-!
Runs of commits, crashes and reopenings: which snapshot an open selects along them.
-/

namespace Valise

open ByteLists Outcomes Ranking Reading Runs

/-- The file, the complete footers that commits left in it, the snapshot installed by the latest
acknowledged commit or adopted by the latest open, and the commit cut by the latest crash. -/
structure StoreRun where
  disk : FileImage
  written : List FooterCandidate
  installed : FooterCandidate
  inFlight : Option FooterCandidate
  live : Bool

section Runs

variable (blake3 : Bytes → Checksum) {σ : Type} (program : TocFooter → Program Error σ)

/-- `load_open_state` learns about the file by exact reads. -/
def loadBy (data : Bytes) (footer : TocFooter) : Except Error σ := (program footer).run data

inductive Created : StoreRun → Prop where
  | create {fileUuid contract image} :
      createWithOptions blake3 fileUuid contract = .ok image → Fits image.data →
      Created {
        disk := image
        written := [⟨headerSize, TocFooter.empty blake3 1 contract⟩]
        installed := ⟨headerSize, TocFooter.empty blake3 1 contract⟩
        inFlight := none
        live := true }

/-- The body a live handle commits next: one generation on, under the contract of the footer it
holds. -/
structure Continues (run : StoreRun) (body : TocFooterBody) : Prop where
  generation : body.snapshotGeneration = run.installed.footer.body.snapshotGeneration + 1
  contract : body.createContract = run.installed.footer.body.createContract

inductive Step : StoreRun → StoreRun → Prop where
  | commit {run segments body disk} :
      run.live = true → Continues run body →
      commitPhaseWrites blake3 run.disk segments body = .ok disk → Fits disk.data →
      Step run {
        disk := disk
        written := committedFooter blake3 run.disk segments body :: run.written
        installed := committedFooter blake3 run.disk segments body
        inFlight := none
        live := true }
  | crashComplete {run segments body disk crashed} :
      run.live = true → Continues run body →
      commitPhaseWrites blake3 run.disk segments body = .ok disk → Fits disk.data →
      Torn run.disk disk crashed →
      Complete blake3 crashed (committedFooter blake3 run.disk segments body) →
      Step run {
        disk := crashed
        written := committedFooter blake3 run.disk segments body :: run.written
        installed := run.installed
        inFlight := some (committedFooter blake3 run.disk segments body)
        live := false }
  | crashCut {run segments body disk crashed} :
      run.live = true → Continues run body →
      commitPhaseWrites blake3 run.disk segments body = .ok disk → Fits disk.data →
      Torn run.disk disk crashed →
      ¬Complete blake3 crashed (committedFooter blake3 run.disk segments body) →
      Step run {
        disk := crashed
        written := run.written
        installed := run.installed
        inFlight := some (committedFooter blake3 run.disk segments body)
        live := false }
  | leave {run tail} :
      run.live = true → Fits (run.disk.data ++ tail) →
      Step run { run with
        disk := { run.disk with data := run.disk.data ++ tail }
        live := false }
  | reopen {run offset footer state} :
      run.live = false →
      resolveFooterState blake3 (loadBy program) run.disk = .ok (offset, footer, state) →
      Step run { run with
        installed := ⟨offset, footer⟩
        inFlight := none
        live := true }

/-- An open of this file selects the installed snapshot or the commit in flight at the crash. -/
def SelectsInstalled (run : StoreRun) : Prop :=
  ∀ offset footer state,
    resolveFooterState blake3 (loadBy program) run.disk = .ok (offset, footer, state) →
      (⟨offset, footer⟩ : FooterCandidate) = run.installed ∨
        some (⟨offset, footer⟩ : FooterCandidate) = run.inFlight

/-- What keeps a step from being misread later: no bytes but those of a commit's footer read as one,
the roots of every commit load, and a crash that cuts the footer in flight either has not begun
the header rewrite or finds no complete footer ranked above the installed one. -/
structure Guarded (before after : StoreRun) : Prop where
  noDecoy : ∀ candidate, Anchors blake3 after.disk candidate → candidate ∈ after.written
  roots : ∀ candidate ∈ after.written, candidate ∉ before.written →
    Loads (loadBy program) after.disk candidate.footer
  ordered : ∀ next, after.inFlight = some next → ¬Complete blake3 after.disk next →
    after.disk.header.footerOffset = before.disk.header.footerOffset ∧
        after.disk.header.snapshotGeneration = before.disk.header.snapshotGeneration ∨
      ∀ candidate, Anchors blake3 before.disk candidate → before.installed.before candidate

structure GuardedStart (run : StoreRun) : Prop where
  created : Created blake3 run
  noDecoy : ∀ candidate, Anchors blake3 run.disk candidate → candidate ∈ run.written
  roots : Loads (loadBy program) run.disk run.installed.footer

/-! ### The invariant -/

/-- Any open of the image selects this footer: the header hits it, or hits nothing while it ranks
first. -/
structure Chooses (image : FileImage) (chosen : FooterCandidate) : Prop where
  anchors : Anchors blake3 image chosen
  loads : Loads (loadBy program) image chosen.footer
  first : HeaderHits blake3 (loadBy program) image chosen ∨
    (∀ candidate, ¬HeaderHits blake3 (loadBy program) image candidate) ∧
      ∀ candidate, Anchors blake3 image candidate → chosen.before candidate

structure Sound (run : StoreRun) : Prop where
  fits : Fits run.disk.data
  complete : ∀ candidate ∈ run.written, Anchors blake3 run.disk candidate
  noDecoy : ∀ candidate, Anchors blake3 run.disk candidate → candidate ∈ run.written
  roots : ∀ candidate ∈ run.written, Loads (loadBy program) run.disk candidate.footer
  bounded : ∀ candidate ∈ run.written, candidate.footer.body.snapshotGeneration.toNat ≤
    run.installed.footer.body.snapshotGeneration.toNat + 1
  counted : ∀ candidate ∈ run.written,
    candidate.footer.body.snapshotGeneration.toNat * tocHeaderLen ≤ run.disk.data.length
  installed : run.installed ∈ run.written
  chosen : Chooses blake3 program run.disk run.installed ∨
    run.live = false ∧ ∃ next, run.inFlight = some next ∧ Chooses blake3 program run.disk next ∧
      next.footer.body.snapshotGeneration.toNat =
        run.installed.footer.body.snapshotGeneration.toNat + 1

theorem Chooses.resolves {image : FileImage} {chosen : FooterCandidate}
    (chooses : Chooses blake3 program image chosen) {offset : Nat} {footer : TocFooter} {state : σ}
    (resolved : resolveFooterState blake3 (loadBy program) image = .ok (offset, footer, state)) :
    (⟨offset, footer⟩ : FooterCandidate) = chosen := by
  rcases chooses.first with hit | ⟨miss, first⟩
  · obtain ⟨loaded, -, resolvesChosen⟩ := resolveFooterState_hit blake3 (loadBy program) hit
    rw [resolvesChosen, Outcome.ok.injEq] at resolved
    cases resolved
    rfl
  · have bounded : ¬WrapsAt image.data image.header.footerOffset.toNat := by
      intro wraps
      have aborts := (readPrimary_panic blake3).mpr wraps
      rw [resolveFooterState, aborts] at resolved
      cases resolved
    obtain ⟨cause, scans⟩ := resolveFooterState_miss blake3 (loadBy program) miss bounded
    rw [scans] at resolved
    obtain ⟨-, anchored, -, wins⟩ :=
      (recoverViaScan_ok blake3 (loadBy program) ⟨chosen, chooses.anchors⟩).mp resolved
    have tied := FooterCandidate.before_antisymm _ _ (wins chosen chooses.anchors chooses.loads)
      (first _ anchored)
    exact anchors_unique blake3 anchored chooses.anchors tied

theorem Sound.selectsInstalled {run : StoreRun} (sound : Sound blake3 program run) :
    SelectsInstalled blake3 program run := by
  intro offset footer state resolved
  rcases sound.chosen with onInstalled | ⟨-, next, inFlight, onNext, -⟩
  · exact Or.inl (onInstalled.resolves blake3 program resolved)
  · right
    rw [inFlight, onNext.resolves blake3 program resolved]

/-- Files that grow: bytes are only appended and the digest region is never rewritten. -/
structure Grows (before after : FileImage) : Prop where
  data : ∃ tail, after.data = before.data ++ tail
  digest : after.header.createContractDigest = before.header.createContractDigest

variable {before after : FileImage}

theorem Grows.anchors (grows : Grows before after) {candidate : FooterCandidate}
    (anchored : Anchors blake3 before candidate) : Anchors blake3 after candidate := by
  obtain ⟨tail, data⟩ := grows.data
  refine ⟨?_, by rw [grows.digest]; exact anchored.2⟩
  rw [data]
  exact readTocFooter_append blake3 tail anchored.1

theorem Grows.loads (grows : Grows before after) {footer : TocFooter}
    (loads : Loads (loadBy program) before footer) : Loads (loadBy program) after footer := by
  obtain ⟨tail, data⟩ := grows.data
  obtain ⟨state, loaded⟩ := loads
  refine ⟨state, ?_⟩
  rw [data]
  exact (program footer).run_append tail loaded

theorem Grows.length (grows : Grows before after) : before.data.length ≤ after.data.length := by
  obtain ⟨tail, data⟩ := grows.data
  rw [data, List.length_append]
  omega

/-- What the writes of a commit leave on the disk of a sound run. -/
structure Wrote (run : StoreRun) (next : FooterCandidate) (disk : FileImage) : Prop where
  grows : Grows run.disk disk
  anchors : Anchors blake3 disk next
  generation : next.footer.body.snapshotGeneration.toNat =
    run.installed.footer.body.snapshotGeneration.toNat + 1
  namedOffset : disk.header.footerOffset.toNat = next.offset
  namedGeneration : disk.header.snapshotGeneration = next.footer.body.snapshotGeneration
  counted : next.footer.body.snapshotGeneration.toNat * tocHeaderLen ≤ disk.data.length
  appended : fileLen run.disk.data ≤ next.offset

variable {run : StoreRun} {segments : Bytes} {body : TocFooterBody} {disk crashed : FileImage}
  {next : FooterCandidate}

theorem Sound.wrote (sound : Sound blake3 program run) (continues : Continues run body)
    (written : commitPhaseWrites blake3 run.disk segments body = .ok disk)
    (fits : Fits disk.data) :
    Wrote blake3 run (committedFooter blake3 run.disk segments body) disk := by
  rw [commitPhaseWrites_ok, Outcome.ok.injEq] at written
  subst written
  have long := TocFooterCodec.image_length blake3 body
  have counted := sound.counted _ sound.installed
  have diskFits := sound.fits
  simp only [Fits, fileLen, List.length_append] at fits diskFits
  have generation : body.snapshotGeneration.toNat =
      run.installed.footer.body.snapshotGeneration.toNat + 1 := by
    have small : run.installed.footer.body.snapshotGeneration.toNat + 1 < 2 ^ 64 := by
      simp only [tocHeaderLen] at counted
      omega
    rw [continues.generation, UInt64.toNat_add]
    exact Nat.mod_eq_of_lt small
  refine ⟨⟨⟨segments ++ TocFooterCodec.image blake3 body, by simp⟩, rfl⟩, ⟨?_, ?_⟩, generation,
    ?_, rfl, ?_, ?_⟩
  · refine committedFooter_readable blake3 run.disk segments body ?_
    simp only [fileLen, List.length_append]
    omega
  · change body.createContract.digest blake3 = _
    rw [continues.contract]
    exact (sound.complete _ sound.installed).2
  · have small : fileLen (run.disk.data ++ segments) < 2 ^ 64 := by
      simp only [fileLen, List.length_append]
      omega
    exact UInt64.toNat_ofNat_of_lt' small
  · change body.snapshotGeneration.toNat * tocHeaderLen ≤ _
    simp only [List.length_append, generation, Nat.add_mul]
    omega
  · simp only [committedFooter, fileLen, List.length_append]
    omega

theorem Wrote.torn (wrote : Wrote blake3 run next disk) (torn : Torn run.disk disk crashed) :
    Grows run.disk crashed := by
  obtain ⟨tail, data⟩ := wrote.grows.data
  obtain ⟨cut, kept, cutData⟩ := torn.appended
  refine ⟨⟨tail.take (cut - run.disk.data.length), ?_⟩, torn.contract⟩
  rw [cutData, data, List.take_append, List.take_of_length_le kept]

theorem Sound.offset_lt (sound : Sound blake3 program run) {candidate : FooterCandidate}
    (member : candidate ∈ run.written) : candidate.offset < fileLen run.disk.data := by
  obtain ⟨header, -, -, -, read, -⟩ :=
    (readTocFooter_ok blake3).mp (sound.complete candidate member).1
  have inside := (readExact_ok.mp read).2.1
  simp only [tocHeaderLen] at inside
  omega

/-- The next footer outranks every complete one: its generation is as high and it lies later. -/
theorem Sound.next_before (sound : Sound blake3 program run) (wrote : Wrote blake3 run next disk)
    {candidate : FooterCandidate} (member : candidate ∈ run.written) : next.before candidate := by
  have generation := wrote.generation
  have bounded := sound.bounded candidate member
  have earlier := sound.offset_lt blake3 program member
  have appended := wrote.appended
  exact FooterCandidate.before_of_le (by omega) (by omega)

theorem Sound.live_chooses (sound : Sound blake3 program run) (live : run.live = true) :
    Chooses blake3 program run.disk run.installed := by
  rcases sound.chosen with chosen | ⟨closed, -⟩
  · exact chosen
  · rw [live] at closed
    cases closed

/-- A header hit among the complete footers of a sound run is on the footer the run chooses. -/
theorem Chooses.hit {chosen candidate : FooterCandidate}
    (chooses : Chooses blake3 program before chosen)
    (hit : HeaderHits blake3 (loadBy program) before candidate) : candidate = chosen := by
  rcases chooses.first with hitChosen | ⟨miss, -⟩
  · exact anchors_unique blake3 hit.2.2.1 hitChosen.2.2.1 (by rw [← hit.1, ← hitChosen.1])
  · exact absurd hit (miss candidate)

/-- Growth under the same header fields keeps the choice, if no new footer becomes readable. -/
theorem Sound.chooses_grows (sound : Sound blake3 program run) (grows : Grows run.disk after)
    (sameOffset : after.header.footerOffset = run.disk.header.footerOffset)
    (sameGeneration : after.header.snapshotGeneration = run.disk.header.snapshotGeneration)
    (noDecoy : ∀ candidate, Anchors blake3 after candidate → candidate ∈ run.written)
    {chosen : FooterCandidate} (chooses : Chooses blake3 program run.disk chosen) :
    Chooses blake3 program after chosen := by
  have back {candidate : FooterCandidate}
      (hit : HeaderHits blake3 (loadBy program) after candidate) :
      HeaderHits blake3 (loadBy program) run.disk candidate := by
    obtain ⟨offset, generation, anchored, -⟩ := hit
    have member := noDecoy candidate anchored
    exact ⟨by rw [← sameOffset]; exact offset, by rw [← sameGeneration]; exact generation,
      sound.complete candidate member, sound.roots candidate member⟩
  refine ⟨grows.anchors blake3 chooses.anchors, grows.loads program chooses.loads, ?_⟩
  rcases chooses.first with ⟨offset, generation, anchored, loads⟩ | ⟨miss, first⟩
  · exact Or.inl ⟨by rw [sameOffset]; exact offset, by rw [sameGeneration]; exact generation,
      grows.anchors blake3 anchored, grows.loads program loads⟩
  · exact Or.inr ⟨fun candidate hit => miss candidate (back hit), fun candidate anchored =>
      first candidate (sound.complete candidate (noDecoy candidate anchored))⟩

/-- After a torn header rewrite, a hit on an earlier footer is a hit on the installed one. -/
theorem Sound.torn_hit (sound : Sound blake3 program run) (live : run.live = true)
    (wrote : Wrote blake3 run next disk) (torn : Torn run.disk disk crashed)
    {candidate : FooterCandidate} (member : candidate ∈ run.written)
    (hit : HeaderHits blake3 (loadBy program) crashed candidate) :
    candidate = run.installed := by
  obtain ⟨offset, generation, -, -⟩ := hit
  have chooses := sound.live_chooses blake3 program live
  have oldOffset : run.disk.header.footerOffset.toNat = candidate.offset := by
    rcases torn.footerOffset with old | new
    · rw [← old]
      exact offset
    · have earlier := sound.offset_lt blake3 program member
      have appended := wrote.appended
      rw [new, wrote.namedOffset] at offset
      omega
  rcases torn.generation with old | new
  · rw [old] at generation
    exact chooses.hit blake3 program
      ⟨oldOffset, generation, sound.complete candidate member, sound.roots candidate member⟩
  · rw [new, wrote.namedGeneration] at generation
    have ahead := wrote.generation
    rcases chooses.first with hitInstalled | ⟨-, first⟩
    · exact anchors_unique blake3 (sound.complete candidate member) chooses.anchors
        (by rw [← oldOffset, hitInstalled.1])
    · have behind := FooterCandidate.before_generation
        (first candidate (sound.complete candidate member))
      rw [← generation] at behind
      omega

theorem Wrote.roots (wrote : Wrote blake3 run next disk) (sound : Sound blake3 program run)
    (grows : Grows run.disk after)
    (fresh : ∀ candidate ∈ next :: run.written, candidate ∉ run.written →
      Loads (loadBy program) after candidate.footer) :
    ∀ candidate ∈ next :: run.written, Loads (loadBy program) after candidate.footer := by
  have notOld : next ∉ run.written := by
    intro member
    have earlier := sound.offset_lt blake3 program member
    have appended := wrote.appended
    omega
  intro candidate member
  rcases List.mem_cons.mp member with rfl | old
  · exact fresh candidate member notOld
  · exact grows.loads program (sound.roots candidate old)

theorem Sound.commit (sound : Sound blake3 program run) (fits : Fits disk.data)
    (wrote : Wrote blake3 run next disk)
    (noDecoy : ∀ candidate, Anchors blake3 disk candidate → candidate ∈ next :: run.written)
    (roots : ∀ candidate ∈ next :: run.written, Loads (loadBy program) disk candidate.footer) :
    Sound blake3 program ⟨disk, next :: run.written, next, none, true⟩ where
  fits := fits
  complete := by
    intro candidate member
    rcases List.mem_cons.mp member with rfl | old
    · exact wrote.anchors
    · exact wrote.grows.anchors blake3 (sound.complete candidate old)
  noDecoy := noDecoy
  roots := roots
  bounded := by
    intro candidate member
    rcases List.mem_cons.mp member with rfl | old
    · exact Nat.le_succ _
    · have bound := sound.bounded candidate old
      have generation := wrote.generation
      change _ ≤ next.footer.body.snapshotGeneration.toNat + 1
      omega
  counted := by
    intro candidate member
    rcases List.mem_cons.mp member with rfl | old
    · exact wrote.counted
    · exact Nat.le_trans (sound.counted candidate old) wrote.grows.length
  installed := List.mem_cons_self
  chosen := by
    have loads := roots next List.mem_cons_self
    exact Or.inl ⟨wrote.anchors, loads,
      Or.inl ⟨wrote.namedOffset, wrote.namedGeneration, wrote.anchors, loads⟩⟩

/-- A crash that keeps the whole next footer: an open selects it, or still the installed one. -/
theorem Sound.crashComplete (sound : Sound blake3 program run) (live : run.live = true)
    (fits : Fits crashed.data) (wrote : Wrote blake3 run next disk)
    (torn : Torn run.disk disk crashed) (complete : Complete blake3 crashed next)
    (noDecoy : ∀ candidate, Anchors blake3 crashed candidate → candidate ∈ next :: run.written)
    (roots : ∀ candidate ∈ next :: run.written, Loads (loadBy program) crashed candidate.footer) :
    Sound blake3 program ⟨crashed, next :: run.written, run.installed, some next, false⟩ := by
  have grows := wrote.torn blake3 torn
  have anchorsNext : Anchors blake3 crashed next := by
    refine ⟨complete, ?_⟩
    rw [torn.contract, ← wrote.grows.digest]
    exact wrote.anchors.2
  have loadsNext := roots next List.mem_cons_self
  have chosen : Chooses blake3 program crashed run.installed ∨
      Chooses blake3 program crashed next := by
    by_cases hits : ∃ candidate, HeaderHits blake3 (loadBy program) crashed candidate
    · obtain ⟨candidate, hit⟩ := hits
      rcases List.mem_cons.mp (noDecoy candidate hit.2.2.1) with rfl | old
      · exact Or.inr ⟨anchorsNext, loadsNext, Or.inl hit⟩
      · obtain rfl := sound.torn_hit blake3 program live wrote torn old hit
        exact Or.inl ⟨hit.2.2.1, hit.2.2.2, Or.inl hit⟩
    · refine Or.inr ⟨anchorsNext, loadsNext, Or.inr ⟨fun candidate hit => hits ⟨candidate, hit⟩,
        fun candidate anchored => ?_⟩⟩
      rcases List.mem_cons.mp (noDecoy candidate anchored) with rfl | old
      · exact FooterCandidate.before_self _
      · exact sound.next_before blake3 program wrote old
  refine ⟨fits, ?_, noDecoy, roots, ?_, ?_, List.mem_cons_of_mem _ sound.installed, ?_⟩
  · intro candidate member
    rcases List.mem_cons.mp member with rfl | old
    · exact anchorsNext
    · exact grows.anchors blake3 (sound.complete candidate old)
  · intro candidate member
    rcases List.mem_cons.mp member with rfl | old
    · exact Nat.le_of_eq wrote.generation
    · exact sound.bounded candidate old
  · intro candidate member
    rcases List.mem_cons.mp member with rfl | old
    · obtain ⟨header, footerLen, -, -, read, accepted, -, readRest, -⟩ :=
        (readTocFooter_ok blake3).mp complete
      have counted := sound.counted _ sound.installed
      have inside := (readExact_ok.mp read).2.1
      have appended := wrote.appended
      have generation := wrote.generation
      simp only [fileLen] at inside appended
      change candidate.footer.body.snapshotGeneration.toNat * tocHeaderLen ≤ crashed.data.length
      rw [generation, Nat.add_mul]
      omega
    · exact Nat.le_trans (sound.counted candidate old) grows.length
  · rcases chosen with onInstalled | onNext
    · exact Or.inl onInstalled
    · exact Or.inr ⟨rfl, next, rfl, onNext, wrote.generation⟩

/-- A crash that cuts the next footer keeps the choice if the header is untouched or nothing
complete outranks the installed footer. -/
theorem Sound.crashCut (sound : Sound blake3 program run) (live : run.live = true)
    (fits : Fits crashed.data) (wrote : Wrote blake3 run next disk)
    (torn : Torn run.disk disk crashed)
    (noDecoy : ∀ candidate, Anchors blake3 crashed candidate → candidate ∈ run.written)
    (ordered : crashed.header.footerOffset = run.disk.header.footerOffset ∧
        crashed.header.snapshotGeneration = run.disk.header.snapshotGeneration ∨
      ∀ candidate, Anchors blake3 run.disk candidate → run.installed.before candidate) :
    Sound blake3 program ⟨crashed, run.written, run.installed, some next, false⟩ := by
  have grows := wrote.torn blake3 torn
  have chooses := sound.live_chooses blake3 program live
  have chosen : Chooses blake3 program crashed run.installed := by
    rcases ordered with ⟨sameOffset, sameGeneration⟩ | first
    · exact sound.chooses_grows blake3 program grows sameOffset sameGeneration noDecoy chooses
    · refine ⟨grows.anchors blake3 chooses.anchors, grows.loads program chooses.loads, ?_⟩
      by_cases hits : ∃ candidate, HeaderHits blake3 (loadBy program) crashed candidate
      · obtain ⟨candidate, hit⟩ := hits
        obtain rfl := sound.torn_hit blake3 program live wrote torn
          (noDecoy candidate hit.2.2.1) hit
        exact Or.inl hit
      · exact Or.inr ⟨fun candidate hit => hits ⟨candidate, hit⟩, fun candidate anchored =>
          first candidate (sound.complete candidate (noDecoy candidate anchored))⟩
  exact ⟨fits, fun candidate member => grows.anchors blake3 (sound.complete candidate member),
    noDecoy, fun candidate member => grows.loads program (sound.roots candidate member),
    sound.bounded, fun candidate member => Nat.le_trans (sound.counted candidate member) grows.length,
    sound.installed, Or.inl chosen⟩

theorem Sound.leave (sound : Sound blake3 program run) (live : run.live = true) {tail : Bytes}
    (fits : Fits (run.disk.data ++ tail))
    (noDecoy : ∀ candidate, Anchors blake3 { run.disk with data := run.disk.data ++ tail } candidate →
      candidate ∈ run.written) :
    Sound blake3 program { run with
      disk := { run.disk with data := run.disk.data ++ tail }
      live := false } := by
  have grows : Grows run.disk { run.disk with data := run.disk.data ++ tail } :=
    ⟨⟨tail, rfl⟩, rfl⟩
  exact ⟨fits, fun candidate member => grows.anchors blake3 (sound.complete candidate member),
    noDecoy, fun candidate member => grows.loads program (sound.roots candidate member),
    sound.bounded, fun candidate member => Nat.le_trans (sound.counted candidate member) grows.length,
    sound.installed, Or.inl (sound.chooses_grows blake3 program grows rfl rfl noDecoy
      (sound.live_chooses blake3 program live))⟩

theorem Sound.reopen (sound : Sound blake3 program run) {offset : Nat} {footer : TocFooter}
    {state : σ}
    (resolved : resolveFooterState blake3 (loadBy program) run.disk = .ok (offset, footer, state)) :
    Sound blake3 program { run with
      installed := ⟨offset, footer⟩
      inFlight := none
      live := true } := by
  rcases sound.chosen with onInstalled | ⟨-, next, -, onNext, generation⟩
  · rw [onInstalled.resolves blake3 program resolved]
    exact ⟨sound.fits, sound.complete, sound.noDecoy, sound.roots, sound.bounded, sound.counted,
      sound.installed, Or.inl onInstalled⟩
  · rw [onNext.resolves blake3 program resolved]
    refine ⟨sound.fits, sound.complete, sound.noDecoy, sound.roots, fun candidate member => ?_,
      sound.counted, sound.noDecoy next onNext.anchors, Or.inl onNext⟩
    have bound := sound.bounded candidate member
    change _ ≤ next.footer.body.snapshotGeneration.toNat + 1
    omega

theorem GuardedStart.sound (started : GuardedStart blake3 program run) :
    Sound blake3 program run := by
  obtain ⟨created, noDecoy, roots⟩ := started
  obtain ⟨created, fits⟩ := created
  rename_i fileUuid contract image
  have consistent := (History.create created fits).consistent blake3
  have anchored : Anchors blake3 image ⟨headerSize, TocFooter.empty blake3 1 contract⟩ :=
    ⟨consistent.readable _ List.mem_cons_self, consistent.contract _ List.mem_cons_self⟩
  refine ⟨fits, ?_, noDecoy, ?_, ?_, ?_, List.mem_cons_self, Or.inl ⟨anchored, roots, Or.inl
    ⟨consistent.named, consistent.generation, anchored, roots⟩⟩⟩
  · intro candidate member
    obtain rfl := List.mem_singleton.mp member
    exact anchored
  · intro candidate member
    obtain rfl := List.mem_singleton.mp member
    exact roots
  · intro candidate member
    obtain rfl := List.mem_singleton.mp member
    exact Nat.le_succ _
  · intro candidate member
    obtain rfl := List.mem_singleton.mp member
    exact consistent.counted

theorem Sound.step {next : StoreRun} (sound : Sound blake3 program run)
    (step : Step blake3 program run next) (guarded : Guarded blake3 program run next) :
    Sound blake3 program next := by
  cases step with
  | commit live continues written fits =>
      have wrote := sound.wrote blake3 program continues written fits
      exact sound.commit blake3 program fits wrote guarded.noDecoy
        (wrote.roots blake3 program sound wrote.grows guarded.roots)
  | crashComplete live continues written fits torn complete =>
      have wrote := sound.wrote blake3 program continues written fits
      exact sound.crashComplete blake3 program live (torn.fits fits) wrote torn complete
        guarded.noDecoy (wrote.roots blake3 program sound (wrote.torn blake3 torn) guarded.roots)
  | crashCut live continues written fits torn cut =>
      have wrote := sound.wrote blake3 program continues written fits
      exact sound.crashCut blake3 program live (torn.fits fits) wrote torn guarded.noDecoy
        (guarded.ordered _ rfl cut)
  | leave live fits => exact sound.leave blake3 program live fits guarded.noDecoy
  | reopen closed resolved => exact sound.reopen blake3 program resolved

/-- Along every run of guarded steps an open selects the installed snapshot or the commit in flight
at the crash. -/
theorem reachable_selectsInstalled
    (reachable : Reachable (GuardedStart blake3 program)
      (fun before after => Step blake3 program before after ∧ Guarded blake3 program before after)
      run) :
    SelectsInstalled blake3 program run := by
  have sound := reachable.invariant (fun _ started => started.sound blake3 program)
    (fun _ _ sound taken => sound.step blake3 program taken.1 taken.2)
  exact sound.selectsInstalled blake3 program

end Runs

/-! ### Runs to evaluate -/

def acceptAll (_ : TocFooter) : Program Error Unit := .done (.ok ())

theorem acceptAll_loads (image : FileImage) (footer : TocFooter) :
    Loads (loadBy acceptAll) image footer := ⟨(), rfl⟩

def sampleStart : StoreRun := ⟨sampleBefore, [sampleLast], sampleLast, none, true⟩

theorem sampleStart_created : Created rollingHash sampleStart :=
  .create (createWithOptions_ok rollingHash sampleUuid {}) (by unfold Fits; decide +kernel)

theorem sampleStart_continues : Continues sampleStart (sampleBody 2) := ⟨rfl, rfl⟩

/-- The first commit crashed with every byte kept and this header. -/
def sampleCrash (header : Header) (uri : Bytes) : StoreRun :=
  ⟨⟨header, (sampleAfter uri).data⟩, [sampleNext uri, sampleLast], sampleLast,
    some (sampleNext uri), false⟩

theorem sampleCrash_step {header : Header} {uri : Bytes} (fits : Fits (sampleAfter uri).data)
    (torn : Torn sampleBefore (sampleAfter uri) ⟨header, (sampleAfter uri).data⟩) :
    Step rollingHash acceptAll sampleStart (sampleCrash header uri) :=
  .crashComplete rfl sampleStart_continues
    (commitPhaseWrites_ok rollingHash sampleBefore (uriSegment uri) (sampleBody 2)) fits torn
    ((sample_consistent fits).readable (sampleNext uri) List.mem_cons_self)

theorem sampleBefore_noDecoy : NoDecoy rollingHash sampleBefore [sampleLast] := by
  have readable := (sample_history.consistent rollingHash).readable
  have positions : ∀ offset ∈ magicPositions headerSize sampleBefore.data,
      offset = sampleLast.offset := by
    decide +kernel
  refine noDecoy_of_magic rollingHash readable fun position magic => Or.inl ⟨sampleLast, by simp, ?_⟩
  exact (positions _ (magicPositions_mem headerSize magic)).symm

theorem plainKey_selectsInstalled :
    SelectsInstalled rollingHash acceptAll (sampleCrash (sampleTorn plainKey).header plainKey) := by
  have started : GuardedStart rollingHash acceptAll sampleStart :=
    ⟨sampleStart_created, fun candidate anchored => sampleBefore_noDecoy candidate anchored.1,
      acceptAll_loads _ _⟩
  have complete : Complete rollingHash (sampleTorn plainKey) (sampleNext plainKey) :=
    (sample_consistent plainKey_fits).readable (sampleNext plainKey) List.mem_cons_self
  have guarded : Guarded rollingHash acceptAll sampleStart
      (sampleCrash (sampleTorn plainKey).header plainKey) := by
    refine ⟨fun candidate anchored => plainKey_noDecoy candidate anchored.1,
      fun candidate _ _ => acceptAll_loads _ _, fun next inFlight cut => ?_⟩
    obtain rfl := Option.some.inj inFlight
    exact absurd complete cut
  exact reachable_selectsInstalled rollingHash acceptAll
    (.step (.start started) ⟨sampleCrash_step plainKey_fits (sample_torn plainKey), guarded⟩)

/-- An open of a suspect file passes over the installed snapshot when another one outranks it. -/
theorem not_selectsInstalled {run : StoreRun} {genuine other : FooterCandidate}
    (lineage : Anchors rollingHash run.disk genuine)
    (miss : ∀ candidate, ¬HeaderHits rollingHash (loadBy acceptAll) run.disk candidate)
    (noWrap : ∀ offset, ¬WrapsAt run.disk.data offset)
    (outranks : ¬run.installed.before genuine) (inFlight : run.inFlight = some other)
    (cut : Anchors rollingHash run.disk other → ¬other.before genuine) :
    ¬SelectsInstalled rollingHash acceptAll run := by
  intro selects
  obtain ⟨cause, scans⟩ := resolveFooterState_miss rollingHash (loadBy acceptAll) miss (noWrap _)
  obtain ⟨offset, footer, state, recovered⟩ :=
    recoverViaScan_exists rollingHash (loadBy acceptAll) cause noWrap lineage
      (acceptAll_loads _ _)
  obtain ⟨-, anchored, -, wins⟩ :=
    (recoverViaScan_ok rollingHash (loadBy acceptAll) ⟨genuine, lineage⟩).mp recovered
  have ahead := wins genuine lineage (acceptAll_loads _ _)
  rcases selects offset footer state (by rw [scans, recovered]) with onInstalled | onNext
  · rw [onInstalled] at ahead
    exact outranks ahead
  · rw [inFlight, Option.some.injEq] at onNext
    rw [onNext] at anchored ahead
    exact cut anchored ahead

/-- The first commit crashed before its header rewrite and was abandoned by the reopen. -/
def abandonedRun : StoreRun :=
  ⟨⟨sampleBefore.header, (sampleAfter plainKey).data⟩, [sampleNext plainKey, sampleLast],
    sampleLast, none, true⟩

def retriedFooter : FooterCandidate :=
  committedFooter rollingHash abandonedRun.disk [] (sampleBody 2)

/-- The retried commit crashed with its header rewrite on disk but none of its appended bytes. -/
def resurrectedRun : StoreRun :=
  ⟨⟨{ sampleBefore.header with
      footerOffset := UInt64.ofNat retriedFooter.offset
      snapshotGeneration := 2 }, (sampleAfter plainKey).data⟩,
    [sampleNext plainKey, sampleLast], sampleLast, some retriedFooter, false⟩

theorem abandonedRun_reachable :
    Reachable (Created rollingHash) (Step rollingHash acceptAll) abandonedRun := by
  have untouched : Torn sampleBefore (sampleAfter plainKey)
      ⟨sampleBefore.header, (sampleAfter plainKey).data⟩ :=
    ⟨⟨(sampleAfter plainKey).data.length, by simp [sampleAfter], List.take_length.symm⟩,
      Or.inl rfl, Or.inl rfl, rfl⟩
  have anchored : Anchors rollingHash ⟨sampleBefore.header, (sampleAfter plainKey).data⟩
      sampleLast :=
    ⟨(sample_consistent plainKey_fits).readable sampleLast (by simp), rfl⟩
  have hit : HeaderHits rollingHash (loadBy acceptAll)
      ⟨sampleBefore.header, (sampleAfter plainKey).data⟩ sampleLast :=
    ⟨rfl, rfl, anchored, acceptAll_loads _ _⟩
  obtain ⟨state, -, resolved⟩ := resolveFooterState_hit rollingHash (loadBy acceptAll) hit
  exact .step (.step (.start sampleStart_created) (sampleCrash_step plainKey_fits untouched))
    (.reopen rfl resolved)

theorem past_end_unreadable {data : Bytes} {footer : TocFooter} :
    readTocFooter rollingHash data (fileLen data) ≠ .ok footer := by
  intro read
  obtain ⟨header, -, -, -, readHeader, -⟩ := (readTocFooter_ok rollingHash).mp read
  have inside := (readExact_ok.mp readHeader).2.1
  simp only [tocHeaderLen] at inside
  omega

theorem retriedFooter_unreadable {footer : TocFooter} :
    readTocFooter rollingHash (sampleAfter plainKey).data retriedFooter.offset ≠ .ok footer := by
  have atEnd : retriedFooter.offset = fileLen (sampleAfter plainKey).data := by
    simp [retriedFooter, committedFooter, abandonedRun]
  rw [atEnd]
  exact past_end_unreadable

theorem resurrectedRun_reachable :
    Reachable (Created rollingHash) (Step rollingHash acceptAll) resurrectedRun := by
  have written := commitPhaseWrites_ok rollingHash abandonedRun.disk [] (sampleBody 2)
  refine .step abandonedRun_reachable (.crashCut rfl ⟨rfl, rfl⟩ written ?_ ⟨?_, Or.inr rfl,
    Or.inr rfl, rfl⟩ retriedFooter_unreadable)
  · unfold Fits
    decide +kernel
  · refine ⟨(sampleAfter plainKey).data.length, Nat.le_refl _, ?_⟩
    simp [abandonedRun]

theorem resurrectedRun_selects :
    ¬SelectsInstalled rollingHash acceptAll resurrectedRun := by
  have lineage : Anchors rollingHash resurrectedRun.disk (sampleNext plainKey) :=
    ⟨(sample_consistent plainKey_fits).readable (sampleNext plainKey) (by simp), rfl⟩
  have named : resurrectedRun.disk.header.footerOffset.toNat = retriedFooter.offset := by
    decide +kernel
  refine not_selectsInstalled lineage (fun candidate hit => ?_) plainKey_noWrap (by decide) rfl
    (fun anchored => absurd anchored.1 retriedFooter_unreadable)
  have read := hit.2.2.1.1
  rw [← hit.1, named] at read
  exact retriedFooter_unreadable read

/-- A commit whose key spells a footer was acknowledged; the one after it crashed with every byte
kept and the header torn to the new generation. -/
def steeredRun : StoreRun :=
  ⟨⟨{ (sampleAfter forgedFooter).header with snapshotGeneration := 3 },
      (sampleAfter forgedFooter).data ++ [] ++ TocFooterCodec.image rollingHash (sampleBody 3)⟩,
    [committedFooter rollingHash (sampleAfter forgedFooter) [] (sampleBody 3),
      sampleNext forgedFooter, sampleLast], sampleNext forgedFooter,
    some (committedFooter rollingHash (sampleAfter forgedFooter) [] (sampleBody 3)), false⟩

theorem forgedFooter_fits : Fits (sampleAfter forgedFooter).data := by
  unfold Fits
  decide +kernel

theorem steered_fits : Fits steeredRun.disk.data := by
  unfold Fits
  decide +kernel

theorem steeredRun_complete :
    Complete rollingHash steeredRun.disk
      (committedFooter rollingHash (sampleAfter forgedFooter) [] (sampleBody 3)) := by
  have fits := steered_fits
  unfold Fits at fits
  exact committedFooter_readable rollingHash (sampleAfter forgedFooter) [] (sampleBody 3)
    (Nat.lt_trans fits (by decide))

theorem steeredRun_reachable :
    Reachable (Created rollingHash) (Step rollingHash acceptAll) steeredRun := by
  have acknowledged : Step rollingHash acceptAll sampleStart ⟨sampleAfter forgedFooter,
      [sampleNext forgedFooter, sampleLast], sampleNext forgedFooter, none, true⟩ :=
    .commit rfl sampleStart_continues
      (commitPhaseWrites_ok rollingHash sampleBefore (uriSegment forgedFooter) (sampleBody 2))
      forgedFooter_fits
  have written := commitPhaseWrites_ok rollingHash (sampleAfter forgedFooter) [] (sampleBody 3)
  refine .step (.step (.start sampleStart_created) acknowledged) (.crashComplete rfl ⟨rfl, rfl⟩
    written steered_fits ⟨⟨steeredRun.disk.data.length, ?_, List.take_length.symm⟩, Or.inl rfl,
      Or.inr rfl, rfl⟩ steeredRun_complete)
  simp [steeredRun]

theorem steeredRun_selects : ¬SelectsInstalled rollingHash acceptAll steeredRun := by
  have forged : Anchors rollingHash steeredRun.disk forgedCandidate := by
    refine ⟨?_, rfl⟩
    change readTocFooter rollingHash ((sampleAfter forgedFooter).data ++ [] ++ _) _ = _
    rw [List.append_nil]
    exact readTocFooter_append rollingHash _ forged_readable
  have readNext : Anchors rollingHash steeredRun.disk (sampleNext forgedFooter) := by
    refine ⟨?_, rfl⟩
    change readTocFooter rollingHash ((sampleAfter forgedFooter).data ++ [] ++ _) _ = _
    rw [List.append_nil]
    exact readTocFooter_append rollingHash _
      ((sample_consistent forgedFooter_fits).readable (sampleNext forgedFooter) (by simp))
  have readLast : Anchors rollingHash steeredRun.disk sampleLast := by
    refine ⟨?_, rfl⟩
    change readTocFooter rollingHash ((sampleAfter forgedFooter).data ++ [] ++ _) _ = _
    rw [List.append_nil]
    exact readTocFooter_append rollingHash _
      ((sample_consistent forgedFooter_fits).readable sampleLast (by simp))
  have named : steeredRun.disk.header.footerOffset.toNat = (sampleNext forgedFooter).offset := by
    decide +kernel
  have positions : ∀ offset ∈ magicPositions headerSize steeredRun.disk.data,
      offset = sampleLast.offset ∨ offset = forgedCandidate.offset ∨
        offset = (sampleNext forgedFooter).offset ∨
        offset = (committedFooter rollingHash (sampleAfter forgedFooter) []
          (sampleBody 3)).offset := by
    decide +kernel
  refine not_selectsInstalled forged (fun candidate hit => ?_)
    (noWrap_of_readable fun offset member => ?_) (by decide) rfl (fun _ => by decide)
  · have same := anchors_unique rollingHash hit.2.2.1 readNext (by rw [← hit.1, named])
    have generation := hit.2.1
    rw [same] at generation
    exact absurd generation (by decide)
  · rcases positions offset member with place | place | place | place
    · exact ⟨_, place ▸ readLast.1⟩
    · exact ⟨_, place ▸ forged.1⟩
    · exact ⟨_, place ▸ readNext.1⟩
    · rw [place]
      exact ⟨_, steeredRun_complete⟩

/-- Two ways to miss: an abandoned commit comes back when a retry crashes with its header rewrite
ahead of its bytes, and a stored footer is taken for a commit. -/
theorem selectsInstalled_fails :
    (Reachable (Created rollingHash) (Step rollingHash acceptAll) resurrectedRun ∧
        ¬SelectsInstalled rollingHash acceptAll resurrectedRun) ∧
      Reachable (Created rollingHash) (Step rollingHash acceptAll) steeredRun ∧
        ¬SelectsInstalled rollingHash acceptAll steeredRun :=
  ⟨⟨resurrectedRun_reachable, resurrectedRun_selects⟩, steeredRun_reachable, steeredRun_selects⟩

end Valise
