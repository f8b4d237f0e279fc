import Valise.TocIo
import Valise.Library.Ranking

/-!
Choosing the footer that anchors an open: the one the header names, or the best one a scan finds.
The loader of a footer's snapshot roots is a parameter; it sees the bytes past the header.
-/

namespace Valise

open ByteLists Outcomes Ranking

structure Header where
  formatMajor : UInt16 := 2
  formatMinor : UInt16 := 3
  fileUuid : { bytes : Bytes // bytes.length = 16 }
  flags : UInt32 := 0
  footerOffset : UInt64
  snapshotGeneration : UInt64
  featureBitmap : UInt64 := 0x00C0
  createContractDigest : Checksum
deriving DecidableEq

structure FileImage where
  header : Header
  data : Bytes
deriving DecidableEq

def Error.display : Error → String
  | .io => "io error"
  | .format message => "format error: " ++ message
  | .serde message => "serialization error: " ++ message
  | .integrity message => "integrity check failed: " ++ message
  | .unsupported message => "unsupported operation: " ++ message
  | .busy message => "resource busy: " ++ message

section Resolution

variable (blake3 : Bytes → Checksum) {σ : Type} (load : Bytes → TocFooter → Except Error σ)

def checkFooterContract (footer : TocFooter) (header : Header) : Result Unit :=
  Outcome.ensure (footer.body.createContract.digest blake3 = header.createContractDigest)
    (.integrity "create-contract digest mismatch")

/-- Votes and lowest offset seen, per contract digest. -/
structure Ballot where
  digest : Checksum
  votes : Nat
  lowest : Nat
deriving DecidableEq

def castVote (ballots : List Ballot) (digest : Checksum) (offset : Nat) : List Ballot :=
  match ballots with
  | [] => [⟨digest, 1, offset⟩]
  | ballot :: rest =>
      if ballot.digest = digest then
        ⟨digest, ballot.votes + 1, min ballot.lowest offset⟩ :: rest
      else ballot :: castVote rest digest offset

def Ballot.leads (left right : Ballot) : Bool :=
  right.votes < left.votes || (right.votes = left.votes && left.lowest ≤ right.lowest)

def leadingBallot (ballots : List Ballot) : Option Ballot :=
  (ballots.mergeSort Ballot.leads).head?

def footerConsensusCandidates (candidates : List FooterCandidate) : List FooterCandidate :=
  let digestible := candidates.map fun candidate =>
    (candidate.footer.body.createContract.digest blake3, candidate)
  match digestible with
  | [(_, candidate)] => [candidate]
  | _ =>
      let ballots := digestible.foldl
        (fun ballots (digest, candidate) => castVote ballots digest candidate.offset) []
      match leadingBallot ballots with
      | some ballot =>
          if 2 ≤ ballot.votes then
            digestible.filterMap fun (digest, candidate) =>
              if digest = ballot.digest then some candidate else none
          else []
      | none => []

/-- Highest generation first, then the later offset. -/
def FooterCandidate.before (left right : FooterCandidate) : Bool :=
  right.footer.body.snapshotGeneration < left.footer.body.snapshotGeneration ||
    (left.footer.body.snapshotGeneration = right.footer.body.snapshotGeneration &&
      right.offset ≤ left.offset)

def eligibleCandidates (header : Header) (scanned : List FooterCandidate) :
    List FooterCandidate :=
  let matching := scanned.filter fun candidate =>
    (checkFooterContract blake3 candidate.footer header).isOk
  let unanchored := scanned.filter fun candidate =>
    !(checkFooterContract blake3 candidate.footer header).isOk
  if matching = [] ∧ unanchored ≠ [] then footerConsensusCandidates blake3 unanchored
  else matching

def recoverViaScan (image : FileImage) (cause : String) : Result (Nat × TocFooter × σ) := do
  let scanned ← scanForFooterCandidates blake3 image.data
  let candidates := eligibleCandidates blake3 image.header scanned
  match best FooterCandidate.before (fun candidate => load image.data candidate.footer)
      candidates with
  | some (candidate, state) => return (candidate.offset, candidate.footer, state)
  | none =>
      .err (.integrity ("open: " ++ cause ++ "; scan-back found no recoverable snapshot"))

def readPrimary (image : FileImage) : Result TocFooter := do
  let footer ← readTocFooter blake3 image.data image.header.footerOffset.toNat
  checkFooterContract blake3 footer image.header
  return footer

def resolveFooterState (image : FileImage) : Result (Nat × TocFooter × σ) :=
  match readPrimary blake3 image with
  | .ok footer =>
      if footer.body.snapshotGeneration = image.header.snapshotGeneration then
        match load image.data footer with
        | .ok state => .ok (image.header.footerOffset.toNat, footer, state)
        | .error error =>
            recoverViaScan blake3 load image
              ("snapshot roots under the referenced footer failed to load: " ++ error.display)
      else
        recoverViaScan blake3 load image
          ("header/footer generation mismatch (header " ++
            toString image.header.snapshotGeneration ++ ", footer " ++
            toString footer.body.snapshotGeneration ++ ") — torn header rewrite suspected")
  | .err error =>
      recoverViaScan blake3 load image ("referenced footer failed validation: " ++ error.display)
  | .panic => .panic

/-! ### What a recovery selects -/

theorem FooterCandidate.before_trans (a b c : FooterCandidate) :
    a.before b → b.before c → a.before c := by
  simp only [FooterCandidate.before, Bool.or_eq_true, decide_eq_true_eq, Bool.and_eq_true,
    UInt64.lt_iff_toNat_lt, ← UInt64.toNat_inj]
  omega

theorem FooterCandidate.before_total (a b : FooterCandidate) : a.before b || b.before a := by
  simp only [FooterCandidate.before, Bool.or_eq_true, decide_eq_true_eq, Bool.and_eq_true,
    UInt64.lt_iff_toNat_lt, ← UInt64.toNat_inj]
  omega

theorem FooterCandidate.before_antisymm (a b : FooterCandidate) :
    a.before b → b.before a → a.offset = b.offset := by
  simp only [FooterCandidate.before, Bool.or_eq_true, decide_eq_true_eq, Bool.and_eq_true,
    UInt64.lt_iff_toNat_lt, ← UInt64.toNat_inj]
  omega

theorem FooterCandidate.before_self (a : FooterCandidate) : a.before a := by
  simpa using FooterCandidate.before_total a a

theorem FooterCandidate.before_of_lt {a b : FooterCandidate}
    (newer : b.footer.body.snapshotGeneration.toNat < a.footer.body.snapshotGeneration.toNat) :
    a.before b := by
  simp only [FooterCandidate.before, Bool.or_eq_true, decide_eq_true_eq, UInt64.lt_iff_toNat_lt]
  exact Or.inl newer

theorem FooterCandidate.before_of_le {a b : FooterCandidate}
    (notOlder : b.footer.body.snapshotGeneration.toNat ≤ a.footer.body.snapshotGeneration.toNat)
    (later : b.offset ≤ a.offset) : a.before b := by
  simp only [FooterCandidate.before, Bool.or_eq_true, decide_eq_true_eq, Bool.and_eq_true,
    UInt64.lt_iff_toNat_lt, ← UInt64.toNat_inj]
  omega

theorem FooterCandidate.before_generation {a b : FooterCandidate} (ahead : a.before b) :
    b.footer.body.snapshotGeneration.toNat ≤ a.footer.body.snapshotGeneration.toNat := by
  simp only [FooterCandidate.before, Bool.or_eq_true, decide_eq_true_eq, Bool.and_eq_true,
    UInt64.lt_iff_toNat_lt, ← UInt64.toNat_inj] at ahead
  omega

/-- A readable footer that carries the contract the header was stamped with. -/
def Anchors (image : FileImage) (candidate : FooterCandidate) : Prop :=
  readTocFooter blake3 image.data candidate.offset = .ok candidate.footer ∧
    candidate.footer.body.createContract.digest blake3 = image.header.createContractDigest

/-- The roots under `footer` load. -/
def Loads (image : FileImage) (footer : TocFooter) : Prop :=
  Succeeds (load image.data) footer

theorem eligible_mem {image : FileImage} {scanned : List FooterCandidate}
    (scan : scanForFooterCandidates blake3 image.data = .ok scanned)
    (lineage : ∃ candidate, Anchors blake3 image candidate) (candidate : FooterCandidate) :
    candidate ∈ eligibleCandidates blake3 image.header scanned ↔
      Anchors blake3 image candidate := by
  have matches_iff (other : FooterCandidate) :
      (checkFooterContract blake3 other.footer image.header).isOk = true ↔
        other.footer.body.createContract.digest blake3 = image.header.createContractDigest := by
    rw [Outcome.isOk_iff]
    simp [checkFooterContract]
  have member_iff (other : FooterCandidate) :
      other ∈ scanned.filter (fun candidate =>
        (checkFooterContract blake3 candidate.footer image.header).isOk) ↔
        Anchors blake3 image other := by
    rw [List.mem_filter, scanForFooterCandidates_mem blake3 scan, matches_iff, Anchors]
  obtain ⟨known, anchored⟩ := lineage
  have nonempty := List.ne_nil_of_mem ((member_iff known).mpr anchored)
  unfold eligibleCandidates
  dsimp only
  rw [if_neg (by simp [nonempty]), member_iff]

theorem anchors_unique {image : FileImage} {left right : FooterCandidate}
    (anchorsLeft : Anchors blake3 image left) (anchorsRight : Anchors blake3 image right)
    (sameOffset : left.offset = right.offset) : left = right := by
  obtain ⟨offset, footer⟩ := left
  obtain ⟨otherOffset, otherFooter⟩ := right
  simp only at sameOffset
  subst sameOffset
  have read := anchorsLeft.1
  rw [anchorsRight.1] at read
  cases read
  rfl

/-- With a footer of the file's own lineage readable, a recovery selects the best-ranked one whose
roots load, and nothing else. -/
theorem recoverViaScan_ok {image : FileImage} {cause : String}
    (lineage : ∃ candidate, Anchors blake3 image candidate) {offset : Nat} {footer : TocFooter}
    {state : σ} :
    recoverViaScan blake3 load image cause = .ok (offset, footer, state) ↔
      (∀ position, ¬WrapsAt image.data position) ∧ Anchors blake3 image ⟨offset, footer⟩ ∧
        load image.data footer = .ok state ∧
        ∀ candidate, Anchors blake3 image candidate → Loads load image candidate.footer →
          FooterCandidate.before ⟨offset, footer⟩ candidate := by
  have noTies (scanned : List FooterCandidate)
      (scan : scanForFooterCandidates blake3 image.data = .ok scanned) :
      ∀ a ∈ eligibleCandidates blake3 image.header scanned,
        ∀ b ∈ eligibleCandidates blake3 image.header scanned,
          a.before b → b.before a → a = b := by
    intro a memberA b memberB aheadA aheadB
    rw [eligible_mem blake3 scan lineage] at memberA memberB
    exact anchors_unique blake3 memberA memberB
      (FooterCandidate.before_antisymm a b aheadA aheadB)
  have ranked (scanned : List FooterCandidate)
      (scan : scanForFooterCandidates blake3 image.data = .ok scanned)
      (candidate : FooterCandidate) (value : σ) :=
    best_some (fun candidate => load image.data candidate.footer) candidate value
      FooterCandidate.before_trans FooterCandidate.before_total (noTies scanned scan)
  unfold recoverViaScan
  rw [Outcome.bind_eq_ok]
  constructor
  · rintro ⟨scanned, scan, chosen⟩
    have noWrap : ∀ position, ¬WrapsAt image.data position := by
      intro position wraps
      have aborts := (scanForFooterCandidates_panic blake3).mpr ⟨position, wraps⟩
      rw [scan] at aborts
      cases aborts
    dsimp only at chosen
    split at chosen
    · next candidate value found =>
        simp only [Outcome.pure_eq, Outcome.ok.injEq, Prod.mk.injEq] at chosen
        obtain ⟨rfl, rfl, rfl⟩ := chosen
        obtain ⟨member, loaded, wins⟩ := (ranked scanned scan candidate value).mp found
        rw [eligible_mem blake3 scan lineage] at member
        refine ⟨noWrap, member, loaded, fun other anchored loads => ?_⟩
        exact wins other ((eligible_mem blake3 scan lineage other).mpr anchored) loads
    · cases chosen
  · rintro ⟨noWrap, anchored, loaded, wins⟩
    obtain ⟨scanned, scan⟩ := scanForFooterCandidates_total blake3 noWrap
    refine ⟨scanned, scan, ?_⟩
    have found := (ranked scanned scan ⟨offset, footer⟩ state).mpr
      ⟨(eligible_mem blake3 scan lineage _).mpr anchored, loaded, fun other member loads =>
        wins other ((eligible_mem blake3 scan lineage other).mp member) loads⟩
    dsimp only
    rw [found]
    rfl

theorem recoverViaScan_exists {image : FileImage} (cause : String) {candidate : FooterCandidate}
    (noWrap : ∀ position, ¬WrapsAt image.data position)
    (anchored : Anchors blake3 image candidate) (loads : Loads load image candidate.footer) :
    ∃ offset footer state,
      recoverViaScan blake3 load image cause = .ok (offset, footer, state) := by
  obtain ⟨scanned, scan⟩ := scanForFooterCandidates_total blake3 noWrap
  have member := (eligible_mem blake3 scan ⟨candidate, anchored⟩ candidate).mpr anchored
  have succeeds : Succeeds (fun other : FooterCandidate => load image.data other.footer)
      candidate := loads
  obtain ⟨winner, state, found⟩ :=
    best_exists FooterCandidate.before member succeeds
  refine ⟨winner.offset, winner.footer, state, ?_⟩
  rw [recoverViaScan, scan, Outcome.ok_bind]
  dsimp only
  rw [found]
  rfl

/-- The header names a readable footer of its own lineage and generation whose roots load. -/
def HeaderHits (image : FileImage) (candidate : FooterCandidate) : Prop :=
  image.header.footerOffset.toNat = candidate.offset ∧
    image.header.snapshotGeneration = candidate.footer.body.snapshotGeneration ∧
    Anchors blake3 image candidate ∧ Loads load image candidate.footer

theorem readPrimary_ok {image : FileImage} {footer : TocFooter} :
    readPrimary blake3 image = .ok footer ↔
      Anchors blake3 image ⟨image.header.footerOffset.toNat, footer⟩ := by
  simp [readPrimary, Outcome.bind_eq_ok, checkFooterContract, Anchors]

theorem readPrimary_panic {image : FileImage} :
    readPrimary blake3 image = .panic ↔ WrapsAt image.data image.header.footerOffset.toNat := by
  simp [readPrimary, Outcome.bind_eq_panic, checkFooterContract, readTocFooter_panic]

theorem resolveFooterState_hit {image : FileImage} {candidate : FooterCandidate}
    (hit : HeaderHits blake3 load image candidate) :
    ∃ state, load image.data candidate.footer = .ok state ∧
      resolveFooterState blake3 load image = .ok (candidate.offset, candidate.footer, state) := by
  obtain ⟨offset, footer⟩ := candidate
  obtain ⟨named, generation, anchored, state, loaded⟩ := hit
  simp only at named generation loaded
  have primary : readPrimary blake3 image = .ok footer := by
    rw [readPrimary_ok, named]
    exact anchored
  refine ⟨state, loaded, ?_⟩
  rw [resolveFooterState, primary]
  simp only [generation, if_true, loaded, named]

theorem resolveFooterState_miss {image : FileImage}
    (miss : ∀ candidate, ¬HeaderHits blake3 load image candidate)
    (bounded : ¬WrapsAt image.data image.header.footerOffset.toNat) :
    ∃ cause, resolveFooterState blake3 load image = recoverViaScan blake3 load image cause := by
  unfold resolveFooterState
  split
  · next footer primary =>
      split
      · next generation =>
          split
          · next state loaded =>
              exact absurd ⟨rfl, generation.symm, (readPrimary_ok blake3).mp primary, state, loaded⟩
                (miss ⟨image.header.footerOffset.toNat, footer⟩)
          · exact ⟨_, rfl⟩
      · exact ⟨_, rfl⟩
  · exact ⟨_, rfl⟩
  · next aborts => exact absurd ((readPrimary_panic blake3).mp aborts) bounded

end Resolution

end Valise
