import Valise.Format

/-!
Posting lists of one term and the postings segment that carries them: a directory of fixed-size
entries over one blob, each term's postings packed as frame gaps with the exceptional term
frequencies listed after them.
-/

namespace Valise

open ByteLists Outcomes Wire

abbrev TermId := UInt32

structure Posting where
  frameId : FrameId
  collectionId : CollectionId
  fieldMask : UInt32
  termFreq : UInt32
deriving DecidableEq, Repr

structure PostingList where
  termId : TermId
  df : UInt32
  postings : List Posting
deriving DecidableEq, Repr

/-- The decoded columns of one term, row by row. -/
structure PostingListSoaDecoded where
  termId : TermId
  df : UInt32
  rows : List Posting
deriving DecidableEq, Repr

def writeVarintU64 (value : Nat) : Bytes := putBase128 10 value

def readVarintU64 (bytes : Bytes) : Result (Nat × Bytes) :=
  match getBase128 0 0 bytes with
  | some read => .ok read
  | none => .err (.format "PostingsSegment: varint u64 exceeds 64 bits")

@[simp] theorem readVarintU64_write (value : Nat) (rest : Bytes) (fits : value < 2 ^ 64) :
    readVarintU64 (writeVarintU64 value ++ rest) = .ok (value, rest) := by
  have read := getBase128_put 10 0 value 0 rest (by decide) (by omega) (by decide) (by simpa using fits)
  simp only [readVarintU64, writeVarintU64, read]
  simp

/-! ### One term's blob -/

def encodeGaps (termId : TermId) : Nat → FrameId → List Posting → Result Bytes
  | _, _, [] => return []
  | ordinal, prev, posting :: postings => do
      Outcome.ensure (ordinal = 0 ∨ prev < posting.frameId) (.format
        s!"PostingsSegment: postings within a list must be ascending by frame_id (term_id={termId}, ordinal={ordinal}, frame_id={posting.frameId}, prev={prev})")
      let gap := posting.frameId.toNat - prev.toNat
      Outcome.ensure (gap < 2 ^ 63) (.format
        s!"PostingsSegment: gap {gap} exceeds 2^63 — cannot pack the tf-exception flag bit")
      let tfFlag := if 1 < posting.termFreq then 1 else 0
      let rest ← encodeGaps termId (ordinal + 1) posting.frameId postings
      return writeVarintU64 (2 * gap + tfFlag) ++ rest

def encodeTermFreqs (termId : TermId) : List Posting → Result Bytes
  | [] => return []
  | posting :: postings =>
      if 1 < posting.termFreq then do
        let rest ← encodeTermFreqs termId postings
        return writeVarintU64 posting.termFreq.toNat ++ rest
      else if posting.termFreq = 0 then
        .err (.format
          s!"PostingsSegment: term_freq 0 is invalid (term_id={termId}, frame_id={posting.frameId})")
      else encodeTermFreqs termId postings

def encodePostingBlob (list : PostingList) : Result Bytes := do
  Outcome.ensure (list.postings.length < 2 ^ 32) (.format "PostingList posting count overflow")
  let gaps ← encodeGaps list.termId 0 0 list.postings
  let freqs ← encodeTermFreqs list.termId list.postings
  return writeVarintU64 list.postings.length ++ gaps ++ freqs ++
    list.postings.flatMap (fun posting => writeVarintU64 posting.collectionId.toNat) ++
    list.postings.flatMap (fun posting => writeVarintU64 posting.fieldMask.toNat) ++ [0]

def readGaps : Nat → FrameId → Nat → Bytes → Result (List (FrameId × Bool) × Bytes)
  | _, _, 0, bytes => return ([], bytes)
  | ordinal, prev, count + 1, bytes => do
      let (packed, bytes) ← readVarintU64 bytes
      Outcome.ensure (prev.toNat + packed / 2 < 2 ^ 64) (.format
        "PostingsSegment: frame_id overflow")
      let frameId := UInt64.ofNat (prev.toNat + packed / 2)
      let flagged : Bool := packed % 2 = 1
      Outcome.ensure (flagged → ordinal < 2 ^ 32) (.format
        "PostingsSegment: too many tf-exception rows")
      let (rows, bytes) ← readGaps (ordinal + 1) frameId count bytes
      return ((frameId, flagged) :: rows, bytes)

def readTermFreqs (termId : TermId) : Nat → List (FrameId × Bool) → Bytes →
    Result (List UInt32 × Bytes)
  | _, [], bytes => return ([], bytes)
  | ordinal, (_, false) :: rows, bytes => do
      let (freqs, bytes) ← readTermFreqs termId (ordinal + 1) rows bytes
      return (1 :: freqs, bytes)
  | ordinal, (_, true) :: rows, bytes => do
      let (tf, bytes) ← readVarintU64 bytes
      Outcome.ensure (tf < 2 ^ 32) (.format
        s!"PostingsSegment: term_freq exception {tf} exceeds u32")
      Outcome.ensure (1 < tf) (.format
        s!"PostingsSegment: tf-exception stream value {tf} must be >= 2 (term_id={termId}, ordinal={ordinal})")
      let (freqs, bytes) ← readTermFreqs termId (ordinal + 1) rows bytes
      return (UInt32.ofNat tf :: freqs, bytes)

def readColumn (field : String) : Nat → Bytes → Result (List UInt32 × Bytes)
  | 0, bytes => return ([], bytes)
  | count + 1, bytes => do
      let (value, bytes) ← readVarintU64 bytes
      Outcome.ensure (value < 2 ^ 32) (.format s!"PostingsSegment: {field} {value} exceeds u32")
      let (values, bytes) ← readColumn field count bytes
      return (UInt32.ofNat value :: values, bytes)

def zipColumns : List (FrameId × Bool) → List UInt32 → List UInt32 → List UInt32 → List Posting
  | (frameId, _) :: rows, tf :: freqs, collectionId :: collections, fieldMask :: masks =>
      ⟨frameId, collectionId, fieldMask, tf⟩ :: zipColumns rows freqs collections masks
  | _, _, _, _ => []

def decodeTermBlobInto (termId : TermId) (df : UInt32) (blob : Bytes) :
    Result PostingListSoaDecoded := do
  let (count, bytes) ← readVarintU64 blob
  let (rows, bytes) ← readGaps 0 0 count bytes
  let (freqs, bytes) ← readTermFreqs termId 0 rows bytes
  let (collections, bytes) ← readColumn "collection_id" count bytes
  let (masks, bytes) ← readColumn "field_mask" count bytes
  match bytes with
  | [] => .err (.format "PostingsSegment truncated")
  | present :: rest =>
      Outcome.ensure (present = 0) (.unsupported
        s!"PostingsSegment: positions are reserved (positions_present byte = {present})")
      Outcome.ensure (rest = []) (.format
        s!"PostingsSegment: term blob has {rest.length} trailing bytes")
      return ⟨termId, df, zipColumns rows freqs collections masks⟩

/-- A row as the gap stream shows it: its frame, and whether its frequency is listed later. -/
def Posting.flagged (posting : Posting) : FrameId × Bool :=
  (posting.frameId, decide (1 < posting.termFreq))

theorem readGaps_encode {termId : TermId} {postings : List Posting} {ordinal : Nat}
    {prev : FrameId} {gaps : Bytes} (rest : Bytes)
    (atMost : ordinal = 0 → prev = 0) (counted : ordinal + postings.length ≤ 2 ^ 32)
    (encoded : encodeGaps termId ordinal prev postings = .ok gaps) :
    readGaps ordinal prev postings.length (gaps ++ rest) =
      .ok (postings.map Posting.flagged, rest) := by
  induction postings generalizing ordinal prev gaps with
  | nil =>
      simp only [encodeGaps, Outcome.pure_eq, Outcome.ok.injEq] at encoded
      subst encoded
      rfl
  | cons posting postings ih =>
      simp only [encodeGaps, Outcome.bind_eq_ok, Outcome.ensure_eq_ok, Outcome.pure_eq,
        Outcome.ok.injEq] at encoded
      obtain ⟨_, ascends, _, small, tail, tailEncoded, joined⟩ := encoded
      have notAfter : prev.toNat ≤ posting.frameId.toNat := by
        rcases ascends with first | later
        · rw [atMost first]
          exact Nat.zero_le _
        · exact Nat.le_of_lt (UInt64.lt_iff_toNat_lt.mp later)
      have bound := posting.frameId.toNat_lt
      simp only [List.length_cons] at counted
      have rows := @ih (ordinal + 1) _ _ (by omega) (by omega) tailEncoded
      subst joined
      simp only [List.length_cons, readGaps, List.append_assoc]
      have flagSmall : (if 1 < posting.termFreq then 1 else 0) < 2 := by
        split <;> decide
      generalize flagValue : (if 1 < posting.termFreq then 1 else 0) = flag at flagSmall
      have half : (2 * (posting.frameId.toNat - prev.toNat) + flag) / 2 =
          posting.frameId.toNat - prev.toNat := by omega
      have sum : prev.toNat + (posting.frameId.toNat - prev.toNat) = posting.frameId.toNat := by
        omega
      have parity : (2 * (posting.frameId.toNat - prev.toNat) + flag) % 2 = flag := by omega
      have listed : decide (flag = 1) = decide (1 < posting.termFreq) := by
        rw [← flagValue]
        by_cases large : 1 < posting.termFreq <;> simp [large]
      rw [readVarintU64_write _ _ (by omega)]
      simp only [Outcome.ok_bind, half, sum, parity, UInt64.ofNat_toNat]
      rw [Outcome.ensure_true _ (by simpa using bound), Outcome.ok_bind,
        Outcome.ensure_true _ (fun _ => by omega), Outcome.ok_bind, rows]
      simp [Posting.flagged, listed]

theorem readTermFreqs_encode {termId : TermId} {postings : List Posting} {freqs : Bytes}
    (ordinal : Nat) (rest : Bytes) (encoded : encodeTermFreqs termId postings = .ok freqs) :
    readTermFreqs termId ordinal (postings.map Posting.flagged) (freqs ++ rest) =
      .ok (postings.map Posting.termFreq, rest) := by
  induction postings generalizing ordinal freqs with
  | nil =>
      simp only [encodeTermFreqs, Outcome.pure_eq, Outcome.ok.injEq] at encoded
      subst encoded
      rfl
  | cons posting postings ih =>
      simp only [encodeTermFreqs] at encoded
      by_cases listed : 1 < posting.termFreq
      · rw [if_pos listed] at encoded
        obtain ⟨tail, tailEncoded, joined⟩ := Outcome.bind_eq_ok.mp encoded
        simp only [Outcome.pure_eq, Outcome.ok.injEq] at joined
        subst joined
        have large : 1 < posting.termFreq.toNat := UInt32.lt_iff_toNat_lt.mp listed
        have bound := posting.termFreq.toNat_lt
        simp only [List.map_cons, Posting.flagged, listed, decide_true, readTermFreqs,
          List.append_assoc]
        rw [readVarintU64_write _ _ (by omega), Outcome.ok_bind]
        rw [Outcome.ensure_true _ (by simpa using bound), Outcome.ok_bind,
          Outcome.ensure_true _ large, Outcome.ok_bind]
        have columns := ih (ordinal + 1) tailEncoded
        rw [columns]
        simp
      · rw [if_neg listed] at encoded
        split at encoded
        · simp at encoded
        · rename_i positive
          have one : posting.termFreq = 1 := by
            have small : ¬1 < posting.termFreq.toNat := fun large =>
              listed (UInt32.lt_iff_toNat_lt.mpr large)
            have nonzero : posting.termFreq.toNat ≠ 0 := fun zero =>
              positive (UInt32.toNat_inj.mp zero)
            apply UInt32.toNat_inj.mp
            have : (1 : UInt32).toNat = 1 := rfl
            omega
          have columns := ih (ordinal + 1) encoded
          simp only [List.map_cons, Posting.flagged, listed, decide_false, readTermFreqs, columns]
          simp [one]

theorem readColumn_encode (field : String) (column : Posting → UInt32) (postings : List Posting)
    (rest : Bytes) :
    readColumn field postings.length
      (postings.flatMap (fun posting => writeVarintU64 (column posting).toNat) ++ rest) =
      .ok (postings.map column, rest) := by
  induction postings with
  | nil => rfl
  | cons posting postings ih =>
      have bound := (column posting).toNat_lt
      simp only [List.length_cons, readColumn, List.flatMap_cons, List.append_assoc]
      rw [readVarintU64_write _ _ (by omega)]
      simp only [Outcome.ok_bind]
      rw [Outcome.ensure_true _ (by simpa using bound), Outcome.ok_bind, ih]
      simp

theorem zipColumns_map (postings : List Posting) :
    zipColumns (postings.map Posting.flagged) (postings.map Posting.termFreq)
      (postings.map Posting.collectionId) (postings.map Posting.fieldMask) = postings := by
  induction postings with
  | nil => rfl
  | cons posting postings ih =>
      simp only [List.map_cons, Posting.flagged, zipColumns]
      rw [ih]

/-- What the encoder accepts, the lazy decoder gives back. -/
theorem decodeTermBlobInto_encode {list : PostingList} {blob : Bytes} (df : UInt32)
    (encoded : encodePostingBlob list = .ok blob) :
    decodeTermBlobInto list.termId df blob = .ok ⟨list.termId, df, list.postings⟩ := by
  simp only [encodePostingBlob, Outcome.bind_eq_ok, Outcome.ensure_eq_ok, Outcome.pure_eq,
    Outcome.ok.injEq] at encoded
  obtain ⟨_, counted, gaps, gapsEncoded, freqs, freqsEncoded, joined⟩ := encoded
  subst joined
  simp only [decodeTermBlobInto, List.append_assoc]
  rw [readVarintU64_write _ _ (by omega)]
  simp only [Outcome.ok_bind]
  rw [readGaps_encode _ (fun _ => rfl) (by omega) gapsEncoded]
  simp only [Outcome.ok_bind]
  rw [readTermFreqs_encode 0 _ freqsEncoded]
  simp only [Outcome.ok_bind]
  rw [readColumn_encode "collection_id" Posting.collectionId]
  simp only [Outcome.ok_bind]
  rw [readColumn_encode "field_mask" Posting.fieldMask]
  simp [Outcome.ensure_true, zipColumns_map]

end Valise
