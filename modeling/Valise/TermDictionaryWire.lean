import Valise.Library.ExactCursor
import Valise.SegmentCursor
import Valise.TextState

/-!
The bytes of a term dictionary segment: the writer lays its records out, and an open walks over the
bytes without copying a term, noting where each one stands.
-/

namespace Valise

open ByteLists Commands Command Cursors Outcomes

namespace TermDictionaryCodec

open SegmentCodec

structure TermDictionarySegment where
  textSpaceId : TextSpaceId
  previousRoot : Option SegmentRef
  records : List TermDictionaryEntry
deriving DecidableEq

-- "VLTD"
def magic : Bytes := [0x56, 0x4C, 0x54, 0x44]
def version : UInt16 := 1

/-! ### Encoding -/

def writeRecord (entry : TermDictionaryEntry) : Result Bytes := do
  Outcome.ensure (entry.termBytes.length < 2 ^ 32) (.format
    s!"TermDictionaryEntry term_bytes length {entry.termBytes.length} exceeds u32")
  return writeU32 entry.termId ++ (putLittleEndian 4 entry.termBytes.length ++ (entry.termBytes ++
    (writeU64 entry.collectionFreq ++ writeU32 entry.docFreq)))

def writeRecords : List TermDictionaryEntry → Result Bytes
  | [] => return []
  | entry :: entries => do
      let first ← writeRecord entry
      let rest ← writeRecords entries
      return first ++ rest

def encodeTermDictionarySegment (segment : TermDictionarySegment) : Result Bytes := do
  Outcome.ensure (segment.records.length < 2 ^ 32) (.format
    "TermDictionarySegment record count overflow")
  let records ← writeRecords segment.records
  return magic ++ (writeU16 version ++ (writeU32 segment.textSpaceId ++
    (putLittleEndian 4 segment.records.length ++
      (writeOptionalSegmentRef segment.previousRoot ++ records))))

/-! ### The walk over one segment -/

/-- Where the bytes of a term stand in the payload. -/
structure TermDictRawSlice where
  start : UInt32
  length : UInt32
  termId : TermId
deriving DecidableEq

def headerFixed : Nat := 4 + 2 + 4 + 4

def short (place : String) (_ : Nat) : Error := .format s!"TermDictionarySegment {place}"

/-- The length of the fixed part is checked ahead, so that its numbers are always there. -/
def readFixed : Reader Nat := do
  let found ← takeBytes (short "truncated") 4
  lift (Outcome.ensure (found = magic) (.format
    s!"TermDictionarySegment magic mismatch: got {found}"))
  let foundVersion ← takeNumber (short "truncated") 2
  lift (Outcome.ensure (foundVersion = version.toNat) (.format
    s!"TermDictionarySegment version mismatch: got {foundVersion}"))
  let _textSpaceId ← takeNumber (short "truncated") 4
  takeNumber (short "truncated") 4

def readChecksum : Reader Checksum := do
  let bytes ← takeBytes (short "previous_root truncated") blake3Len
  if fits : bytes.length = blake3Len then return ⟨bytes, fits⟩
  else lift (.err (short "previous_root truncated" 0))

def readSegmentRef : Reader SegmentRef := do
  let segmentId ← takeNumber (short "previous_root truncated") 8
  let offset ← takeNumber (short "previous_root truncated") 8
  let length ← takeNumber (short "previous_root truncated") 8
  let checksum ← readChecksum
  return ⟨UInt64.ofNat segmentId, UInt64.ofNat offset, UInt64.ofNat length, checksum⟩

def readPreviousRoot : Reader (Option SegmentRef) := do
  let flag ← takeNumber (short "missing previous_root flag") 1
  if flag = 0 then return none
  else if flag = 1 then do
    let ref ← readSegmentRef
    return some ref
  else lift (.err (.format
    s!"TermDictionarySegment previous_root flag must be 0 or 1, got {flag}"))

/-- The term is skipped, and the frequencies behind it. Where it starts is kept in 32 bits. -/
def readRawSlice : Reader TermDictRawSlice := do
  let termId ← takeNumber (short "record header truncated") 4
  let termBytesLen ← takeNumber (short "record header truncated") 4
  let termStart ← position
  let _body ← takeBytes (short "record body truncated") (termBytesLen + 12)
  return ⟨UInt32.ofNat termStart, UInt32.ofNat termBytesLen, UInt32.ofNat termId⟩

def readBody : Reader (Option SegmentRef × List TermDictRawSlice) := do
  let recordCount ← readFixed
  let previousRoot ← readPreviousRoot
  reserve recordCount
  let slices ← takeMany readRawSlice recordCount
  return (previousRoot, slices)

/-- What the walk takes from one payload: the root before it, and the places of its terms. -/
def readRawSegment (payload : Bytes) : Result (Option SegmentRef × List TermDictRawSlice) := do
  Outcome.ensure (headerFixed + 1 ≤ payload.length) (short "truncated" 0)
  decodeAll (do
    let body ← readBody
    atEnd fun left => .format s!"TermDictionarySegment trailing {left} bytes after records"
    return body) payload

/-! ### What the walk accepts -/

theorem exact_fixed : Exact readFixed fun _ count bytes => ∃ textSpaceId : TextSpaceId,
    count < 2 ^ 32 ∧ bytes = magic ++ (writeU16 version ++ (writeU32 textSpaceId ++
      putLittleEndian 4 count)) := by
  refine ((exact_takeBytes _ 4).bind fun found => Exact.ensure ((exact_takeNumber _ 2).bind
    fun foundVersion => Exact.ensure ((exact_takeNumber _ 4).bind fun _ =>
      exact_takeNumber _ 4))).congr fun pos count bytes => ?_
  constructor
  · rintro ⟨_, front, _, rfl, ⟨rfl, -⟩, rfl, _, _, _, rfl, ⟨-, rfl⟩, rfl, textSpace, _, _, rfl,
      ⟨fits, rfl⟩, few, rfl⟩
    refine ⟨UInt32.ofNat textSpace, few, ?_⟩
    rw [writeU32, UInt32.toNat_ofNat_of_lt' fits]
    rfl
  · rintro ⟨textSpaceId, few, rfl⟩
    exact ⟨magic, magic, _, rfl, ⟨rfl, rfl⟩, rfl, version.toNat, _, _, rfl,
      ⟨version.toNat_lt, rfl⟩, rfl, textSpaceId.toNat, _, _, rfl, ⟨textSpaceId.toNat_lt, rfl⟩, few,
      rfl⟩

theorem exact_checksum : Exact readChecksum fun _ checksum bytes => bytes = checksum.1 := by
  have checked : ∀ bytes : Bytes, Exact
      (if fits : bytes.length = blake3Len then return (⟨bytes, fits⟩ : Checksum)
        else lift (.err (short "previous_root truncated" 0)) : Reader Checksum)
      fun _ checksum left => checksum.1 = bytes ∧ left = [] := by
    intro bytes
    by_cases fits : bytes.length = blake3Len
    · rw [dif_pos fits]
      refine (exact_pure _).congr fun _ checksum left => ?_
      rw [Subtype.ext_iff]
    · rw [dif_neg fits]
      refine (exact_lift _).congr fun _ checksum left => ?_
      constructor
      · rintro ⟨failed, -⟩
        simp only [reduceCtorEq] at failed
      · rintro ⟨same, -⟩
        exact absurd (same ▸ checksum.2) fits
  refine ((exact_takeBytes _ blake3Len).bind checked).congr fun _ checksum bytes => ?_
  constructor
  · rintro ⟨_, front, _, rfl, ⟨rfl, -⟩, rfl, rfl⟩
    rw [List.append_nil]
  · rintro rfl
    exact ⟨checksum.1, checksum.1, [], (List.append_nil _).symm, ⟨rfl, checksum.2⟩, rfl, rfl⟩

theorem exact_segmentRef : Exact readSegmentRef fun _ ref bytes => bytes = writeSegmentRef ref := by
  refine ((exact_takeNumber _ 8).bind fun segmentId => (exact_takeNumber _ 8).bind fun offset =>
    (exact_takeNumber _ 8).bind fun length => exact_checksum.map fun checksum =>
      SegmentRef.mk (UInt64.ofNat segmentId) (UInt64.ofNat offset) (UInt64.ofNat length)
        checksum).congr fun _ ref bytes => ?_
  constructor
  · rintro ⟨segmentId, _, _, rfl, ⟨idFits, rfl⟩, offset, _, _, rfl, ⟨offsetFits, rfl⟩, length, _, _,
      rfl, ⟨lengthFits, rfl⟩, checksum, rfl, rfl⟩
    simp only [writeSegmentRef, writeU64, UInt64.toNat_ofNat_of_lt' idFits,
      UInt64.toNat_ofNat_of_lt' offsetFits, UInt64.toNat_ofNat_of_lt' lengthFits, List.append_assoc]
  · rintro rfl
    refine ⟨ref.segmentId.toNat, _, _, ?_, ⟨ref.segmentId.toNat_lt, rfl⟩, ref.offset.toNat, _, _, rfl,
      ⟨ref.offset.toNat_lt, rfl⟩, ref.length.toNat, _, _, rfl, ⟨ref.length.toNat_lt, rfl⟩,
      ref.checksum, rfl, ?_⟩
    · simp only [writeSegmentRef, writeU64, List.append_assoc]
    · simp only [UInt64.ofNat_toNat]

theorem exact_previousRoot :
    Exact readPreviousRoot fun _ root bytes => bytes = writeOptionalSegmentRef root := by
  have chosen : ∀ flag : Nat, Exact
      (if flag = 0 then return none
        else if flag = 1 then do
          let ref ← readSegmentRef
          return some ref
        else lift (.err (.format
          s!"TermDictionarySegment previous_root flag must be 0 or 1, got {flag}")) :
        Reader (Option SegmentRef))
      fun _ root left => writeOptionalSegmentRef root = UInt8.ofNat flag :: left ∧ flag < 2 := by
    intro flag
    by_cases zero : flag = 0
    · subst zero
      refine (exact_pure none).congr fun _ root left => ?_
      cases root with
      | none => simp [writeOptionalSegmentRef, eq_comm]
      | some ref => simp [writeOptionalSegmentRef]
    · rw [if_neg zero]
      by_cases one : flag = 1
      · subst one
        refine (exact_segmentRef.map some).congr fun _ root left => ?_
        cases root with
        | none => simp [writeOptionalSegmentRef]
        | some ref => simp [writeOptionalSegmentRef, eq_comm]
      · rw [if_neg one]
        refine (exact_lift _).congr fun _ root left => ?_
        constructor
        · rintro ⟨failed, -⟩
          simp only [reduceCtorEq] at failed
        · rintro ⟨-, small⟩
          omega
  refine ((exact_takeNumber _ 1).bind chosen).congr fun _ root bytes => ?_
  constructor
  · rintro ⟨flag, _, left, rfl, ⟨fits, rfl⟩, written, -⟩
    have byte : putLittleEndian 1 flag = [UInt8.ofNat flag] := by
      rw [putLittleEndian, putLittleEndian, Nat.mod_eq_of_lt (Nat.pow_one 256 ▸ fits)]
    rw [byte, written, List.singleton_append]
  · rintro rfl
    cases root with
    | none => exact ⟨0, _, [], rfl, ⟨by decide, rfl⟩, rfl, by decide⟩
    | some ref => exact ⟨1, _, writeSegmentRef ref, rfl, ⟨by decide, rfl⟩, rfl, by decide⟩

def recordBytes (entry : TermDictionaryEntry) : Bytes :=
  writeU32 entry.termId ++ (putLittleEndian 4 entry.termBytes.length ++ (entry.termBytes ++
    (writeU64 entry.collectionFreq ++ writeU32 entry.docFreq)))

theorem writeRecord_eq_ok {entry : TermDictionaryEntry} {bytes : Bytes} :
    writeRecord entry = .ok bytes ↔
      entry.termBytes.length < 2 ^ 32 ∧ bytes = recordBytes entry := by
  simp only [writeRecord, Outcome.bind_eq_ok, Outcome.ensure_eq_ok, Outcome.pure_eq,
    Outcome.ok.injEq, recordBytes]
  constructor
  · rintro ⟨-, fits, rfl⟩
    exact ⟨fits, rfl⟩
  · rintro ⟨fits, rfl⟩
    exact ⟨(), fits, rfl⟩

theorem recordBytes_length (entry : TermDictionaryEntry) :
    (recordBytes entry).length = 8 + (entry.termBytes.length + 12) := by
  simp only [recordBytes, writeU32, writeU64, List.length_append, putLittleEndian_length]
  omega

/-- The place of a record's term, when the record starts at `pos`. -/
def rawSlice (pos : Nat) (entry : TermDictionaryEntry) : TermDictRawSlice :=
  ⟨UInt32.ofNat (pos + 8), UInt32.ofNat entry.termBytes.length, entry.termId⟩

def rawSlices : Nat → List TermDictionaryEntry → List TermDictRawSlice
  | _, [] => []
  | pos, entry :: entries =>
      rawSlice pos entry :: rawSlices (pos + (recordBytes entry).length) entries

/-- Behind the number of a record and the length of its term come the term and its frequencies,
which the walk does not look at. -/
theorem exact_rawSlice : Exact readRawSlice fun pos raw bytes =>
    ∃ entry, writeRecord entry = .ok bytes ∧ raw = rawSlice pos entry := by
  refine ((exact_takeNumber _ 4).bind fun termId => (exact_takeNumber _ 4).bind fun length =>
    exact_position.bind fun start => (exact_takeBytes _ (length + 12)).map fun _ =>
      TermDictRawSlice.mk (UInt32.ofNat start) (UInt32.ofNat length)
        (UInt32.ofNat termId)).congr fun pos raw bytes => ?_
  constructor
  · rintro ⟨termId, _, _, rfl, ⟨idFits, rfl⟩, length, _, _, rfl, ⟨lengthFits, rfl⟩, start, _, body,
      rfl, ⟨rfl, rfl⟩, _, ⟨-, counted⟩, rfl⟩
    have term : (body.take length).length = length := by
      rw [List.length_take]
      omega
    have freqs : (body.drop length).length = 12 := by
      rw [List.length_drop]
      omega
    refine ⟨⟨UInt32.ofNat termId, body.take length,
      UInt64.ofNat (getLittleEndian ((body.drop length).take 8)),
      UInt32.ofNat (getLittleEndian ((body.drop length).drop 8))⟩, ?_, ?_⟩
    · have low := getLittleEndian_lt ((body.drop length).take 8)
      have high := getLittleEndian_lt ((body.drop length).drop 8)
      have eight : ((body.drop length).take 8).length = 8 := by
        rw [List.length_take]
        omega
      have four : ((body.drop length).drop 8).length = 4 := by
        rw [List.length_drop]
        omega
      have whole := putLittleEndian_get ((body.drop length).take 8)
      have rest := putLittleEndian_get ((body.drop length).drop 8)
      rw [eight] at low whole
      rw [four] at high rest
      refine writeRecord_eq_ok.mpr ⟨by rwa [term], ?_⟩
      simp only [recordBytes, writeU32, writeU64, term, UInt32.toNat_ofNat_of_lt' idFits,
        UInt64.toNat_ofNat_of_lt' low, UInt32.toNat_ofNat_of_lt' high, whole, rest,
        List.take_append_drop, List.nil_append]
    · simp only [rawSlice, term, putLittleEndian_length, Nat.add_assoc]
  · rintro ⟨entry, written, rfl⟩
    obtain ⟨fits, rfl⟩ := writeRecord_eq_ok.mp written
    have skipped : (entry.termBytes ++ (writeU64 entry.collectionFreq ++
        writeU32 entry.docFreq)).length = entry.termBytes.length + 12 := by
      simp only [writeU64, writeU32, List.length_append, putLittleEndian_length]
    refine ⟨entry.termId.toNat, writeU32 entry.termId, _, rfl, ⟨entry.termId.toNat_lt, rfl⟩,
      entry.termBytes.length, _, _, rfl, ⟨fits, rfl⟩, pos + 8, [], _, rfl, ⟨?_, rfl⟩, _, ⟨rfl, skipped⟩,
      ?_⟩
    · simp only [writeU32, putLittleEndian_length, Nat.add_assoc]
    · simp only [rawSlice, UInt32.ofNat_toNat]

theorem spellsMany_rawSlices {pos : Nat} {raws : List TermDictRawSlice} {bytes : Bytes} :
    SpellsMany (fun pos raw bytes => ∃ entry, writeRecord entry = .ok bytes ∧
      raw = rawSlice pos entry) pos raws bytes ↔
      ∃ records, writeRecords records = .ok bytes ∧ raws = rawSlices pos records := by
  induction raws generalizing pos bytes with
  | nil =>
      constructor
      · rintro rfl
        exact ⟨[], rfl, rfl⟩
      · rintro ⟨records, written, none⟩
        cases records with
        | nil => exact (Outcome.ok.inj written).symm
        | cons entry records => exact absurd none (List.cons_ne_nil _ _).symm
  | cons raw raws ih =>
      constructor
      · rintro ⟨front, back, rfl, ⟨entry, first, rfl⟩, many⟩
        obtain ⟨records, rest, rfl⟩ := ih.mp many
        have same := (writeRecord_eq_ok.mp first).2
        refine ⟨entry :: records, ?_, by rw [rawSlices, same]⟩
        simp only [writeRecords, first, rest, Outcome.ok_bind, Outcome.pure_eq]
      · rintro ⟨records, written, same⟩
        cases records with
        | nil => exact absurd same (List.cons_ne_nil _ _)
        | cons entry records =>
            obtain ⟨rfl, rfl⟩ := List.cons.inj same
            obtain ⟨front, first, more⟩ := Outcome.bind_eq_ok.mp written
            obtain ⟨back, rest, whole⟩ := Outcome.bind_eq_ok.mp more
            refine ⟨front, back, (Outcome.ok.inj whole).symm, ⟨entry, first, rfl⟩, ?_⟩
            exact ih.mpr ⟨records, rest, by rw [(writeRecord_eq_ok.mp first).2]⟩

theorem rawSlices_length (pos : Nat) (records : List TermDictionaryEntry) :
    (rawSlices pos records).length = records.length := by
  induction records generalizing pos with
  | nil => rfl
  | cons entry records ih => rw [rawSlices, List.length_cons, ih, List.length_cons]

theorem fixed_length (textSpaceId : TextSpaceId) (count : Nat) :
    (magic ++ (writeU16 version ++ (writeU32 textSpaceId ++ putLittleEndian 4 count))).length =
      headerFixed := by
  simp only [magic, writeU16, writeU32, List.length_append, putLittleEndian_length]
  rfl

/-- Where the records of a segment start. -/
def recordsStart (previousRoot : Option SegmentRef) : Nat :=
  headerFixed + (writeOptionalSegmentRef previousRoot).length

theorem exact_body : Exact readBody fun pos body bytes => ∃ segment,
    encodeTermDictionarySegment segment = .ok bytes ∧ body =
      (segment.previousRoot, rawSlices (pos + recordsStart segment.previousRoot) segment.records) := by
  refine (exact_fixed.bind fun count => exact_previousRoot.bind fun root =>
    (exact_reserve count).bind fun _ => (exact_takeMany exact_rawSlice count).map fun slices =>
      (root, slices)).congr fun pos body bytes => ?_
  constructor
  · rintro ⟨count, _, _, rfl, ⟨textSpaceId, few, rfl⟩, root, _, _, rfl, rfl, _, _, _, rfl, ⟨-, rfl⟩,
      slices, ⟨counted, many⟩, rfl⟩
    obtain ⟨records, written, rfl⟩ := spellsMany_rawSlices.mp many
    rw [rawSlices_length] at counted
    subst counted
    refine ⟨⟨textSpaceId, root, records⟩, ?_, ?_⟩
    · simp only [encodeTermDictionarySegment, Outcome.ensure_true _ few, written, Outcome.ok_bind,
        Outcome.pure_eq, List.append_assoc, List.nil_append]
    · rw [fixed_length, List.length_nil, Nat.add_zero, recordsStart, Nat.add_assoc]
  · rintro ⟨⟨textSpaceId, root, records⟩, encoded, rfl⟩
    obtain ⟨_, few, more⟩ := Outcome.bind_eq_ok.mp encoded
    obtain ⟨written, records_ok, whole⟩ := Outcome.bind_eq_ok.mp more
    obtain rfl := Outcome.ok.inj whole
    refine ⟨records.length, _, writeOptionalSegmentRef root ++ written, ?_,
      ⟨textSpaceId, Outcome.ensure_eq_ok.mp few, rfl⟩, root, _, written, rfl, rfl, (), [], written, rfl,
      ⟨trivial, rfl⟩, _, ⟨rawSlices_length _ _, spellsMany_rawSlices.mpr ⟨records, records_ok, rfl⟩⟩, ?_⟩
    · simp only [List.append_assoc]
    · rw [fixed_length, List.length_nil, Nat.add_zero, recordsStart, Nat.add_assoc]

theorem readRawSegment_encode {segment : TermDictionarySegment} {payload : Bytes}
    (encoded : encodeTermDictionarySegment segment = .ok payload) : readRawSegment payload =
      .ok (segment.previousRoot, rawSlices (recordsStart segment.previousRoot) segment.records) := by
  refine Outcome.bind_eq_ok.mpr ⟨(), Outcome.ensure_eq_ok.mpr ?_, exact_body.decodeAll_eq_ok.mpr
    ⟨segment, encoded, by rw [Nat.zero_add]⟩⟩
  obtain ⟨_, -, more⟩ := Outcome.bind_eq_ok.mp encoded
  obtain ⟨written, -, whole⟩ := Outcome.bind_eq_ok.mp more
  obtain rfl := Outcome.ok.inj whole
  have flag : 0 < (writeOptionalSegmentRef segment.previousRoot).length := by
    cases segment.previousRoot with
    | none => decide
    | some ref => exact Nat.succ_pos _
  have fixed := fixed_length segment.textSpaceId segment.records.length
  simp only [List.length_append] at fixed ⊢
  omega

/-- The walk takes a payload exactly when it is a segment that the encoder writes, and then gets
the root before it and the place of every term: it refuses what is cut short, what has bytes left
over and what no writer laid out. -/
theorem readRawSegment_ok_iff {payload : Bytes} {previousRoot : Option SegmentRef}
    {slices : List TermDictRawSlice} : readRawSegment payload = .ok (previousRoot, slices) ↔
      ∃ segment, encodeTermDictionarySegment segment = .ok payload ∧
        previousRoot = segment.previousRoot ∧
        slices = rawSlices (recordsStart segment.previousRoot) segment.records := by
  constructor
  · intro read
    obtain ⟨_, -, decoded⟩ := Outcome.bind_eq_ok.mp read
    obtain ⟨segment, encoded, same⟩ := exact_body.decodeAll_eq_ok.mp decoded
    rw [Nat.zero_add] at same
    obtain ⟨rfl, rfl⟩ := Prod.mk.inj same
    exact ⟨segment, encoded, rfl, rfl⟩
  · rintro ⟨segment, encoded, rfl, rfl⟩
    exact readRawSegment_encode encoded

/-! ### The terms behind the places -/

/-- The bytes of a term, as a lookup takes them from the payload that is kept. -/
def termAt (payload : Bytes) (raw : TermDictRawSlice) : Bytes × TermId :=
  (slice payload raw.start.toNat raw.length.toNat, raw.termId)

theorem termAt_rawSlices {records : List TermDictionaryEntry} {written : Bytes} (front : Bytes)
    (encoded : writeRecords records = .ok written) (fits : (front ++ written).length < 2 ^ 32) :
    (rawSlices front.length records).map (termAt (front ++ written)) =
      records.map fun entry => (entry.termBytes, entry.termId) := by
  induction records generalizing front written with
  | nil => rfl
  | cons entry records ih =>
      obtain ⟨first, firstWritten, more⟩ := Outcome.bind_eq_ok.mp encoded
      obtain ⟨rest, restWritten, whole⟩ := Outcome.bind_eq_ok.mp more
      obtain ⟨short, rfl⟩ := writeRecord_eq_ok.mp firstWritten
      obtain rfl := Outcome.ok.inj whole
      have later := ih (front ++ recordBytes entry) restWritten (by rwa [List.append_assoc])
      rw [List.append_assoc, List.length_append] at later
      have inside : front.length + 8 < 2 ^ 32 := by
        rw [List.length_append, List.length_append, recordBytes_length] at fits
        omega
      have start : (UInt32.ofNat (front.length + 8)).toNat = front.length + 8 :=
        UInt32.toNat_ofNat_of_lt' inside
      have length : (UInt32.ofNat entry.termBytes.length).toNat = entry.termBytes.length :=
        UInt32.toNat_ofNat_of_lt' short
      have eight : (writeU32 entry.termId ++ putLittleEndian 4 entry.termBytes.length).length = 8 := by
        simp only [writeU32, List.length_append, putLittleEndian_length]
      have here : slice (front ++ (recordBytes entry ++ rest)) (front.length + 8)
          entry.termBytes.length = entry.termBytes := by
        rw [slice_append_right, recordBytes, ← List.append_assoc (writeU32 entry.termId),
          List.append_assoc, ← eight, ← Nat.add_zero (List.length (writeU32 entry.termId ++ _)),
          slice_append_right, List.append_assoc, slice_append_left _ _ _ _ (by omega), slice,
          List.drop_zero, List.take_length]
      rw [rawSlices, List.map_cons, List.map_cons, later, rawSlice, termAt, start, length, here]

/-- A lookup finds every term of a segment where the walk noted it, unless the segment takes more
than 32 bits to address. -/
theorem termAt_walked {segment : TermDictionarySegment} {payload : Bytes}
    (encoded : encodeTermDictionarySegment segment = .ok payload) (fits : payload.length < 2 ^ 32) :
    (rawSlices (recordsStart segment.previousRoot) segment.records).map (termAt payload) =
      segment.records.map fun entry => (entry.termBytes, entry.termId) := by
  obtain ⟨_, -, more⟩ := Outcome.bind_eq_ok.mp encoded
  obtain ⟨written, recordsWritten, whole⟩ := Outcome.bind_eq_ok.mp more
  obtain rfl := Outcome.ok.inj whole
  have apart : magic ++ (writeU16 version ++ (writeU32 segment.textSpaceId ++
      (putLittleEndian 4 segment.records.length ++
        (writeOptionalSegmentRef segment.previousRoot ++ written)))) =
      (magic ++ (writeU16 version ++ (writeU32 segment.textSpaceId ++
        putLittleEndian 4 segment.records.length))) ++
        writeOptionalSegmentRef segment.previousRoot ++ written := by
    simp only [List.append_assoc]
  have start : recordsStart segment.previousRoot =
      ((magic ++ (writeU16 version ++ (writeU32 segment.textSpaceId ++
        putLittleEndian 4 segment.records.length))) ++
          writeOptionalSegmentRef segment.previousRoot).length := by
    rw [List.length_append, fixed_length, recordsStart]
  rw [apart] at fits ⊢
  rw [start]
  exact termAt_rawSlices _ recordsWritten fits

end TermDictionaryCodec

end Valise
