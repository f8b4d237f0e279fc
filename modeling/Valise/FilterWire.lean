import Valise.Library.BinarySearch
import Valise.SegmentColumns

/-!
The bytes of a collection filter segment: the ids of a side as gaps or as runs of consecutive ids,
whichever is shorter, and what a decoder makes of bytes that the encoder may not have written.
-/

namespace Valise

open ByteLists Columns Commands Command Cursors Outcomes Wire

namespace FilterCodec

open SegmentCodec

structure CollectionFilterSegment where
  collectionId : CollectionId
  frameIds : List Nat
  vectorIds : List Nat
  previousRoot : Option SegmentRef
deriving DecidableEq

def segmentName : String := "CollectionFilterSegment"

def magic : Bytes := [0x56, 0x4C, 0x43, 0x46]
def version : UInt16 := 2
def encodingSortedPostings : UInt8 := 0
def encodingRuns : UInt8 := 1

/-! ### Encoding -/

def encodeSortedPostings (ids : List Nat) : Bytes := (steps 0 ids).flatMap writeUvarint

/-- Maximal sequences of consecutive ids, as where they start and how long they are. -/
def idRuns : List Nat → List (Nat × Nat)
  | [] => []
  | id :: ids =>
      match idRuns ids with
      | (start, length) :: rest =>
          if start = id + 1 then (id, length + 1) :: rest else (id, 1) :: (start, length) :: rest
      | [] => [(id, 1)]

def writeIdRuns : Nat → List (Nat × Nat) → Result Bytes
  | _, [] => return []
  | prevEnd, (start, length) :: rest => do
      Outcome.ensure (prevEnd ≤ start) (.format "CollectionFilterSegment runs not monotone")
      Outcome.ensure (start + length < 2 ^ 64) (.format "CollectionFilterSegment run end overflow")
      let later ← writeIdRuns (start + length) rest
      return writeUvarint (start - prevEnd) ++ (writeUvarint length ++ later)

def encodeRuns (ids : List Nat) : Result Bytes := do
  Outcome.ensure ((idRuns ids).length < 2 ^ 32) (.format
    "CollectionFilterSegment run count overflow")
  let body ← writeIdRuns 0 (idRuns ids)
  return putLittleEndian 4 (idRuns ids).length ++ body

def StrictlySorted (ids : List Nat) : Prop := ids.Pairwise (· < ·)

instance (ids : List Nat) : Decidable (StrictlySorted ids) :=
  inferInstanceAs (Decidable (List.Pairwise _ ids))

/-- The shorter of the two forms of one side. -/
def encodeSide (ids : List Nat) : Result (UInt8 × Bytes) := do
  let runs ← encodeRuns ids
  if runs.length < (encodeSortedPostings ids).length then return (encodingRuns, runs)
  else return (encodingSortedPostings, encodeSortedPostings ids)

/-- The form of the frames in the low half of a byte, that of the vectors in the high half. -/
def packEncodings (frameEnc vectorEnc : UInt8) : UInt8 :=
  (frameEnc &&& (0x0F : UInt8)) ||| ((vectorEnc &&& (0x0F : UInt8)) <<< (4 : UInt8))

def encodeCollectionFilterSegment (segment : CollectionFilterSegment) : Result Bytes := do
  Outcome.ensure (StrictlySorted segment.frameIds) (.format
    "CollectionFilterSegment frame_ids must be strictly sorted ascending")
  Outcome.ensure (StrictlySorted segment.vectorIds) (.format
    "CollectionFilterSegment vector_ids must be strictly sorted ascending")
  let (frameEnc, frameBody) ← encodeSide segment.frameIds
  let (vectorEnc, vectorBody) ← encodeSide segment.vectorIds
  Outcome.ensure (segment.frameIds.length < 2 ^ 32) (.format
    "CollectionFilterSegment frame count overflow")
  Outcome.ensure (segment.vectorIds.length < 2 ^ 32) (.format
    "CollectionFilterSegment vector count overflow")
  return magic ++ (writeU16 version ++ ([packEncodings frameEnc vectorEnc] ++
    ([0] ++ (writeU32 segment.collectionId ++ (putLittleEndian 4 segment.frameIds.length ++
      (putLittleEndian 4 segment.vectorIds.length ++ (writeOptionalSegmentRef segment.previousRoot ++
        (frameBody ++ vectorBody))))))))

/-! ### Decoding -/

def readVarint : Reader Nat :=
  readGroups segmentName "CollectionFilterSegment varint exceeds 64 bits"

def readPostings (label : String) : Nat → Nat → Reader (List Nat)
  | 0, _ => return []
  | count + 1, prev => do
      let delta ← readVarint
      lift (Outcome.ensure (prev + delta < 2 ^ 64) (.format
        s!"CollectionFilterSegment {label}_id overflow"))
      let later ← readPostings label count (prev + delta)
      return (prev + delta) :: later

def readIdRuns (label : String) : Nat → Nat → Reader (List Nat)
  | 0, _ => return []
  | count + 1, prevEnd => do
      let gap ← readVarint
      let length ← readVarint
      lift (Outcome.ensure (prevEnd + gap < 2 ^ 64) (.format
        s!"CollectionFilterSegment {label} run start overflow"))
      lift (Outcome.ensure (length = 0 ∨ prevEnd + gap + (length - 1) < 2 ^ 64) (.format
        s!"CollectionFilterSegment {label} run id overflow"))
      lift (Outcome.ensure (prevEnd + gap + length < 2 ^ 64) (.format
        s!"CollectionFilterSegment {label} run end overflow"))
      let later ← readIdRuns label count (prevEnd + gap + length)
      return List.range' (prevEnd + gap) length ++ later

def decodeIdBlock (label : String) (count : Nat) (encoding : UInt8) : Reader (List Nat) :=
  if encoding = encodingSortedPostings then readPostings label count 0
  else if encoding = encodingRuns then do
    let runCount ← readU32 segmentName
    let ids ← readIdRuns label runCount.toNat 0
    lift (Outcome.ensure (ids.length = count) (.format
      s!"CollectionFilterSegment {label} run total {ids.length} != declared count {count}"))
    return ids
  else lift (.err (.unsupported
    s!"CollectionFilterSegment {label} encoding {encoding} not supported"))

structure FilterHeader where
  frameEnc : UInt8
  vectorEnc : UInt8
  collectionId : CollectionId
  frameCount : Nat
  vectorCount : Nat
  previousRoot : Option SegmentRef

def readHeader : Reader FilterHeader := do
  let found ← readArray segmentName 4
  lift (Outcome.ensure (found = magic) (.format
    s!"CollectionFilterSegment magic mismatch: expected VALISEF, got {found}"))
  let foundVersion ← readU16 segmentName
  lift (Outcome.ensure (foundVersion = version) (.format
    s!"CollectionFilterSegment version mismatch: expected {version}, got {foundVersion}"))
  let encoding ← readU8 segmentName
  let _ ← readU8 segmentName
  let collectionId ← readU32 segmentName
  let frameCount ← readU32 segmentName
  let vectorCount ← readU32 segmentName
  let previousRoot ← readOptionalSegmentRef segmentName "previous_root flag"
  return ⟨encoding &&& 0x0F, (encoding >>> 4) &&& 0x0F, collectionId, frameCount.toNat,
    vectorCount.toNat, previousRoot⟩

def readSegment : Reader CollectionFilterSegment := do
  let header ← readHeader
  let frameIds ← decodeIdBlock "frame" header.frameCount header.frameEnc
  let vectorIds ← decodeIdBlock "vector" header.vectorCount header.vectorEnc
  atEnd fun left => .format s!"CollectionFilterSegment: {left} trailing bytes"
  return ⟨header.collectionId, frameIds, vectorIds, header.previousRoot⟩

def decodeCollectionFilterSegment (bytes : Bytes) : Result CollectionFilterSegment :=
  decodeAll readSegment bytes

/-! ### Both forms decode to the ids -/

theorem reads_varint {value : Nat} (fits : value < 2 ^ 64) :
    Reads readVarint (writeUvarint value) value := by
  have read : Reads readVarint (writeUvarint value) (0 + value * 2 ^ 0) :=
    reads_takeBase128 _ _ 0 (by decide) (by omega) (by omega)
  rwa [Nat.pow_zero, Nat.mul_one, Nat.zero_add] at read

theorem reads_postings (label : String) {prev : Nat} {ids : List Nat}
    (ascending : (prev :: ids).Pairwise (· ≤ ·)) (fit : ∀ id ∈ ids, id < 2 ^ 64) :
    Reads (readPostings label ids.length prev) ((steps prev ids).flatMap writeUvarint) ids := by
  induction ids generalizing prev with
  | nil => exact reads_pure []
  | cons id ids ih =>
      obtain ⟨after, rest⟩ := List.pairwise_cons.mp ascending
      have atLeast := after id List.mem_cons_self
      have bound := fit id List.mem_cons_self
      have here : prev + (id - prev) = id := by omega
      have later := ih rest fun other member => fit other (List.mem_cons_of_mem _ member)
      rw [steps, List.flatMap_cons, List.length_cons, readPostings]
      refine (reads_varint (by omega)).bind ?_
      rw [here]
      exact Reads.ensure bound (later.map (id :: ·))

theorem idRuns_cons (id : Nat) (ids : List Nat) :
    (∃ length rest, idRuns ids = (id + 1, length) :: rest ∧
        idRuns (id :: ids) = (id, length + 1) :: rest) ∨
      (∀ length rest, idRuns ids ≠ (id + 1, length) :: rest) ∧
        idRuns (id :: ids) = (id, 1) :: idRuns ids := by
  simp only [idRuns]
  cases packed : idRuns ids with
  | nil => exact .inr ⟨nofun, rfl⟩
  | cons run rest =>
      obtain ⟨start, length⟩ := run
      by_cases next : start = id + 1
      · subst next
        exact .inl ⟨length, rest, rfl, if_pos rfl⟩
      · refine .inr ⟨?_, if_neg next⟩
        intro other later same
        exact next (congrArg Prod.fst (List.cons.inj same).1)

def expandRuns (runs : List (Nat × Nat)) : List Nat :=
  runs.flatMap fun run => List.range' run.1 run.2

theorem expandRuns_idRuns (ids : List Nat) : expandRuns (idRuns ids) = ids := by
  induction ids with
  | nil => rfl
  | cons id ids ih =>
      rcases idRuns_cons id ids with ⟨length, rest, before, after⟩ | ⟨_, after⟩
      · rw [before] at ih
        rw [after, expandRuns, List.flatMap_cons, List.range'_succ, List.cons_append]
        exact congrArg (id :: ·) ih
      · rw [after, expandRuns, List.flatMap_cons]
        exact congrArg (id :: ·) ih

theorem reads_idRuns (label : String) {prevEnd : Nat} {runs : List (Nat × Nat)} {written : Bytes}
    (encoded : writeIdRuns prevEnd runs = .ok written) :
    Reads (readIdRuns label runs.length prevEnd) written (expandRuns runs) := by
  induction runs generalizing prevEnd written with
  | nil =>
      obtain rfl := Outcome.ok.inj encoded
      exact reads_pure []
  | cons run runs ih =>
      obtain ⟨start, length⟩ := run
      simp only [writeIdRuns, Outcome.bind_eq_ok, Outcome.ensure_eq_ok, Outcome.pure_eq,
        Outcome.ok.injEq] at encoded
      obtain ⟨_, after, _, fits, later, laterEncoded, rfl⟩ := encoded
      have here : prevEnd + (start - prevEnd) = start := by omega
      rw [List.length_cons, readIdRuns]
      refine (reads_varint (by omega)).bind ((reads_varint (by omega)).bind ?_)
      rw [here]
      refine Reads.ensure (by omega) (Reads.ensure (by omega) (Reads.ensure fits ?_))
      exact (ih laterEncoded).map (List.range' start length ++ ·)

theorem reads_sortedPostings (label : String) {ids : List Nat} (sorted : StrictlySorted ids)
    (fit : ∀ id ∈ ids, id < 2 ^ 64) :
    Reads (decodeIdBlock label ids.length encodingSortedPostings) (encodeSortedPostings ids) ids := by
  refine reads_postings label (List.pairwise_cons.mpr ⟨fun id _ => Nat.zero_le id, ?_⟩) fit
  exact sorted.imp Nat.le_of_lt

theorem reads_runsBlock (label : String) {ids : List Nat} {written : Bytes}
    (encoded : encodeRuns ids = .ok written) :
    Reads (decodeIdBlock label ids.length encodingRuns) written ids := by
  simp only [encodeRuns, Outcome.bind_eq_ok, Outcome.ensure_eq_ok, Outcome.pure_eq,
    Outcome.ok.injEq] at encoded
  obtain ⟨_, few, body, bodyEncoded, rfl⟩ := encoded
  obtain ⟨count, number⟩ := reads_count segmentName few
  have found := reads_idRuns label bodyEncoded
  rw [expandRuns_idRuns] at found
  refine number.bind ?_
  rw [count, ← List.append_nil body]
  exact found.bind (Reads.ensure (Eq.refl _) (reads_pure ids))

/-! ### When the runs can be written -/

/-- Each run starts at or after the end of the one before, and its end is a number of 64 bits. -/
def RunsAscend : Nat → List (Nat × Nat) → Prop
  | _, [] => True
  | prevEnd, (start, length) :: rest =>
      prevEnd ≤ start ∧ start + length < 2 ^ 64 ∧ RunsAscend (start + length) rest

theorem writeIdRuns_isOk {prevEnd : Nat} {runs : List (Nat × Nat)} :
    (∃ written, writeIdRuns prevEnd runs = .ok written) ↔ RunsAscend prevEnd runs := by
  induction runs generalizing prevEnd with
  | nil => exact ⟨fun _ => trivial, fun _ => ⟨[], rfl⟩⟩
  | cons run runs ih =>
      obtain ⟨start, length⟩ := run
      simp only [writeIdRuns, RunsAscend, Outcome.bind_eq_ok, Outcome.ensure_eq_ok,
        Outcome.pure_eq, Outcome.ok.injEq]
      constructor
      · rintro ⟨_, _, after, _, fits, later, laterEncoded, _⟩
        exact ⟨after, fits, ih.mp ⟨later, laterEncoded⟩⟩
      · rintro ⟨after, fits, rest⟩
        obtain ⟨later, laterEncoded⟩ := ih.mpr rest
        exact ⟨_, (), after, (), fits, later, laterEncoded, rfl⟩

theorem runsAscend_idRuns {prevEnd : Nat} {ids : List Nat} (sorted : StrictlySorted ids)
    (after : ∀ id ∈ ids, prevEnd ≤ id) :
    RunsAscend prevEnd (idRuns ids) ↔ ∀ id ∈ ids, id + 1 < 2 ^ 64 := by
  induction ids generalizing prevEnd with
  | nil => exact ⟨fun _ => nofun, fun _ => trivial⟩
  | cons id ids ih =>
      obtain ⟨first, rest⟩ := List.pairwise_cons.mp sorted
      have later := @ih (id + 1) rest first
      have here := after id List.mem_cons_self
      rw [List.forall_mem_cons, ← later]
      rcases idRuns_cons id ids with ⟨length, runs, before, joined⟩ | ⟨_, apart⟩
      · rw [joined, before]
        have sum : id + (length + 1) = id + 1 + length := by omega
        simp only [RunsAscend, sum]
        constructor
        · rintro ⟨_, fits, ascend⟩
          exact ⟨by omega, Nat.le_refl _, fits, ascend⟩
        · rintro ⟨_, _, fits, ascend⟩
          exact ⟨here, fits, ascend⟩
      · rw [apart]
        simp only [RunsAscend]
        constructor
        · rintro ⟨_, fits, ascend⟩
          exact ⟨fits, ascend⟩
        · rintro ⟨fits, ascend⟩
          exact ⟨here, fits, ascend⟩

/-- No id is the largest one, and the number of runs fits its field. -/
def RunsFit (ids : List Nat) : Prop :=
  (∀ id ∈ ids, id + 1 < 2 ^ 64) ∧ (idRuns ids).length < 2 ^ 32

theorem encodeRuns_isOk {ids : List Nat} (sorted : StrictlySorted ids) :
    (∃ written, encodeRuns ids = .ok written) ↔ RunsFit ids := by
  have ascend := runsAscend_idRuns sorted fun id _ => Nat.zero_le id
  rw [RunsFit, ← ascend, ← writeIdRuns_isOk]
  simp only [encodeRuns, Outcome.bind_eq_ok, Outcome.ensure_eq_ok, Outcome.pure_eq,
    Outcome.ok.injEq]
  constructor
  · rintro ⟨_, _, few, body, bodyEncoded, _⟩
    exact ⟨⟨body, bodyEncoded⟩, few⟩
  · rintro ⟨⟨body, bodyEncoded⟩, few⟩
    exact ⟨_, (), few, body, bodyEncoded, rfl⟩

/-! ### What is accepted -/

theorem sums_strict {prev : Nat} {deltas : List Nat} :
    (prev :: sums prev deltas).Pairwise (· < ·) ↔ 0 ∉ deltas := by
  rw [← List.isChain_iff_pairwise]
  induction deltas generalizing prev with
  | nil => simp [sums]
  | cons delta deltas ih =>
      rw [sums, List.isChain_cons_cons, ih, List.mem_cons, not_or]
      constructor
      · rintro ⟨positive, rest⟩
        exact ⟨by omega, rest⟩
      · rintro ⟨nonzero, rest⟩
        exact ⟨by omega, rest⟩

theorem sums_ascending {prev : Nat} {deltas : List Nat} :
    (prev :: sums prev deltas).Pairwise (· ≤ ·) := by
  rw [← List.isChain_iff_pairwise]
  induction deltas generalizing prev with
  | nil => exact .singleton _
  | cons delta deltas ih =>
      rw [sums, List.isChain_cons_cons]
      exact ⟨by omega, ih⟩

theorem sums_sorted {deltas : List Nat} : StrictlySorted (sums 0 deltas) ↔ 0 ∉ deltas.tail := by
  cases deltas with
  | nil => simp [sums, StrictlySorted]
  | cons delta deltas => exact sums_strict

theorem readPostings_ok {label : String} {count prev : Nat} {cursor after : Cursor}
    {ids : List Nat} (done : readPostings label count prev cursor = (.ok ids, after)) :
    ∃ deltas, takeMany readVarint count cursor = (.ok deltas, after) ∧ ids = sums prev deltas := by
  induction count generalizing prev cursor ids with
  | zero =>
      obtain ⟨rfl, rfl⟩ := pure_eq_ok.mp done
      exact ⟨[], rfl, rfl⟩
  | succ count ih =>
      obtain ⟨delta, middle, read, done⟩ := bind_eq_ok.mp done
      obtain ⟨_, _, checked, done⟩ := bind_eq_ok.mp done
      obtain ⟨_, rfl⟩ := lift_eq_ok.mp checked
      obtain ⟨later, last, laterRead, done⟩ := bind_eq_ok.mp done
      obtain ⟨rfl, rfl⟩ := pure_eq_ok.mp done
      obtain ⟨deltas, deltasRead, rfl⟩ := ih laterRead
      exact ⟨delta :: deltas, bind_eq_ok.mpr ⟨delta, middle, read,
        bind_eq_ok.mpr ⟨deltas, last, deltasRead, rfl⟩⟩, rfl⟩

theorem readIdRuns_sorted {label : String} {count prevEnd : Nat} {cursor after : Cursor}
    {ids : List Nat} (done : readIdRuns label count prevEnd cursor = (.ok ids, after)) :
    StrictlySorted ids ∧ ∀ id ∈ ids, prevEnd ≤ id := by
  induction count generalizing prevEnd cursor ids with
  | zero =>
      obtain ⟨rfl, rfl⟩ := pure_eq_ok.mp done
      exact ⟨.nil, nofun⟩
  | succ count ih =>
      obtain ⟨gap, _, _, done⟩ := bind_eq_ok.mp done
      obtain ⟨length, _, _, done⟩ := bind_eq_ok.mp done
      obtain ⟨_, _, _, done⟩ := bind_eq_ok.mp done
      obtain ⟨_, _, _, done⟩ := bind_eq_ok.mp done
      obtain ⟨_, _, _, done⟩ := bind_eq_ok.mp done
      obtain ⟨later, _, laterRead, done⟩ := bind_eq_ok.mp done
      obtain ⟨rfl, rfl⟩ := pure_eq_ok.mp done
      obtain ⟨sorted, from_end⟩ := ih laterRead
      have inRun : ∀ id ∈ List.range' (prevEnd + gap) length,
          prevEnd + gap ≤ id ∧ id < prevEnd + gap + length := by
        intro id member
        exact List.mem_range'_1.mp member
      refine ⟨List.pairwise_append.mpr ⟨List.pairwise_lt_range', sorted, ?_⟩, ?_⟩
      · intro first here second there
        have low := (inRun first here).2
        have high := from_end second there
        omega
      · intro id member
        rcases List.mem_append.mp member with here | there
        · have low := (inRun id here).1
          omega
        · have high := from_end id there
          omega

/-- A side in gaps whose gaps, the first one aside, have a zero among them. -/
def Repeats (encoding : UInt8) (count : Nat) (cursor : Cursor) : Prop :=
  encoding = encodingSortedPostings ∧
    ∃ deltas after, takeMany readVarint count cursor = (.ok deltas, after) ∧ 0 ∈ deltas.tail

theorem decodeIdBlock_sorted {label : String} {count : Nat} {encoding : UInt8}
    {cursor after : Cursor} {ids : List Nat}
    (done : decodeIdBlock label count encoding cursor = (.ok ids, after)) :
    (StrictlySorted ids ↔ ¬Repeats encoding count cursor) ∧ ids.Pairwise (· ≤ ·) := by
  unfold decodeIdBlock at done
  by_cases postings : encoding = encodingSortedPostings
  · rw [if_pos postings] at done
    obtain ⟨deltas, read, rfl⟩ := readPostings_ok done
    refine ⟨?_, (List.pairwise_cons.mp sums_ascending).2⟩
    rw [sums_sorted]
    constructor
    · rintro fresh ⟨_, other, _, otherRead, zero⟩
      obtain ⟨same, _⟩ := Prod.mk.inj (read.symm.trans otherRead)
      obtain rfl := Outcome.ok.inj same
      exact fresh zero
    · intro never zero
      exact never ⟨postings, deltas, after, read, zero⟩
  · rw [if_neg postings] at done
    have sorted : StrictlySorted ids := by
      by_cases runs : encoding = encodingRuns
      · rw [if_pos runs] at done
        obtain ⟨count, _, _, done⟩ := bind_eq_ok.mp done
        obtain ⟨found, _, read, done⟩ := bind_eq_ok.mp done
        obtain ⟨_, _, _, done⟩ := bind_eq_ok.mp done
        obtain ⟨rfl, rfl⟩ := pure_eq_ok.mp done
        exact (readIdRuns_sorted read).1
      · rw [if_neg runs] at done
        exact nomatch (lift_eq_ok.mp done).1
    exact ⟨⟨fun _ repeats => postings repeats.1, fun _ => sorted⟩, sorted.imp Nat.le_of_lt⟩

/-- The frames or the vectors of the segment are gaps with a zero among them. -/
def RepeatsAnId (bytes : Bytes) : Prop :=
  ∃ header afterHeader, readHeader (start bytes) = (.ok header, afterHeader) ∧
    (Repeats header.frameEnc header.frameCount afterHeader ∨
      ∃ frameIds afterFrames,
        decodeIdBlock "frame" header.frameCount header.frameEnc afterHeader =
          (.ok frameIds, afterFrames) ∧
        Repeats header.vectorEnc header.vectorCount afterFrames)

theorem decodeAll_eq_ok {α : Type} {decoder : Reader α} {bytes : Bytes} {value : α} :
    decodeAll decoder bytes = .ok value ↔ ∃ after, decoder (start bytes) = (.ok value, after) := by
  unfold decodeAll
  constructor
  · intro done
    exact ⟨_, Prod.ext done rfl⟩
  · rintro ⟨after, done⟩
    rw [done]

theorem decode_sorted {bytes : Bytes} {segment : CollectionFilterSegment}
    (done : decodeCollectionFilterSegment bytes = .ok segment) :
    (StrictlySorted segment.frameIds ∧ StrictlySorted segment.vectorIds ↔ ¬RepeatsAnId bytes) ∧
      segment.frameIds.Pairwise (· ≤ ·) ∧ segment.vectorIds.Pairwise (· ≤ ·) := by
  obtain ⟨last, done⟩ := decodeAll_eq_ok.mp done
  obtain ⟨header, afterHeader, headerRead, done⟩ := bind_eq_ok.mp done
  obtain ⟨frameIds, afterFrames, framesRead, done⟩ := bind_eq_ok.mp done
  obtain ⟨vectorIds, afterVectors, vectorsRead, done⟩ := bind_eq_ok.mp done
  obtain ⟨_, _, _, done⟩ := bind_eq_ok.mp done
  obtain ⟨rfl, rfl⟩ := pure_eq_ok.mp done
  obtain ⟨frames, framesAscend⟩ := decodeIdBlock_sorted framesRead
  obtain ⟨vectors, vectorsAscend⟩ := decodeIdBlock_sorted vectorsRead
  refine ⟨?_, framesAscend, vectorsAscend⟩
  rw [frames, vectors, ← not_or, not_iff_not]
  constructor
  · rintro (inFrames | inVectors)
    · exact ⟨header, afterHeader, headerRead, .inl inFrames⟩
    · exact ⟨header, afterHeader, headerRead, .inr ⟨frameIds, afterFrames, framesRead, inVectors⟩⟩
  · rintro ⟨other, afterOther, otherRead, found⟩
    obtain ⟨sameHeader, rfl⟩ := Prod.mk.inj (headerRead.symm.trans otherRead)
    obtain rfl := Outcome.ok.inj sameHeader
    rcases found with inFrames | ⟨_, _, read, inVectors⟩
    · exact .inl inFrames
    · obtain ⟨_, rfl⟩ := Prod.mk.inj (framesRead.symm.trans read)
      exact .inr inVectors

/-! ### The segment as a whole -/

theorem reads_side (label : String) {ids : List Nat} {encoding : UInt8} {body : Bytes}
    (sorted : StrictlySorted ids) (encoded : encodeSide ids = .ok (encoding, body)) :
    (encoding = encodingSortedPostings ∨ encoding = encodingRuns) ∧
      Reads (decodeIdBlock label ids.length encoding) body ids := by
  obtain ⟨runs, runsEncoded, chosen⟩ := Outcome.bind_eq_ok.mp encoded
  have fit : ∀ id ∈ ids, id < 2 ^ 64 := by
    intro id member
    have fits := ((encodeRuns_isOk sorted).mp ⟨runs, runsEncoded⟩).1 id member
    omega
  split at chosen
  · obtain ⟨rfl, rfl⟩ := Prod.mk.inj (Outcome.ok.inj chosen)
    exact ⟨.inr rfl, reads_runsBlock label runsEncoded⟩
  · obtain ⟨rfl, rfl⟩ := Prod.mk.inj (Outcome.ok.inj chosen)
    exact ⟨.inl rfl, reads_sortedPostings label sorted fit⟩

theorem unpack_pack {frameEnc vectorEnc : UInt8}
    (frames : frameEnc = encodingSortedPostings ∨ frameEnc = encodingRuns)
    (vectors : vectorEnc = encodingSortedPostings ∨ vectorEnc = encodingRuns) :
    packEncodings frameEnc vectorEnc &&& 0x0F = frameEnc ∧
      (packEncodings frameEnc vectorEnc >>> 4) &&& 0x0F = vectorEnc := by
  rcases frames with rfl | rfl
  · rcases vectors with rfl | rfl
    · exact ⟨rfl, rfl⟩
    · exact ⟨rfl, rfl⟩
  · rcases vectors with rfl | rfl
    · exact ⟨rfl, rfl⟩
    · exact ⟨rfl, rfl⟩

/-- What the encoder accepts, the decoder gives back. -/
theorem decode_encode {segment : CollectionFilterSegment} {bytes : Bytes}
    (encoded : encodeCollectionFilterSegment segment = .ok bytes) :
    decodeCollectionFilterSegment bytes = .ok segment := by
  simp only [encodeCollectionFilterSegment, Outcome.bind_eq_ok, Outcome.ensure_eq_ok,
    Outcome.pure_eq, Outcome.ok.injEq] at encoded
  obtain ⟨_, framesSorted, _, vectorsSorted, ⟨frameEnc, frameBody⟩, framesEncoded,
    ⟨vectorEnc, vectorBody⟩, vectorsEncoded, _, fewFrames, _, fewVectors, rfl⟩ := encoded
  obtain ⟨frameForm, frames⟩ := reads_side "frame" framesSorted framesEncoded
  obtain ⟨vectorForm, vectors⟩ := reads_side "vector" vectorsSorted vectorsEncoded
  obtain ⟨frameHalf, vectorHalf⟩ := unpack_pack frameForm vectorForm
  obtain ⟨frameCount, framesCounted⟩ := reads_count segmentName fewFrames
  obtain ⟨vectorCount, vectorsCounted⟩ := reads_count segmentName fewVectors
  have root := reads_optionalSegmentRef segmentName "previous_root flag" segment.previousRoot
  have header : Reads readHeader (magic ++ (writeU16 version ++ ([packEncodings frameEnc vectorEnc] ++
      ([0] ++ (writeU32 segment.collectionId ++ (putLittleEndian 4 segment.frameIds.length ++
        (putLittleEndian 4 segment.vectorIds.length ++
          writeOptionalSegmentRef segment.previousRoot)))))))
      ⟨frameEnc, vectorEnc, segment.collectionId, segment.frameIds.length,
        segment.vectorIds.length, segment.previousRoot⟩ := by
    refine (reads_takeBytes _ magic).bind (Reads.ensure (Eq.refl _) ?_)
    refine (reads_u16 segmentName version).bind (Reads.ensure (Eq.refl _) ?_)
    refine (reads_u8 segmentName _).bind ((reads_u8 segmentName 0).bind ?_)
    refine (reads_u32 segmentName segment.collectionId).bind ?_
    refine framesCounted.bind (vectorsCounted.bind ?_)
    rw [frameHalf, vectorHalf, frameCount, vectorCount]
    exact root.map fun previousRoot => FilterHeader.mk frameEnc vectorEnc segment.collectionId
      segment.frameIds.length segment.vectorIds.length previousRoot
  have whole : Finishes readSegment ((magic ++ (writeU16 version ++
      ([packEncodings frameEnc vectorEnc] ++ ([0] ++ (writeU32 segment.collectionId ++
        (putLittleEndian 4 segment.frameIds.length ++ (putLittleEndian 4 segment.vectorIds.length ++
          writeOptionalSegmentRef segment.previousRoot))))))) ++ (frameBody ++ (vectorBody ++ [])))
      segment :=
    Finishes.bind header (Finishes.bind frames (Finishes.bind vectors (finishes_atEnd
      (finishes_pure segment))))
  simp only [List.append_assoc, List.append_nil] at whole
  exact whole.decodeAll

/-- Either form of the ids is read back as the ids. -/
def FormsDecode (ids : List Nat) : Prop :=
  decodeAll (decodeIdBlock "frame" ids.length encodingSortedPostings) (encodeSortedPostings ids) =
      .ok ids ∧
    ∃ written, encodeRuns ids = .ok written ∧
      decodeAll (decodeIdBlock "frame" ids.length encodingRuns) written = .ok ids

/-- The runs are read back where they can be written; what a decoder accepts is a set just when it
does not repeat an id, and is searched like one in any case. -/
theorem filter_exact (ids : List Nat) (bytes : Bytes) :
    (StrictlySorted ids → (∀ id ∈ ids, id < 2 ^ 64) → (FormsDecode ids ↔ RunsFit ids)) ∧
    ∀ segment, decodeCollectionFilterSegment bytes = .ok segment →
      (StrictlySorted segment.frameIds ∧ StrictlySorted segment.vectorIds ↔ ¬RepeatsAnId bytes) ∧
      (∀ id, BinarySearch.contains segment.frameIds id = true ↔ id ∈ segment.frameIds) ∧
      ∀ id, BinarySearch.contains segment.vectorIds id = true ↔ id ∈ segment.vectorIds := by
  constructor
  · intro sorted fit
    constructor
    · rintro ⟨_, written, encoded, _⟩
      exact (encodeRuns_isOk sorted).mp ⟨written, encoded⟩
    · intro fits
      obtain ⟨written, encoded⟩ := (encodeRuns_isOk sorted).mpr fits
      exact ⟨(reads_sortedPostings "frame" sorted fit).finishes.decodeAll, written, encoded,
        (reads_runsBlock "frame" encoded).finishes.decodeAll⟩
  · intro segment done
    obtain ⟨exact, framesAscend, vectorsAscend⟩ := decode_sorted done
    exact ⟨exact, fun id => BinarySearch.contains_iff framesAscend,
      fun id => BinarySearch.contains_iff vectorsAscend⟩

theorem fourIds_decode : FormsDecode [1, 2, 3, 9] :=
  ((filter_exact [1, 2, 3, 9] []).1 (by decide) (by decide)).mpr ⟨by decide, by decide⟩

/-- Two frames in gaps, the second gap zero. -/
def repeatedFrame : Bytes :=
  magic ++ writeU16 version ++ [0, 0] ++ writeU32 7 ++ writeU32 2 ++ writeU32 0 ++ [0] ++ [5, 0]

theorem repeatedFrame_accepted :
    decodeCollectionFilterSegment repeatedFrame = .ok ⟨7, [5, 5], [], none⟩ ∧
      ¬StrictlySorted [5, 5] := by
  constructor
  · decide +kernel
  · decide

end FilterCodec

end Valise
