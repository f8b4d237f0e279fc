import Valise.DocStatsWire
import Valise.PostingsWire
import Valise.SegmentReads
import Valise.TermDictionaryWire
import Valise.TextFlush

/-!
A text index in the bytes of its file: a flush appends one segment of each kind, and an open walks
the three chains back from the roots in the footer.
-/

namespace Valise

open ByteLists Chains Cursors Outcomes SortedTables TermDictionaryCodec

namespace TextBytes

/-! ### Opening -/

section Walks

variable (blake3 : Bytes → Checksum) (decompress : Bytes → Option Bytes)

/-- One turn of a walk: the payload behind the root, and the root it names. -/
def readLink {α : Type} (segmentType : SegmentType) (decode : Bytes → Result (Link SegmentRef α))
    (data : Bytes) (root : SegmentRef) : Result (Link SegmentRef α) := do
  let payload ← readSegmentPayloadTyped blake3 decompress data root segmentType
  decode payload

/-- The payload is kept for the terms whose places it has. -/
def termDictLink (payload : Bytes) : Result (Link SegmentRef (Bytes × List TermDictRawSlice)) := do
  let (previousRoot, slices) ← readRawSegment payload
  return ⟨previousRoot, payload, slices⟩

def postingsLink (payload : Bytes) :
    Result (Link SegmentRef PostingsCodec.PostingsSegmentDirectory) := do
  let segment ← PostingsCodec.decodePostingsSegmentDirectory payload
  return ⟨segment.previousRoot, segment⟩

def docStatsLink (payload : Bytes) : Result (Link SegmentRef DocStatsCodec.DocStatsSegment) := do
  let segment ← DocStatsCodec.decodeDocStatsSegment payload
  return ⟨segment.previousRoot, segment⟩

def walkTermDictChainLazy (data : Bytes) (fuel : Nat) (head : Option SegmentRef) :
    Result (List (Bytes × List TermDictRawSlice)) :=
  collect (readLink blake3 decompress .termDictionary termDictLink data) fuel head []

def walkPostingsChainDirectory (data : Bytes) (fuel : Nat) (head : Option SegmentRef) :
    Result (List PostingsCodec.PostingsSegmentDirectory) :=
  collect (readLink blake3 decompress .postings postingsLink data) fuel head []

def walkDocStatsChain (data : Bytes) (fuel : Nat) (head : Option SegmentRef) :
    Result (List DocStatsCodec.DocStatsSegment) :=
  collect (readLink blake3 decompress .docStats docStatsLink data) fuel head []

def bumpRawTermId (next : TermId) (raw : TermDictRawSlice) : TermId :=
  if next < raw.termId + 1 then raw.termId + 1 else next

def loadTermSlices (chain : List (Bytes × List TermDictRawSlice)) (state : TextSpaceState) :
    TextSpaceState :=
  { state with
    nextTermId := (chain.flatMap Prod.snd).foldl bumpRawTermId state.nextTermId
    sortedTerms := (chain.flatMap fun (blob, slices) => slices.map (termAt blob)).insertionSort
      fun first second => bytesRank first.1 ≤ bytesRank second.1 }

/-- No segment has a list that is packed dense, so the flag is not kept. -/
def directoryOf (segment : PostingsCodec.PostingsSegmentDirectory) : PostingsSegmentDirectory where
  entries := segment.entries.map fun entry =>
    ⟨entry.termId, entry.df, entry.cf, entry.blobOffset, entry.blobLen⟩
  blob := segment.blob

def rebuildTextSpaceState (data : Bytes) (fuel : Nat) (root : TextIndexRoot) :
    Result TextSpaceState := do
  let termDict ← walkTermDictChainLazy blake3 decompress data fuel root.termDictionaryRoot
  let postings ← walkPostingsChainDirectory blake3 decompress data fuel root.postingsRoot
  let docStats ← walkDocStatsChain blake3 decompress data fuel root.docStatsRoot
  return (docStats.flatMap fun segment => segment.records.map (·.toDocStatsEntry)).foldl
    recordDocStats (loadPostings (postings.map directoryOf) (loadTermSlices termDict {}))

end Walks

/-! ### Flushing -/

/-- What a flush of the pending frames writes, before it is encoded. -/
structure FlushRecords where
  postingLists : List PostingList
  termDictRecords : List TermDictionaryEntry
  docStatsRecords : List DocStatsEntry

def flushRecords (pending : PendingFrames) (state : TextSpaceState) :
    TextSpaceState × Result FlushRecords :=
  let assigned := assignTermIds state (newTermBytes state (pendingTokens pending))
  match assigned.2 with
  | .err error => (assigned.1, .err error)
  | .panic => (assigned.1, .panic)
  | .ok newTerms =>
      match flattenPending assigned.1.lookupTerm pending with
      | .err error => (assigned.1, .err error)
      | .panic => (assigned.1, .panic)
      | .ok flat =>
          let lists := postingLists flat
          let docStats := pending.map fun (frameId, frame) => docStatsRecord frameId frame
          (docStats.foldl recordDocStats (lists.foldl applyPostingList assigned.1),
            .ok ⟨lists, lists.filterMap (termDictRecord newTerms), docStats⟩)

structure FlushOutput where
  termDictSegment : Bytes
  termDictRecordCount : UInt32
  postingsSegment : Bytes
  postingsRecordCount : UInt32
  docStatsSegment : Bytes
  docStatsRecordCount : UInt32

def positioned (list : PostingList) : PostingsCodec.PositionedList :=
  ⟨list.termId, list.df, list.postings.map fun posting => ⟨posting, none⟩⟩

def buildFlushOutput (textSpaceId : TextSpaceId) (pending : PendingFrames) (state : TextSpaceState)
    (prior : TextIndexRoot) : TextSpaceState × Result FlushOutput :=
  let flushed := flushRecords pending state
  (flushed.1, do
    let records ← flushed.2
    let termDictSegment ← encodeTermDictionarySegment
      ⟨textSpaceId, prior.termDictionaryRoot, records.termDictRecords⟩
    let postingsSegment ← PostingsCodec.encodePostingsSegment
      ⟨textSpaceId, prior.postingsRoot, records.postingLists.map positioned⟩
    let docStatsSegment ← DocStatsCodec.encodeDocStatsSegment
      ⟨textSpaceId, prior.docStatsRoot, records.docStatsRecords.map fun entry => ⟨entry, textSpaceId⟩⟩
    return {
      termDictSegment
      termDictRecordCount := UInt32.ofNat records.termDictRecords.length
      postingsSegment
      postingsRecordCount := UInt32.ofNat records.postingLists.length
      docStatsSegment
      docStatsRecordCount := UInt32.ofNat records.docStatsRecords.length })

section Appends

variable (blake3 : Bytes → Checksum)

def appendSegmentAtEnd (data : Bytes) (segmentId : SegmentId) (segmentType : SegmentType)
    (itemCount : UInt32) (payload : Bytes) : Bytes × SegmentRef :=
  (data ++ segmentBytes blake3 segmentId segmentType itemCount payload,
    ⟨segmentId, UInt64.ofNat (fileLen data), UInt64.ofNat (segmentHeaderSize + payload.length),
      blake3 payload⟩)

/-- The three appends of a flush, under the ids that were allocated for them, and the new heads. -/
def writeSegments (data : Bytes) (termDictId postingsId docStatsId : SegmentId) (out : FlushOutput)
    (root : TextIndexRoot) : Bytes × TextIndexRoot :=
  let termDict := appendSegmentAtEnd blake3 data termDictId .termDictionary out.termDictRecordCount
    out.termDictSegment
  let postings := appendSegmentAtEnd blake3 termDict.1 postingsId .postings out.postingsRecordCount
    out.postingsSegment
  let docStats := appendSegmentAtEnd blake3 postings.1 docStatsId .docStats out.docStatsRecordCount
    out.docStatsSegment
  (docStats.1, { root with
    termDictionaryRoot := some termDict.2
    postingsRoot := some postings.2
    docStatsRoot := some docStats.2 })

end Appends

/-! ### Reading what was appended -/

section Reading

variable {blake3 : Bytes → Checksum} {decompress : Bytes → Option Bytes}

/-- What a read finds, it finds after more was written behind it. -/
theorem readSegmentPayloadTyped_append {data payload : Bytes} {root : SegmentRef}
    {segmentType : SegmentType}
    (read : readSegmentPayloadTyped blake3 decompress data root segmentType = .ok payload)
    (more : Bytes) :
    readSegmentPayloadTyped blake3 decompress (data ++ more) root segmentType = .ok payload := by
  obtain ⟨headerBytes, headerRead, afterHeader⟩ := Outcome.bind_eq_ok.mp read
  obtain ⟨header, decoded, afterDecode⟩ := Outcome.bind_eq_ok.mp afterHeader
  obtain ⟨_, checked, afterCheck⟩ := Outcome.bind_eq_ok.mp afterDecode
  obtain ⟨wire, wireRead, afterWire⟩ := Outcome.bind_eq_ok.mp afterCheck
  unfold readSegmentPayloadTyped
  rw [readExact_append more headerRead, Outcome.ok_bind, decoded, Outcome.ok_bind, checked,
    Outcome.ok_bind, readWire, readExact_append more wireRead, Outcome.ok_bind]
  exact afterWire

/-- The payload of a segment is read back behind the root that its append returned. -/
theorem readSegmentPayloadTyped_appended (data : Bytes) (segmentId : SegmentId)
    (segmentType : SegmentType) (itemCount : UInt32) (payload : Bytes)
    (fits : fileLen (data ++ segmentBytes blake3 segmentId segmentType itemCount payload) < 2 ^ 64) :
    readSegmentPayloadTyped blake3 decompress
      (appendSegmentAtEnd blake3 data segmentId segmentType itemCount payload).1
      (appendSegmentAtEnd blake3 data segmentId segmentType itemCount payload).2 segmentType =
        .ok payload := by
  let header := SegmentHeader.new blake3 segmentType segmentId itemCount .none
    (UInt64.ofNat payload.length) payload
  have total : fileLen data + (segmentHeaderSize + payload.length) < 2 ^ 64 := by
    simpa only [fileLen, segmentBytes, List.length_append, SegmentHeader.encode_length,
      Nat.add_assoc] using fits
  have before : fileLen data < 2 ^ 64 := by omega
  have short : payload.length < 2 ^ 64 := by omega
  have segmentShort : segmentHeaderSize + payload.length < 2 ^ 64 := by omega
  have offset : (UInt64.ofNat (fileLen data)).toNat = fileLen data :=
    UInt64.toNat_ofNat_of_lt' before
  have length : header.payloadLength.toNat = payload.length := UInt64.toNat_ofNat_of_lt' short
  have rootLength : (UInt64.ofNat (segmentHeaderSize + payload.length)).toNat =
      segmentHeaderSize + header.payloadLength.toNat := by
    rw [length, UInt64.toNat_ofNat_of_lt' segmentShort]
  have headerLength : header.encode.length = segmentHeaderSize := SegmentHeader.encode_length header
  have valid : header.validateHeader = .ok () :=
    Outcome.ensure_eq_ok.mpr fun differs => differs.2 rfl
  have headerRead : readExact (data ++ (header.encode ++ payload)) (fileLen data)
      segmentHeaderSize = .ok header.encode := by
    refine readExact_ok.mpr ⟨Nat.le_add_right _ _, ?_, ?_⟩
    · simp only [fileLen, List.length_append, headerLength]
      omega
    · rw [fileLen, Nat.add_sub_cancel_left, ← Nat.add_zero data.length, slice_append_right,
        slice_append_left _ _ _ _ (by omega), slice, List.drop_zero, ← headerLength,
        List.take_length]
  have wireRead : readExact (data ++ (header.encode ++ payload)) (fileLen data + segmentHeaderSize)
      payload.length = .ok payload := by
    refine readExact_ok.mpr ⟨Nat.le_trans (Nat.le_add_right _ _) (Nat.le_add_right _ _), ?_, ?_⟩
    · simp only [fileLen, List.length_append, headerLength]
      omega
    · rw [fileLen, Nat.add_assoc, Nat.add_sub_cancel_left, slice_append_right, ← headerLength,
        ← Nat.add_zero header.encode.length, slice_append_right, slice, List.drop_zero,
        List.take_length]
  have checked : checkSegmentRoot header
      ⟨segmentId, UInt64.ofNat (fileLen data), UInt64.ofNat (segmentHeaderSize + payload.length),
        blake3 payload⟩ segmentType = .ok () := by
    simp only [checkSegmentRoot, Outcome.bind_eq_ok, Outcome.ensure_eq_ok, exists_const]
    exact ⟨rfl, rfl, rootLength, rfl⟩
  have validated : header.validatePayload blake3 payload = .ok () := by
    simp only [SegmentHeader.validatePayload, Outcome.bind_eq_ok, Outcome.ensure_eq_ok,
      exists_const]
    exact ⟨(), valid, length, rfl⟩
  unfold readSegmentPayloadTyped appendSegmentAtEnd segmentBytes
  rw [offset, headerRead, Outcome.ok_bind, SegmentHeader.decode_encode rfl valid, Outcome.ok_bind,
    checked, Outcome.ok_bind, readWire, offset, length, wireRead, Outcome.ok_bind, validated,
    Outcome.ok_bind]
  rfl

theorem readLink_append {α : Type} {segmentType : SegmentType}
    {decode : Bytes → Result (Link SegmentRef α)} {data : Bytes} (more : Bytes) (root : SegmentRef)
    (link : Link SegmentRef α)
    (read : (readLink blake3 decompress segmentType decode data root).toOption = some link) :
    (readLink blake3 decompress segmentType decode (data ++ more) root).toOption = some link := by
  obtain ⟨payload, found, decoded⟩ := Outcome.bind_eq_ok.mp (Outcome.toOption_eq_some.mp read)
  rw [readLink, readSegmentPayloadTyped_append found more, Outcome.ok_bind]
  exact Outcome.toOption_eq_some.mpr decoded

theorem readLink_appended {α : Type} {segmentType : SegmentType}
    {decode : Bytes → Result (Link SegmentRef α)} {data payload : Bytes} {segmentId : SegmentId}
    {itemCount : UInt32} {link : Link SegmentRef α} (decoded : decode payload = .ok link)
    (fits : fileLen (data ++ segmentBytes blake3 segmentId segmentType itemCount payload) < 2 ^ 64) :
    (readLink blake3 decompress segmentType decode
      (appendSegmentAtEnd blake3 data segmentId segmentType itemCount payload).1
      (appendSegmentAtEnd blake3 data segmentId segmentType itemCount payload).2).toOption =
        some link := by
  rw [readLink, readSegmentPayloadTyped_appended data segmentId segmentType itemCount payload fits,
    Outcome.ok_bind]
  exact Outcome.toOption_eq_some.mpr decoded

end Reading

/-! ### What a flush encodes -/

theorem positioned_plain (list : PostingList) : (positioned list).plain = list := by
  simp [positioned, PostingsCodec.PositionedList.plain, Function.comp_def]

theorem foldl_add (amounts : List UInt64) (total : UInt64) :
    amounts.foldl (· + ·) total = total + amounts.sum := by
  induction amounts generalizing total with
  | nil => rw [List.foldl_nil, List.sum_nil, UInt64.add_zero]
  | cons amount amounts ih => rw [List.foldl_cons, ih, List.sum_cons, UInt64.add_assoc]

theorem collectionFreq_eq (list : PostingList) :
    collectionFreq list.postings = PostingsCodec.cfOf (positioned list) := by
  have sum := foldl_add (list.postings.map fun posting => posting.termFreq.toUInt64) 0
  rw [List.foldl_map, UInt64.zero_add] at sum
  simp only [PostingsCodec.cfOf, positioned, List.map_map, Function.comp_def]
  exact sum

theorem encodeTermBlob_positioned {list : PostingList} {blob : Bytes}
    (encoded : PostingsCodec.encodeTermBlob (positioned list) = .ok blob) :
    encodePostingBlob list = .ok blob := by
  obtain ⟨found, blobEncoded, checked⟩ := Outcome.bind_eq_ok.mp encoded
  obtain ⟨_, _, same⟩ := Outcome.bind_eq_ok.mp checked
  rw [positioned_plain] at blobEncoded
  rw [blobEncoded, Outcome.ok.inj same]

def plainEntry (row : PostingsCodec.DirectoryRow) : PostingsDirectoryEntry :=
  ⟨row.termId, row.df, row.cf, UInt32.ofNat row.blobOffset, UInt32.ofNat row.blobLen⟩

/-- The lists are laid out on the bytes as they are in the directory that a state keeps. -/
theorem encodePostingsEntries_rows {lists : List PostingList} {blob : Bytes}
    {rows : List PostingsCodec.DirectoryRow} (segment : PostingsSegmentDirectory)
    (encoded : PostingsCodec.encodeLists segment.blob.length (lists.map positioned) =
      .ok (blob, rows)) :
    encodePostingsEntries lists segment =
      .ok ⟨segment.entries ++ rows.map plainEntry, segment.blob ++ blob⟩ := by
  induction lists generalizing segment blob rows with
  | nil =>
      obtain ⟨rfl, rfl⟩ := Prod.mk.inj (Outcome.ok.inj encoded)
      rw [List.map_nil, List.append_nil, List.append_nil]
      rfl
  | cons list lists ih =>
      simp only [List.map_cons, PostingsCodec.encodeLists, Outcome.bind_eq_ok, Outcome.ensure_eq_ok,
        Outcome.pure_eq, Outcome.ok.injEq, Prod.mk.injEq, exists_const] at encoded
      obtain ⟨room, termBlob, termEncoded, fits, sparse, ⟨blobs, later⟩, rest, rfl, rfl⟩ := encoded
      have grown := ih ⟨segment.entries ++ [plainEntry ⟨list.termId, list.df,
        PostingsCodec.cfOf (positioned list), segment.blob.length, termBlob.length⟩],
        segment.blob ++ termBlob⟩ (by rwa [List.length_append])
      have flagFree : termBlob.length < 2 ^ 31 := sparse
      rw [encodePostingsEntries, Outcome.ensure_true _ room, Outcome.ok_bind,
        encodeTermBlob_positioned termEncoded, Outcome.ok_bind, Outcome.ensure_true _ fits,
        Outcome.ok_bind, Outcome.ensure_true _ flagFree, Outcome.ok_bind, collectionFreq_eq]
      rw [List.append_assoc, List.append_assoc] at grown
      exact grown

/-- The directory that an open reads is the one that the state keeps. -/
theorem postings_read {textSpaceId : TextSpaceId} {previousRoot : Option SegmentRef}
    {lists : List PostingList} {bytes : Bytes} (encoded : PostingsCodec.encodePostingsSegment
      ⟨textSpaceId, previousRoot, lists.map positioned⟩ = .ok bytes) :
    ∃ segment, postingsLink bytes = .ok ⟨previousRoot, segment⟩ ∧
      encodePostingsSegment lists = .ok (directoryOf segment) := by
  simp only [PostingsCodec.encodePostingsSegment, Outcome.bind_eq_ok, Outcome.ensure_eq_ok,
    Outcome.pure_eq, Outcome.ok.injEq, exists_const] at encoded
  obtain ⟨⟨blob, rows⟩, listsEncoded, fits, few, rfl⟩ := encoded
  obtain ⟨placed, -, -⟩ := PostingsCodec.encodeLists_placed listsEncoded [] rfl
  rw [List.nil_append] at placed
  have decoded := @PostingsCodec.directory_reads
    ⟨textSpaceId, previousRoot, lists.map positioned⟩ blob rows placed fits few
  refine ⟨_, by rw [postingsLink, decoded]; rfl, ?_⟩
  have kept := encodePostingsEntries_rows ⟨[], []⟩ listsEncoded
  rw [List.length_map] at few
  rw [List.nil_append, List.nil_append] at kept
  have blobFits : blob.length < 2 ^ 32 := fits
  rw [encodePostingsSegment, kept, Outcome.ok_bind, Outcome.ensure_true _ blobFits, Outcome.ok_bind,
    Outcome.ensure_true _ few, Outcome.ok_bind, directoryOf, List.map_map]
  rfl

/-- The statistics of the frames of a flush are read back row by row. -/
theorem docStats_read {textSpaceId : TextSpaceId} {previousRoot : Option SegmentRef}
    {records : List DocStatsEntry} {bytes : Bytes} (some : records ≠ [])
    (encoded : DocStatsCodec.encodeDocStatsSegment
      ⟨textSpaceId, previousRoot, records.map fun entry => ⟨entry, textSpaceId⟩⟩ = .ok bytes) :
    ∃ segment, docStatsLink bytes = .ok ⟨previousRoot, segment⟩ ∧
      segment.records.map (·.toDocStatsEntry) = records := by
  have back : (records.map fun entry => DocStatsCodec.DocStatsRecord.mk entry textSpaceId).map
      (·.toDocStatsEntry) = records := by
    rw [List.map_map]
    exact List.map_id records
  have someRows : (records.map fun entry => DocStatsCodec.DocStatsRecord.mk entry textSpaceId) ≠ [] :=
    fun none => some (List.map_eq_nil_iff.mp none)
  generalize (records.map fun entry => DocStatsCodec.DocStatsRecord.mk entry textSpaceId) = rows
    at encoded back someRows
  simp only [DocStatsCodec.encodeDocStatsSegment, Outcome.bind_eq_ok, Outcome.ensure_eq_ok,
    exists_const] at encoded
  obtain ⟨_, spacesSame, _, fieldsSame, short, fewFields, encoded⟩ := encoded
  rw [if_neg someRows] at encoded
  obtain ⟨columns, columnsEncoded, whole⟩ := Outcome.bind_eq_ok.mp encoded
  obtain rfl := Outcome.ok.inj whole
  have columnsRead := DocStatsCodec.reads_records someRows short
    (DocStatsCodec.checkTextSpaces_eq_ok.mp spacesSame)
    (DocStatsCodec.checkFieldCounts_eq_ok.mp fieldsSame) columnsEncoded
  generalize (rows.head?.map (·.fieldLengths.length)).getD 0 = fieldCount
    at columnsRead fewFields
  obtain ⟨count, counted⟩ := SegmentCodec.reads_count DocStatsCodec.segmentName short
  obtain ⟨width, counts⟩ := SegmentCodec.reads_count DocStatsCodec.segmentName fewFields
  have filled : UInt32.ofNat rows.length ≠ 0 := by
    intro zero
    rw [zero] at count
    exact someRows (List.length_eq_zero_iff.mp count.symm)
  have decoded : DocStatsCodec.decodeDocStatsSegment (DocStatsCodec.magic ++
      (SegmentCodec.writeU16 DocStatsCodec.version ++ (SegmentCodec.writeU32 textSpaceId ++
        (putLittleEndian 4 rows.length ++ (putLittleEndian 4 fieldCount ++
          SegmentCodec.writeOptionalSegmentRef previousRoot)))) ++ columns) =
      .ok ⟨textSpaceId, previousRoot, rows⟩ := by
    refine Finishes.decodeAll ?_
    simp only [List.append_assoc]
    refine Finishes.bind DocStatsCodec.reads_magic (Finishes.bind DocStatsCodec.reads_version ?_)
    refine Finishes.bind (SegmentCodec.reads_u32 _ textSpaceId) (Finishes.bind counted ?_)
    refine Finishes.bind counts
      (Finishes.bind (SegmentCodec.reads_optionalSegmentRef _ _ previousRoot) ?_)
    rw [if_neg filled, count, width, ← List.append_nil columns]
    exact Finishes.bind columnsRead (finishes_atEnd (finishes_pure _))
  exact ⟨⟨textSpaceId, previousRoot, rows⟩, by rw [docStatsLink, decoded]; rfl, back⟩

/-- The terms of a flush stand where the walk notes them. -/
theorem termDict_read {segment : TermDictionarySegment} {bytes : Bytes}
    (encoded : encodeTermDictionarySegment segment = .ok bytes) (fits : bytes.length < 2 ^ 32) :
    ∃ content, termDictLink bytes = .ok ⟨segment.previousRoot, content⟩ ∧
      content.2.map (termAt content.1) =
        segment.records.map fun entry => (entry.termBytes, entry.termId) := by
  refine ⟨(bytes, _), ?_, termAt_walked encoded fits⟩
  rw [termDictLink, readRawSegment_encode encoded]
  rfl

theorem buildFlushOutput_records (pending : PendingFrames) (state : TextSpaceState) :
    Valise.buildFlushOutput pending state = ((flushRecords pending state).1, do
      let records ← (flushRecords pending state).2
      let postings ← encodePostingsSegment records.postingLists
      return ⟨records.termDictRecords, postings, records.docStatsRecords⟩) := by
  unfold Valise.buildFlushOutput flushRecords
  dsimp only
  cases (assignTermIds state (newTermBytes state (pendingTokens pending))).2 with
  | err error => rfl
  | panic => rfl
  | ok newTerms =>
      dsimp only
      cases flattenPending
          (assignTermIds state (newTermBytes state (pendingTokens pending))).1.lookupTerm pending with
      | err error => rfl
      | panic => rfl
      | ok flat => rfl

/-- A flush leaves a row of statistics for every frame it takes. -/
theorem flushRecords_docStats {pending : PendingFrames} {state : TextSpaceState}
    {records : FlushRecords} (flushed : (flushRecords pending state).2 = .ok records) :
    records.docStatsRecords.length = pending.length := by
  unfold flushRecords at flushed
  dsimp only at flushed
  split at flushed
  · simp only [reduceCtorEq] at flushed
  · simp only [reduceCtorEq] at flushed
  · split at flushed
    · simp only [reduceCtorEq] at flushed
    · simp only [reduceCtorEq] at flushed
    · obtain rfl := Outcome.ok.inj flushed
      exact List.length_map _

/-- What a flush writes tells the same as what the state keeps of it. -/
structure Encodes (root : TextIndexRoot) (out : FlushOutput) (kept : Valise.FlushOutput) : Prop where
  termDict : ∃ content, termDictLink out.termDictSegment = .ok ⟨root.termDictionaryRoot, content⟩ ∧
    content.2.map (termAt content.1) =
      kept.termDictSegment.map fun entry => (entry.termBytes, entry.termId)
  postings : ∃ segment, postingsLink out.postingsSegment = .ok ⟨root.postingsRoot, segment⟩ ∧
    directoryOf segment = kept.postingsSegment
  docStats : ∃ segment, docStatsLink out.docStatsSegment = .ok ⟨root.docStatsRoot, segment⟩ ∧
    segment.records.map (·.toDocStatsEntry) = kept.docStatsSegment

theorem buildFlushOutput_encodes {textSpaceId : TextSpaceId} {pending : PendingFrames}
    {state : TextSpaceState} {root : TextIndexRoot} {out : FlushOutput} (some : pending ≠ [])
    (built : (buildFlushOutput textSpaceId pending state root).2 = .ok out)
    (fits : out.termDictSegment.length < 2 ^ 32) :
    ∃ kept, (Valise.buildFlushOutput pending state).2 = .ok kept ∧ Encodes root out kept := by
  obtain ⟨records, flushed, more⟩ := Outcome.bind_eq_ok.mp built
  obtain ⟨termDictSegment, termDictEncoded, more⟩ := Outcome.bind_eq_ok.mp more
  obtain ⟨postingsSegment, postingsEncoded, more⟩ := Outcome.bind_eq_ok.mp more
  obtain ⟨docStatsSegment, docStatsEncoded, same⟩ := Outcome.bind_eq_ok.mp more
  obtain rfl := Outcome.ok.inj same
  have rows : records.docStatsRecords ≠ [] := by
    intro none
    have counted := flushRecords_docStats flushed
    rw [none] at counted
    exact some (List.length_eq_zero_iff.mp counted.symm)
  obtain ⟨postings, postingsRead, directory⟩ := postings_read postingsEncoded
  obtain ⟨docStats, docStatsRead, stats⟩ := docStats_read rows docStatsEncoded
  refine ⟨⟨records.termDictRecords, directoryOf postings, records.docStatsRecords⟩, ?_,
    termDict_read termDictEncoded fits, ⟨postings, postingsRead, rfl⟩, docStats, docStatsRead, stats⟩
  rw [buildFlushOutput_records, flushed, Outcome.ok_bind, directory]
  rfl

end TextBytes

end Valise
