import Valise.TextState

/-!
Flushing one text space's pending frames: new terms, inverted postings and document statistics
go into the in-memory state in place and into three delta segments.
-/

namespace Valise

open ByteLists Outcomes SortedTables

/-- One frame's term counts; the hash map is a table in byte order. -/
structure PendingFrameIndex where
  collectionId : CollectionId
  termCounts : List (Bytes × UInt32)
  totalTerms : UInt32
deriving DecidableEq

def countToken (counts : List (Bytes × UInt32)) (token : Bytes) : List (Bytes × UInt32) :=
  store bytesRank token ((valueAt bytesRank token counts).getD 0 + 1) counts

def PendingFrameIndex.fromTokens (collectionId : CollectionId) (tokens : List Bytes) :
    PendingFrameIndex where
  collectionId := collectionId
  termCounts := tokens.foldl countToken []
  totalTerms := UInt32.ofNat tokens.length

/-- Pending frames of one text space, in frame order. -/
abbrev PendingFrames := List (FrameId × PendingFrameIndex)

def pendingTokens (pending : PendingFrames) : List Bytes :=
  pending.flatMap fun (_, frame) => frame.termCounts.map Prod.fst

def newTermBytes (state : TextSpaceState) (tokens : List Bytes) : List Bytes :=
  upsertAll bytesRank [] (tokens.filter fun token => state.lookupTerm token = none)

def assignTermIds (state : TextSpaceState) : List Bytes →
    TextSpaceState × Result (List (TermId × Bytes))
  | [] => (state, .ok [])
  | token :: tokens =>
      if state.nextTermId.toNat + 1 < 2 ^ 32 then
        let assigned := assignTermIds
          { state with
            nextTermId := state.nextTermId + 1
            termIdByBytes := store bytesRank token state.nextTermId state.termIdByBytes } tokens
        (assigned.1, do
          let records ← assigned.2
          return (state.nextTermId, token) :: records)
      else (state, .err (.format "text-space term_id space exhausted"))

structure FlatPosting where
  termId : TermId
  frameId : FrameId
  collectionId : CollectionId
  termFreq : UInt32
deriving DecidableEq, Repr

def FlatPosting.posting (flat : FlatPosting) : Posting :=
  ⟨flat.frameId, flat.collectionId, 1, flat.termFreq⟩

/-- The tuples of one frame; a token without an id is a bug the source aborts on. -/
def flattenFrame (lookup : Bytes → Option TermId) (frameId : FrameId)
    (collectionId : CollectionId) : List (Bytes × UInt32) → Result (List FlatPosting)
  | [] => return []
  | (bytes, termFreq) :: counts =>
      match lookup bytes with
      | none => .panic
      | some termId => do
          let rest ← flattenFrame lookup frameId collectionId counts
          return ⟨termId, frameId, collectionId, termFreq⟩ :: rest

def flattenPending (lookup : Bytes → Option TermId) : PendingFrames → Result (List FlatPosting)
  | [] => return []
  | (frameId, frame) :: frames => do
      let first ← flattenFrame lookup frameId frame.collectionId frame.termCounts
      let rest ← flattenPending lookup frames
      return first ++ rest

def flatBefore (first second : FlatPosting) : Prop :=
  termRank first.termId < termRank second.termId ∨
    first.termId = second.termId ∧ frameRank first.frameId ≤ frameRank second.frameId

instance (first second : FlatPosting) : Decidable (flatBefore first second) :=
  inferInstanceAs (Decidable (_ ∨ _))

def sortFlat (flat : List FlatPosting) : List FlatPosting := flat.insertionSort flatBefore

/-- The contiguous runs of one term id, each a posting list. -/
def groupRuns : List FlatPosting → List (TermId × List Posting)
  | [] => []
  | flat :: rest =>
      match groupRuns rest with
      | [] => [(flat.termId, [flat.posting])]
      | (termId, postings) :: runs =>
          if termId = flat.termId then (termId, flat.posting :: postings) :: runs
          else (flat.termId, [flat.posting]) :: (termId, postings) :: runs

def postingLists (flat : List FlatPosting) : List PostingList :=
  (groupRuns (sortFlat flat)).map fun (termId, postings) =>
    ⟨termId, UInt32.ofNat postings.length, postings⟩

def collectionFreq (postings : List Posting) : UInt64 :=
  postings.foldl (fun total posting => total + posting.termFreq.toUInt64) 0

def applyPostingList (state : TextSpaceState) (list : PostingList) : TextSpaceState :=
  { state with
    dfByTerm := addTo list.termId list.df state.dfByTerm
    cfByTerm := addTo list.termId (collectionFreq list.postings) state.cfByTerm
    postingsByTerm := store termRank list.termId
      (list.postings.foldl (fun rows posting => upsertPosting posting rows)
        ((valueAt termRank list.termId state.postingsByTerm).getD []))
      state.postingsByTerm }

def termDictRecord (newTerms : List (TermId × Bytes)) (list : PostingList) :
    Option TermDictionaryEntry :=
  (newTerms.find? fun entry => entry.1 = list.termId).map fun entry =>
    ⟨list.termId, entry.2, collectionFreq list.postings, list.df⟩

def docStatsRecord (frameId : FrameId) (frame : PendingFrameIndex) : DocStatsEntry :=
  ⟨frameId, frame.collectionId, [frame.totalTerms], frame.totalTerms,
    UInt32.ofNat frame.termCounts.length⟩

/-- The blob and the directory. No list is longer than `u32::MAX`, so none is packed dense. -/
def encodePostingsEntries : List PostingList → PostingsSegmentDirectory →
    Result PostingsSegmentDirectory
  | [], seg => return seg
  | list :: lists, seg => do
      Outcome.ensure (seg.blob.length < 2 ^ 32) (.format "PostingsSegment: blob offset exceeds u32")
      let termBlob ← encodePostingBlob list
      Outcome.ensure (termBlob.length < 2 ^ 32) (.format
        "PostingsSegment: term blob length exceeds u32")
      Outcome.ensure (termBlob.length < 2 ^ 31) (.format
        "PostingsSegment: term blob length collides with dense flag bit")
      encodePostingsEntries lists
        { entries := seg.entries ++ [⟨list.termId, list.df, collectionFreq list.postings,
            UInt32.ofNat seg.blob.length, UInt32.ofNat termBlob.length⟩]
          blob := seg.blob ++ termBlob }

def encodePostingsSegment (lists : List PostingList) : Result PostingsSegmentDirectory := do
  let seg ← encodePostingsEntries lists ⟨[], []⟩
  Outcome.ensure (seg.blob.length < 2 ^ 32) (.format "PostingsSegment: blob exceeds u32")
  Outcome.ensure (lists.length < 2 ^ 32) (.format "PostingsSegment: dir count exceeds u32")
  return seg

structure FlushOutput where
  termDictSegment : List TermDictionaryEntry
  postingsSegment : PostingsSegmentDirectory
  docStatsSegment : List DocStatsEntry

/-- The state is updated in place, so it comes back changed also when the encoding fails. -/
def buildFlushOutput (pending : PendingFrames) (state : TextSpaceState) :
    TextSpaceState × Result FlushOutput :=
  let assigned := assignTermIds state (newTermBytes state (pendingTokens pending))
  match assigned.2 with
  | .err error => (assigned.1, .err error)
  | .panic => (assigned.1, .panic)
  | .ok newTerms =>
      match flattenPending assigned.1.lookupTerm pending with
      | .err error => (assigned.1, .err error)
      | .panic => (assigned.1, .panic)
      | .ok flat =>
          let lists := postingLists flat
          let docStats := pending.map fun (frameId, frame) => docStatsRecord frameId frame
          (docStats.foldl recordDocStats (lists.foldl applyPostingList assigned.1), do
            let postings ← encodePostingsSegment lists
            return ⟨lists.filterMap (termDictRecord newTerms), postings, docStats⟩)

end Valise
