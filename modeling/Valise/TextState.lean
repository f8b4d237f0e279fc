import Valise.Library.Chain
import Valise.Library.SortedTable
import Valise.Postings

/-!
The in-memory state of one text space: the write-side maps that a flush fills, and the postings
directory that an open loads from the segment chain.
-/

namespace Valise

open ByteLists Chains Outcomes SortedTables

structure PostingsDirectoryEntry where
  termId : TermId
  df : UInt32
  cf : UInt64
  blobOffset : UInt32
  blobLen : UInt32
deriving DecidableEq, Repr

structure PostingsSegmentDirectory where
  entries : List PostingsDirectoryEntry
  blob : Bytes
deriving DecidableEq, Repr

structure PostingsLocator where
  segmentIdx : Nat
  entryIdx : Nat
deriving DecidableEq, Repr

structure TermDictionaryEntry where
  termId : TermId
  termBytes : Bytes
  collectionFreq : UInt64
  docFreq : UInt32
deriving DecidableEq, Repr

structure DocStatsEntry where
  frameId : FrameId
  collectionId : CollectionId
  fieldLengths : List UInt32
  totalTerms : UInt32
  uniqueTerms : UInt32
deriving DecidableEq, Repr

def termRank (termId : TermId) : Nat := termId.toNat

def frameRank (frameId : FrameId) : Nat := frameId.toNat

/-- Byte strings in lexicographic order. -/
def bytesRank (bytes : Bytes) : List Nat := bytes.map UInt8.toNat

theorem termRank_injective : Function.Injective termRank := fun _ _ same => UInt32.toNat_inj.mp same

theorem frameRank_injective : Function.Injective frameRank :=
  fun _ _ same => UInt64.toNat_inj.mp same

theorem bytesRank_injective : Function.Injective bytesRank :=
  List.map_injective_iff.mpr fun _ _ same => UInt8.toNat_inj.mp same

/-- Hash maps are tables in key order. A slot of `singleSegmentDirIndex` without a posting list
is `none`. -/
structure TextSpaceState where
  termIdByBytes : List (Bytes × TermId) := []
  sortedTerms : List (Bytes × TermId) := []
  dfByTerm : List (TermId × UInt32) := []
  cfByTerm : List (TermId × UInt64) := []
  postingsByTerm : List (TermId × List Posting) := []
  postingsSegments : List PostingsSegmentDirectory := []
  singleSegmentDirIndex : List (Option Nat) := []
  postingsLocator : List (TermId × List PostingsLocator) := []
  docStats : List (FrameId × DocStatsEntry) := []
  nextTermId : TermId := 0
deriving DecidableEq

/-- Insert or replace the row of the posting's frame. -/
def upsertPosting (posting : Posting) (postings : List Posting) : List Posting :=
  upsert (fun row => frameRank row.frameId) posting postings

def decodeEntry (seg : PostingsSegmentDirectory) (entry : PostingsDirectoryEntry) :
    Result PostingListSoaDecoded :=
  decodeTermBlobInto entry.termId entry.df
    (slice seg.blob entry.blobOffset.toNat entry.blobLen.toNat)

/-- The entry a locator points at; the source indexes both vectors directly. -/
def locateEntry (segments : List PostingsSegmentDirectory) (locator : PostingsLocator) :
    Result PostingListSoaDecoded :=
  match segments[locator.segmentIdx]? with
  | none => .panic
  | some seg =>
      match seg.entries[locator.entryIdx]? with
      | none => .panic
      | some entry => decodeEntry seg entry

def sortByFrame (rows : List Posting) : List Posting :=
  rows.insertionSort fun first second => frameRank first.frameId ≤ frameRank second.frameId

def mergeLocated (segments : List PostingsSegmentDirectory) :
    PostingListSoaDecoded → List PostingsLocator → Result PostingListSoaDecoded
  | merged, [] => return merged
  | merged, locator :: locators => do
      let one ← locateEntry segments locator
      mergeLocated segments
        { merged with rows := merged.rows ++ one.rows, df := merged.df + one.df } locators

def decodeTermLocators (segments : List PostingsSegmentDirectory) :
    List PostingsLocator → Result (Option PostingListSoaDecoded)
  | [] => return none
  | [locator] => do
      let one ← locateEntry segments locator
      return some one
  | locator :: locators => do
      let first ← locateEntry segments locator
      let merged ← mergeLocated segments first locators
      return some { merged with rows := sortByFrame merged.rows }

namespace TextSpaceState

/-- A binary search over the terms loaded at open, then the write-side map. -/
def lookupTerm (state : TextSpaceState) (bytes : Bytes) : Option TermId :=
  (valueAt bytesRank bytes state.sortedTerms).or (valueAt bytesRank bytes state.termIdByBytes)

def indexedEntry (state : TextSpaceState) (termId : TermId) :
    Option (PostingsSegmentDirectory × PostingsDirectoryEntry) := do
  let entryIdx ← (state.singleSegmentDirIndex[termId.toNat]?).join
  let seg ← state.postingsSegments[0]?
  let entry ← seg.entries[entryIdx]?
  return (seg, entry)

def dfFor (state : TextSpaceState) (termId : TermId) : UInt32 :=
  match state.indexedEntry termId with
  | some (_, entry) => entry.df
  | none => (valueAt termRank termId state.dfByTerm).getD 0

/-- The decoded copy of a write-side list. -/
def cachedList (termId : TermId) (rows : List Posting) : Option PostingListSoaDecoded :=
  if rows = [] then none else some ⟨termId, UInt32.ofNat rows.length, rows⟩

def lookupPostings (state : TextSpaceState) (termId : TermId) : Option PostingListSoaDecoded :=
  match state.indexedEntry termId with
  | some (seg, entry) => (decodeEntry seg entry).toOption
  | none =>
      match valueAt termRank termId state.postingsLocator with
      | some locators => (decodeTermLocators state.postingsSegments locators).toOption.join
      | none => (valueAt termRank termId state.postingsByTerm).bind (cachedList termId)

def iterAllPostings (state : TextSpaceState) : List (TermId × PostingListSoaDecoded) :=
  if state.postingsByTerm ≠ [] then
    state.postingsByTerm.filterMap fun (termId, rows) => (cachedList termId rows).map (termId, ·)
  else if state.singleSegmentDirIndex ≠ [] ∧ state.postingsSegments ≠ [] then
    (List.range state.singleSegmentDirIndex.length).filterMap fun slot =>
      (state.singleSegmentDirIndex[slot]?).join.bind fun _ =>
        (state.lookupPostings (UInt32.ofNat slot)).map (UInt32.ofNat slot, ·)
  else
    state.postingsLocator.filterMap fun (termId, _) => (state.lookupPostings termId).map (termId, ·)

end TextSpaceState

/-! ### The segment chains on disk, and the state an open builds from them -/

inductive TextSegment where
  | termDictionary (link : Link Nat (List TermDictionaryEntry))
  | postings (link : Link Nat PostingsSegmentDirectory)
  | docStats (link : Link Nat (List DocStatsEntry))

/-- The heads of a text space's chains. A segment is referred to by its place in the file. -/
structure TextRoots where
  termDictionaryRoot : Option Nat := none
  postingsRoot : Option Nat := none
  docStatsRoot : Option Nat := none

abbrev TextFile := List TextSegment

def TextFile.readTermDictionary (file : TextFile) (root : Nat) :
    Option (Link Nat (List TermDictionaryEntry)) :=
  match file[root]? with
  | some (.termDictionary link) => some link
  | _ => none

def TextFile.readPostings (file : TextFile) (root : Nat) :
    Option (Link Nat PostingsSegmentDirectory) :=
  match file[root]? with
  | some (.postings link) => some link
  | _ => none

def TextFile.readDocStats (file : TextFile) (root : Nat) :
    Option (Link Nat (List DocStatsEntry)) :=
  match file[root]? with
  | some (.docStats link) => some link
  | _ => none

def bumpTermId (next : TermId) (entry : TermDictionaryEntry) : TermId :=
  if next < entry.termId + 1 then entry.termId + 1 else next

def loadTerms (dictionary : List TermDictionaryEntry) (state : TextSpaceState) : TextSpaceState :=
  { state with
    nextTermId := dictionary.foldl bumpTermId state.nextTermId
    sortedTerms := (dictionary.map fun entry => (entry.termBytes, entry.termId)).insertionSort
      fun first second => bytesRank first.1 ≤ bytesRank second.1 }

def fillIndex : List PostingsDirectoryEntry → Nat → List (Option Nat) → List (Option Nat)
  | [], _, index => index
  | entry :: entries, entryIdx, index =>
      fillIndex entries (entryIdx + 1) (index.set entry.termId.toNat (some entryIdx))

def addTo {α : Type} [Add α] [Zero α] (termId : TermId) (amount : α)
    (totals : List (TermId × α)) : List (TermId × α) :=
  store termRank termId ((valueAt termRank termId totals).getD 0 + amount) totals

def recordEntry (locator : PostingsLocator) (entry : PostingsDirectoryEntry)
    (state : TextSpaceState) : TextSpaceState :=
  { state with
    dfByTerm := addTo entry.termId entry.df state.dfByTerm
    cfByTerm := addTo entry.termId entry.cf state.cfByTerm
    postingsLocator := store termRank entry.termId
      ((valueAt termRank entry.termId state.postingsLocator).getD [] ++ [locator])
      state.postingsLocator }

/-- Every directory entry with its place, segments oldest first. -/
def placedEntries (segments : List PostingsSegmentDirectory) :
    List (PostingsLocator × PostingsDirectoryEntry) :=
  segments.zipIdx.flatMap fun (seg, segmentIdx) =>
    seg.entries.zipIdx.map fun (entry, entryIdx) => (⟨segmentIdx, entryIdx⟩, entry)

def loadPostings (segments : List PostingsSegmentDirectory) (state : TextSpaceState) :
    TextSpaceState :=
  match segments with
  | [seg] =>
      let maxTermId := (seg.entries.map fun entry => entry.termId.toNat).foldl max 0
      { state with
        postingsSegments := segments
        singleSegmentDirIndex := fillIndex seg.entries 0 (List.replicate (maxTermId + 1) none) }
  | _ =>
      (placedEntries segments).foldl (fun state (locator, entry) => recordEntry locator entry state)
        { state with postingsSegments := segments }

def recordDocStats (state : TextSpaceState) (entry : DocStatsEntry) : TextSpaceState :=
  { state with docStats := store frameRank entry.frameId entry state.docStats }

def rebuildTextSpaceState (file : TextFile) (root : TextRoots) : Option TextSpaceState := do
  let dictionary ← walk file.readTermDictionary file.length root.termDictionaryRoot
  let postings ← walk file.readPostings file.length root.postingsRoot
  let docStats ← walk file.readDocStats file.length root.docStatsRoot
  return docStats.flatten.foldl recordDocStats
    (loadPostings postings (loadTerms dictionary.flatten {}))

end Valise
