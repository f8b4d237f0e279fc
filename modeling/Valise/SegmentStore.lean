import Valise.CodecParams
import Valise.FrameColumns
import Valise.Library.Chain
import Valise.Library.SortedTable

/-!
The segments of a file as the values they encode, and the reads that find a segment through the
registry.
-/

namespace Valise

open ByteLists Chains Outcomes SortedTables

/-- Payloads are kept uncompressed, vectors as the values they encode. The content of a text
segment is in its text space's own file. -/
inductive SegmentContent where
  | delta (kind : CatalogTableKind) (link : Link SegmentPlace (List kind.Row))
  | frameColumns (link : Link SegmentPlace (Option FrameColumns))
  | codecParams (params : CodecParams)
  | payload (bytes : Bytes)
  | metadata (bytes : Bytes)
  | vectorData (items : List (VectorId × List F32))
  | text (textSpaceId : TextSpaceId)
  | collectionFilter (collectionId : CollectionId) (frameIds : List FrameId)
      (vectorIds : List VectorId)
  | timeIndex (entries : List TimeIndexEntry)

structure StoredSegment where
  segmentId : SegmentId
  content : SegmentContent

abbrev StoredFile := List StoredSegment

namespace StoredFile

def readSegment (file : StoredFile) (root : SegmentPlace) : Option SegmentContent :=
  (file[root.place]?.filter fun stored => stored.segmentId = root.segmentId).map
    StoredSegment.content

def segmentContent (file : StoredFile) (registry : List SegmentCatalogEntry)
    (segmentId : SegmentId) : Option SegmentContent := do
  let entry ← find (CatalogTableKind.rowId .segment) segmentId.toNat registry
  file.readSegment entry.root

def readPayloadRef (file : StoredFile) (registry : List SegmentCatalogEntry) (ref : PayloadRef) :
    Result Bytes :=
  match file.segmentContent registry ref.segmentId with
  | some (.payload bytes) => do
      Outcome.ensure (ref.bytesOffset + ref.bytesLength ≤ bytes.length) (.integrity
        "payload ref exceeds segment length")
      return slice bytes ref.bytesOffset ref.bytesLength
  | _ => .err (.integrity "segment type mismatch")

end StoredFile

theorem readSegment_append {file : StoredFile} (later : StoredFile) {root : SegmentPlace}
    {content : SegmentContent} (found : file.readSegment root = some content) :
    StoredFile.readSegment (file ++ later) root = some content := by
  simp only [StoredFile.readSegment, Option.map_eq_some_iff, Option.filter_eq_some_iff] at found ⊢
  obtain ⟨stored, ⟨placed, named⟩, same⟩ := found
  refine ⟨stored, ⟨?_, named⟩, same⟩
  rw [List.getElem?_append_left (List.getElem?_eq_some_iff.mp placed).1, placed]

theorem readSegment_last (file : StoredFile) (segmentId : SegmentId) (content : SegmentContent) :
    StoredFile.readSegment (file ++ [⟨segmentId, content⟩]) ⟨segmentId, file.length⟩ =
      some content := by
  simp [StoredFile.readSegment]

end Valise
