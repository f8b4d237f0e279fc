import Valise.Library.Outcome
import Valise.Library.Wire

/-!
Wire types shared by the file's structures: checksums, segment references, the identifier
allocator, the create-time contract and the body of a TOC footer.
-/

namespace Valise

open ByteLists Numerals Outcomes Wire

def blake3Len : Nat := 32
def headerSize : Nat := 4096

abbrev Checksum := { bytes : Bytes // bytes.length = blake3Len }

inductive Error where
  | io
  | format (message : String)
  | serde (message : String)
  | integrity (message : String)
  | unsupported (message : String)
  | busy (message : String)
deriving Repr, DecidableEq

abbrev Result (α : Type) := Outcome Error α

abbrev CollectionId := UInt32
abbrev FrameId := UInt64
abbrev TextSpaceId := UInt32
abbrev AnalyzerId := UInt32
abbrev FieldSchemaId := UInt32
abbrev RetrievalProfileId := UInt32
abbrev EmbeddingSpaceId := UInt32
abbrev CodecId := UInt32
abbrev FusionProfileId := UInt32
abbrev VectorId := UInt64
abbrev SegmentId := UInt64

/-- A Rust vector: its length fits the machine word. -/
abbrev Vec (α : Type) := { values : List α // values.length < 2 ^ 64 }

def Vec.empty {α : Type} : Vec α := ⟨[], by simp⟩

structure SegmentRef where
  segmentId : SegmentId
  offset : UInt64
  length : UInt64
  checksum : Checksum
deriving DecidableEq

structure IdAllocator where
  nextCollectionId : CollectionId := 1
  nextFrameId : FrameId := 1
  nextTextSpaceId : TextSpaceId := 1
  nextAnalyzerId : AnalyzerId := 1
  nextFieldSchemaId : FieldSchemaId := 1
  nextRetrievalProfileId : RetrievalProfileId := 1
  nextEmbeddingSpaceId : EmbeddingSpaceId := 1
  nextCodecId : CodecId := 1
  nextVectorId : VectorId := 1
  nextSegmentId : SegmentId := 1
  nextFusionProfileId : FusionProfileId := 1
deriving DecidableEq

structure CreateContractV1 where
  schemaVersion : UInt16 := 1
  textEnabled : Bool := true
  maxDim : UInt32 := 4096
  allowedDtypes : UInt8 := 31
  autoPromoteNonF8 : UInt64 := 200000
  autoPromoteF8 : UInt64 := 500000
  reserved : { bytes : Bytes // bytes.length = 16 } := ⟨List.replicate 16 0, zeros_length⟩
deriving DecidableEq

structure TextIndexRoot where
  textSpaceId : TextSpaceId
  termDictionaryRoot : Option SegmentRef
  postingsRoot : Option SegmentRef
  positionsRoot : Option SegmentRef
  docStatsRoot : Option SegmentRef
  tokenSetRoots : Vec SegmentRef
  minhashSignatureRoots : Vec SegmentRef
deriving DecidableEq

structure CollectionFilterRoot where
  collectionId : CollectionId
  frameFilterRoot : Option SegmentRef
  vectorFilterRoot : Option SegmentRef
deriving DecidableEq

structure TimeIndexRoot where
  collectionId : Option CollectionId
  root : SegmentRef
deriving DecidableEq

structure TocFooterBody where
  snapshotGeneration : UInt64
  idAllocator : IdAllocator := {}
  segmentCatalogRoot : Option SegmentRef := none
  collectionCatalogRoot : Option SegmentRef := none
  frameCatalogRoot : Option SegmentRef := none
  textSpaceCatalogRoot : Option SegmentRef := none
  analyzerCatalogRoot : Option SegmentRef := none
  fieldSchemaCatalogRoot : Option SegmentRef := none
  retrievalProfileCatalogRoot : Option SegmentRef := none
  embeddingSpaceCatalogRoot : Option SegmentRef := none
  codecCatalogRoot : Option SegmentRef := none
  vectorCatalogRoot : Option SegmentRef := none
  fusionProfileCatalogRoot : Option SegmentRef := none
  textIndexRoots : Vec TextIndexRoot := Vec.empty
  collectionFilterRoots : Vec CollectionFilterRoot := Vec.empty
  timeIndexRoots : Vec TimeIndexRoot := Vec.empty
  createContract : CreateContractV1
deriving DecidableEq

/-! ### Wire encodings, field by field in declaration order -/

def SegmentRef.codec : Codec SegmentRef :=
  (Codec.uint64.pair (Codec.uint64.pair (Codec.uint64.pair (Codec.fixed blake3Len)))).via
    (fun root => (root.segmentId, root.offset, root.length, root.checksum))
    (fun (segmentId, offset, length, checksum) => ⟨segmentId, offset, length, checksum⟩)
    (fun _ => rfl)

def IdAllocator.codec : Codec IdAllocator :=
  (Codec.uint32.pair (Codec.uint64.pair (Codec.uint32.pair (Codec.uint32.pair
    (Codec.uint32.pair (Codec.uint32.pair (Codec.uint32.pair (Codec.uint32.pair
      (Codec.uint64.pair (Codec.uint64.pair Codec.uint32)))))))))).via
    (fun ids => (ids.nextCollectionId, ids.nextFrameId, ids.nextTextSpaceId, ids.nextAnalyzerId,
      ids.nextFieldSchemaId, ids.nextRetrievalProfileId, ids.nextEmbeddingSpaceId,
      ids.nextCodecId, ids.nextVectorId, ids.nextSegmentId, ids.nextFusionProfileId))
    (fun (collection, frame, textSpace, analyzer, fieldSchema, retrievalProfile, embeddingSpace,
        codec, vector, segment, fusionProfile) =>
      ⟨collection, frame, textSpace, analyzer, fieldSchema, retrievalProfile, embeddingSpace,
        codec, vector, segment, fusionProfile⟩)
    (fun _ => rfl)

def CreateContractV1.codec : Codec CreateContractV1 :=
  (Codec.uint16.pair (Codec.bool.pair (Codec.uint32.pair (Codec.byte.pair
    (Codec.uint64.pair (Codec.uint64.pair (Codec.fixed 16))))))).via
    (fun contract => (contract.schemaVersion, contract.textEnabled, contract.maxDim,
      contract.allowedDtypes, contract.autoPromoteNonF8, contract.autoPromoteF8,
      contract.reserved))
    (fun (schemaVersion, textEnabled, maxDim, allowedDtypes, autoPromoteNonF8, autoPromoteF8,
        reserved) =>
      ⟨schemaVersion, textEnabled, maxDim, allowedDtypes, autoPromoteNonF8, autoPromoteF8,
        reserved⟩)
    (fun _ => rfl)

def rootCodec : Codec (Option SegmentRef) := SegmentRef.codec.option

def TextIndexRoot.codec : Codec TextIndexRoot :=
  (Codec.uint32.pair (rootCodec.pair (rootCodec.pair (rootCodec.pair (rootCodec.pair
    ((Codec.list SegmentRef.codec).pair (Codec.list SegmentRef.codec))))))).via
    (fun root => (root.textSpaceId, root.termDictionaryRoot, root.postingsRoot,
      root.positionsRoot, root.docStatsRoot, root.tokenSetRoots, root.minhashSignatureRoots))
    (fun (textSpaceId, termDictionary, postings, positions, docStats, tokenSets, minhash) =>
      ⟨textSpaceId, termDictionary, postings, positions, docStats, tokenSets, minhash⟩)
    (fun _ => rfl)

def CollectionFilterRoot.codec : Codec CollectionFilterRoot :=
  (Codec.uint32.pair (rootCodec.pair rootCodec)).via
    (fun root => (root.collectionId, root.frameFilterRoot, root.vectorFilterRoot))
    (fun (collectionId, frameFilter, vectorFilter) => ⟨collectionId, frameFilter, vectorFilter⟩)
    (fun _ => rfl)

def TimeIndexRoot.codec : Codec TimeIndexRoot :=
  (Codec.uint32.option.pair SegmentRef.codec).via
    (fun root => (root.collectionId, root.root))
    (fun (collectionId, root) => ⟨collectionId, root⟩)
    (fun _ => rfl)

def TocFooterBody.codec : Codec TocFooterBody :=
  (Codec.uint64.pair (IdAllocator.codec.pair (rootCodec.pair (rootCodec.pair (rootCodec.pair
    (rootCodec.pair (rootCodec.pair (rootCodec.pair (rootCodec.pair (rootCodec.pair
      (rootCodec.pair (rootCodec.pair (rootCodec.pair ((Codec.list TextIndexRoot.codec).pair
        ((Codec.list CollectionFilterRoot.codec).pair ((Codec.list TimeIndexRoot.codec).pair
          CreateContractV1.codec)))))))))))))))).via
    (fun body => (body.snapshotGeneration, body.idAllocator, body.segmentCatalogRoot,
      body.collectionCatalogRoot, body.frameCatalogRoot, body.textSpaceCatalogRoot,
      body.analyzerCatalogRoot, body.fieldSchemaCatalogRoot, body.retrievalProfileCatalogRoot,
      body.embeddingSpaceCatalogRoot, body.codecCatalogRoot, body.vectorCatalogRoot,
      body.fusionProfileCatalogRoot, body.textIndexRoots, body.collectionFilterRoots,
      body.timeIndexRoots, body.createContract))
    (fun (snapshotGeneration, idAllocator, segmentCatalog, collectionCatalog, frameCatalog,
        textSpaceCatalog, analyzerCatalog, fieldSchemaCatalog, retrievalProfileCatalog,
        embeddingSpaceCatalog, codecCatalog, vectorCatalog, fusionProfileCatalog, textIndex,
        collectionFilter, timeIndex, createContract) =>
      ⟨snapshotGeneration, idAllocator, segmentCatalog, collectionCatalog, frameCatalog,
        textSpaceCatalog, analyzerCatalog, fieldSchemaCatalog, retrievalProfileCatalog,
        embeddingSpaceCatalog, codecCatalog, vectorCatalog, fusionProfileCatalog, textIndex,
        collectionFilter, timeIndex, createContract⟩)
    (fun _ => rfl)

/-- The digest of the canonical encoding, for a hash with 32-byte digests. -/
def CreateContractV1.digest (blake3 : Bytes → Checksum) (contract : CreateContractV1) : Checksum :=
  blake3 (CreateContractV1.codec.encode contract)

end Valise
