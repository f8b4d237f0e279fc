import Valise.Format
import Valise.Segment

/-!
The rows of the catalog tables. A segment is referred to by its id and its place in the file.
-/

namespace Valise

open ByteLists Outcomes

/-- The bits of a 32-bit float. -/
abbrev F32 := UInt32

def F32.isFinite (value : F32) : Bool := value.toNat / 2 ^ 23 % 2 ^ 8 ≠ 255

/-- Above zero: the sign bit is clear and some other bit is set. -/
def F32.isPositive (value : F32) : Bool := 0 < value.toNat ∧ value.toNat < 2 ^ 31

structure SegmentPlace where
  segmentId : SegmentId
  place : Nat
deriving DecidableEq, Repr

structure MetadataRef where
  segmentId : SegmentId
  bytesOffset : Nat
  bytesLength : Nat
deriving DecidableEq, Repr

structure PayloadRef where
  segmentId : SegmentId
  bytesOffset : Nat
  bytesLength : Nat
deriving DecidableEq, Repr

structure CollectionDesc where
  collectionId : CollectionId
  name : String
  createdAt : Int64
  defaultTextSpaceId : Option TextSpaceId
  defaultEmbeddingSpaceId : Option EmbeddingSpaceId
  flags : UInt32
  metadataRef : Option MetadataRef
deriving DecidableEq, Repr

inductive FrameRole where
  | document
  | chunk
  | tombstone
deriving DecidableEq, Repr

inductive FrameStatus where
  | active
  | tombstoned
deriving DecidableEq, Repr

inductive PayloadEncoding where
  | raw
  | zstd
  | lz4
deriving DecidableEq, Repr

structure FrameDesc where
  frameId : FrameId
  collectionId : CollectionId
  role : FrameRole
  createdAt : Int64
  updatedAt : Int64
  uriRef : Option MetadataRef
  titleRef : Option MetadataRef
  payloadRef : Option PayloadRef
  payloadEncoding : PayloadEncoding
  searchTextRef : Option MetadataRef
  parentFrameId : Option FrameId
  chunkIndex : Option UInt32
  chunkCount : Option UInt32
  metadataRef : Option MetadataRef
  status : FrameStatus
deriving DecidableEq, Repr

structure FrameStub where
  frameId : FrameId
  status : FrameStatus
deriving DecidableEq, Repr

def FrameDesc.stub (frame : FrameDesc) : FrameStub := ⟨frame.frameId, frame.status⟩

structure TextSpaceDesc where
  textSpaceId : TextSpaceId
  name : String
  analyzerId : AnalyzerId
  fieldSchemaId : FieldSchemaId
  defaultProfileId : RetrievalProfileId
  flags : UInt32
  enabledRetrievers : UInt32
deriving DecidableEq, Repr

inductive UnicodeNormalization where
  | none
  | nfc
  | nfkc
deriving DecidableEq, Repr

inductive Tokenizer where
  | unicodeWords
  | whitespace
  | charNgram
  | tokenShingle
deriving DecidableEq, Repr

inductive Stemming where
  | none
  | porter2English
deriving DecidableEq, Repr

inductive StopwordsPolicy where
  | none
  | englishLucene
deriving DecidableEq, Repr

inductive PunctuationPolicy where
  | drop
  | keep
deriving DecidableEq, Repr

structure AnalyzerDesc where
  analyzerId : AnalyzerId
  unicodeNormalization : UnicodeNormalization
  caseFold : Bool
  accentFold : Bool
  tokenizer : Tokenizer
  stemming : Stemming
  stopwordSetRef : Option MetadataRef
  stopwordQueryOnly : Bool
  stopwords : StopwordsPolicy
  englishPossessiveStrip : Bool
  minTokenLen : UInt16
  maxTokenLen : UInt16
  shingleSize : UInt8
  ngramMin : Option UInt8
  ngramMax : Option UInt8
  punctuationPolicy : PunctuationPolicy
deriving DecidableEq, Repr

inductive FieldSource where
  | searchText
  | title
  | uri
  | tags
  | metadataPath (path : String)
deriving DecidableEq, Repr

structure FieldDesc where
  fieldId : UInt16
  name : String
  source : FieldSource
  storePositions : Bool
  storeTermFreq : Bool
  storeSetMembership : Bool
  weight : F32
deriving DecidableEq, Repr

structure FieldSchemaDesc where
  fieldSchemaId : FieldSchemaId
  fields : List FieldDesc
deriving DecidableEq, Repr

inductive RetrievalProfileType where
  | bm25
  | tfidf
  | jaccardExact
  | jaccardWeighted
deriving DecidableEq, Repr

inductive TfMode where
  | raw
  | log
deriving DecidableEq, Repr

inductive NormMode where
  | none
  | l2
deriving DecidableEq, Repr

inductive TokenSource where
  | terms
  | shingles
deriving DecidableEq, Repr

inductive WeightSource where
  | termFrequency
  | tfidf
deriving DecidableEq, Repr

/-- The idf modes have one value each. -/
inductive RetrievalProfileParams where
  | bm25 (k1 b : F32)
  | tfidf (tfMode : TfMode) (normMode : NormMode)
  | jaccardExact (tokenSource : TokenSource)
  | jaccardWeighted (weightSource : WeightSource) (tokenSource : TokenSource)
deriving DecidableEq, Repr

structure RetrievalProfileDesc where
  profileId : RetrievalProfileId
  profileType : RetrievalProfileType
  params : RetrievalProfileParams
deriving DecidableEq, Repr

inductive VectorMetric where
  | cosine
  | innerProduct
  | l2
deriving DecidableEq, Repr

inductive Dtype where
  | f32
  | f16
  | bf16
  | f8e4m3
  | f8e5m2
deriving DecidableEq, Repr

def Dtype.isF8 : Dtype → Bool
  | .f8e4m3 => true
  | .f8e5m2 => true
  | _ => false

def Dtype.setBit : Dtype → Nat
  | .f32 => 0
  | .f16 => 1
  | .bf16 => 2
  | .f8e4m3 => 3
  | .f8e5m2 => 4

structure EmbeddingSpaceDesc where
  embeddingSpaceId : EmbeddingSpaceId
  provider : String
  model : String
  dimension : UInt32
  metric : VectorMetric
  normalized : Bool
  dtype : Dtype
  primaryCodecId : Option CodecId
  secondaryCodecId : Option CodecId
  flags : UInt32
deriving DecidableEq, Repr

inductive CodecFamily where
  | legacyInt4PcaZero
  | qamLloydMax
  | upq
deriving DecidableEq, Repr

structure CodecDesc where
  codecId : CodecId
  family : CodecFamily
  version : UInt16
  paramsRef : SegmentPlace
deriving DecidableEq, Repr

inductive VectorStatus where
  | active
  | tombstoned
deriving DecidableEq, Repr

structure VectorDesc where
  vectorId : VectorId
  ownerFrameId : FrameId
  collectionId : CollectionId
  embeddingSpaceId : EmbeddingSpaceId
  dataSegmentId : SegmentId
  ordinalInSegment : Nat
  status : VectorStatus
deriving DecidableEq, Repr

inductive FusionNormalization where
  | none
  | zScore
  | minMax
  | rrf (k : UInt32)
deriving DecidableEq, Repr

structure FusionProfileDesc where
  fusionProfileId : FusionProfileId
  bm25Weight : F32
  tfidfWeight : F32
  jaccardWeight : F32
  vectorWeight : F32
  normalization : FusionNormalization
deriving DecidableEq, Repr

/-- Zero or a positive number: only a negative one is below zero. -/
def F32.isNegative (value : F32) : Bool := 2 ^ 31 < value.toNat

namespace FusionProfileDesc

def checkWeight (label : String) (weight : F32) : Result Unit := do
  Outcome.ensure (weight.isFinite) (.format
    s!"FusionProfileDesc {label} must be finite, got {weight}")
  Outcome.ensure (¬weight.isNegative) (.format
    s!"FusionProfileDesc {label} must be non-negative, got {weight}")

/-- The sum of finite weights that are not negative is positive when one of them is. -/
def validate (desc : FusionProfileDesc) : Result Unit := do
  checkWeight "bm25_weight" desc.bm25Weight
  checkWeight "tfidf_weight" desc.tfidfWeight
  checkWeight "jaccard_weight" desc.jaccardWeight
  checkWeight "vector_weight" desc.vectorWeight
  Outcome.ensure (desc.bm25Weight.isPositive ∨ desc.tfidfWeight.isPositive ∨
      desc.jaccardWeight.isPositive ∨ desc.vectorWeight.isPositive) (.format
    "FusionProfileDesc requires at least one positive channel weight")
  Outcome.ensure (desc.normalization ≠ .rrf 0) (.format "FusionProfileDesc RRF k must be >= 1")

end FusionProfileDesc

/-- The analyzer is kept as its description; only the tokenizer can make its construction fail. -/
def AnalyzerDesc.build (desc : AnalyzerDesc) : Result Unit :=
  match desc.tokenizer with
  | .unicodeWords => return ()
  | .whitespace => return ()
  | .charNgram => .err (.unsupported
      "Tokenizer::CharNgram is reserved for v2; v1 supports only UnicodeWords and Whitespace")
  | .tokenShingle => .err (.unsupported
      "Tokenizer::TokenShingle is reserved for v2; v1 supports only UnicodeWords and Whitespace")

structure SegmentCatalogEntry where
  segmentId : SegmentId
  segmentType : SegmentType
  root : SegmentPlace
  itemCount : Nat
  compression : Compression
deriving DecidableEq

inductive CatalogTableKind where
  | segment
  | collection
  | frame
  | textSpace
  | analyzer
  | fieldSchema
  | retrievalProfile
  | embeddingSpace
  | codec
  | vector
  | fusionProfile
deriving DecidableEq, Repr

namespace CatalogTableKind

abbrev Row : CatalogTableKind → Type
  | .segment => SegmentCatalogEntry
  | .collection => CollectionDesc
  | .frame => FrameDesc
  | .textSpace => TextSpaceDesc
  | .analyzer => AnalyzerDesc
  | .fieldSchema => FieldSchemaDesc
  | .retrievalProfile => RetrievalProfileDesc
  | .embeddingSpace => EmbeddingSpaceDesc
  | .codec => CodecDesc
  | .vector => VectorDesc
  | .fusionProfile => FusionProfileDesc

def rowId : (kind : CatalogTableKind) → kind.Row → Nat
  | .segment, row => row.segmentId.toNat
  | .collection, row => row.collectionId.toNat
  | .frame, row => row.frameId.toNat
  | .textSpace, row => row.textSpaceId.toNat
  | .analyzer, row => row.analyzerId.toNat
  | .fieldSchema, row => row.fieldSchemaId.toNat
  | .retrievalProfile, row => row.profileId.toNat
  | .embeddingSpace, row => row.embeddingSpaceId.toNat
  | .codec, row => row.codecId.toNat
  | .vector, row => row.vectorId.toNat
  | .fusionProfile, row => row.fusionProfileId.toNat

/-- The order in which a commit flushes the tables; the registry comes last. -/
def flushOrder : List CatalogTableKind :=
  [.collection, .frame, .textSpace, .analyzer, .fieldSchema, .retrievalProfile, .embeddingSpace,
    .codec, .vector, .fusionProfile]

theorem mem_flushOrder (kind : CatalogTableKind) : kind ∈ flushOrder ↔ kind ≠ .segment := by
  cases kind <;> decide

end CatalogTableKind

/-- The catalog tables, the registry among them. -/
abbrev Tables := (kind : CatalogTableKind) → List kind.Row

end Valise
