import Valise.Toc

/-!
The 76-byte segment header and the plain append that every uncompressed segment goes through.
-/

namespace Valise

open ByteLists Outcomes

-- "VLSG"
def segmentMagic : Bytes := [86, 76, 83, 71]
def segmentHeaderSize : Nat := 76
def segmentVersion : UInt16 := 1

inductive SegmentType where
  | payload | frameCatalog | collectionCatalog | textSpaceCatalog | analyzerCatalog
  | fieldSchemaCatalog | retrievalProfileCatalog | embeddingSpaceCatalog | codecCatalog
  | vectorCatalog | fusionProfileCatalog | termDictionary | postings | positions | docStats
  | tokenSet | minHashSignature | forwardIndex | rawText | rawTextDictionary | vectorData
  | collectionFilter | codecParams | timeIndex | segmentRegistry | extension | metadata
deriving Repr, DecidableEq

def SegmentType.discriminant : SegmentType → Nat
  | .payload => 0x0001
  | .frameCatalog => 0x0002
  | .collectionCatalog => 0x0003
  | .textSpaceCatalog => 0x0004
  | .analyzerCatalog => 0x0005
  | .fieldSchemaCatalog => 0x0006
  | .retrievalProfileCatalog => 0x0007
  | .embeddingSpaceCatalog => 0x0008
  | .codecCatalog => 0x0009
  | .vectorCatalog => 0x000A
  | .fusionProfileCatalog => 0x000C
  | .termDictionary => 0x0010
  | .postings => 0x0011
  | .positions => 0x0012
  | .docStats => 0x0013
  | .tokenSet => 0x0014
  | .minHashSignature => 0x0015
  | .forwardIndex => 0x0016
  | .rawText => 0x0017
  | .rawTextDictionary => 0x0018
  | .vectorData => 0x0020
  | .collectionFilter => 0x0022
  | .codecParams => 0x0023
  | .timeIndex => 0x0030
  | .segmentRegistry => 0x00FE
  | .extension => 0x00FF
  | .metadata => 0x0019

inductive Compression where
  | none | zstd | lz4
deriving Repr, DecidableEq

def Compression.discriminant : Compression → Nat
  | .none => 0
  | .zstd => 1
  | .lz4 => 2

structure SegmentHeader where
  segmentVersion : UInt16
  segmentType : SegmentType
  segmentId : SegmentId
  flags : UInt32
  itemCount : UInt32
  compression : Compression
  uncompressedLength : UInt64
  payloadLength : UInt64
  payloadChecksum : Checksum
deriving DecidableEq

def SegmentHeader.encode (header : SegmentHeader) : Bytes :=
  segmentMagic ++ putLittleEndian 2 header.segmentVersion.toNat ++
    putLittleEndian 2 header.segmentType.discriminant ++
    putLittleEndian 8 header.segmentId.toNat ++ putLittleEndian 4 header.flags.toNat ++
    putLittleEndian 4 header.itemCount.toNat ++
    putLittleEndian 2 header.compression.discriminant ++ putLittleEndian 2 0 ++
    putLittleEndian 8 header.uncompressedLength.toNat ++
    putLittleEndian 8 header.payloadLength.toNat ++ header.payloadChecksum.1

section Append

variable (blake3 : Bytes → Checksum)

def SegmentHeader.new (segmentType : SegmentType) (segmentId : SegmentId) (itemCount : UInt32)
    (compression : Compression) (uncompressedLength : UInt64) (payload : Bytes) :
    SegmentHeader where
  segmentVersion := Valise.segmentVersion
  segmentType := segmentType
  segmentId := segmentId
  flags := 0
  itemCount := itemCount
  compression := compression
  uncompressedLength := uncompressedLength
  payloadLength := UInt64.ofNat payload.length
  payloadChecksum := blake3 payload

/-- The bytes `append_segment_at_end` writes: a header, then the payload as it is. -/
def segmentBytes (segmentId : SegmentId) (segmentType : SegmentType) (itemCount : UInt32)
    (payload : Bytes) : Bytes :=
  (SegmentHeader.new blake3 segmentType segmentId itemCount .none
    (UInt64.ofNat payload.length) payload).encode ++ payload

@[simp] theorem SegmentHeader.encode_length (header : SegmentHeader) :
    header.encode.length = segmentHeaderSize := by
  have digest := header.payloadChecksum.2
  simp only [blake3Len] at digest
  simp [SegmentHeader.encode, segmentMagic, segmentHeaderSize, digest]

end Append

/-! A segment of vectors: a header, the identifiers and the base bytes. -/

def vectorDataHeaderBytes : Nat := 34
def vectorIdBytes : Nat := 8

end Valise
