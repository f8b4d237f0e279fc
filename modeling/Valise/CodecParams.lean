import Valise.CatalogRows

/-!
The parameters of the vector codecs: what the parameter encoder checks, and what a live codec
checks again when it is built from them.
-/

namespace Valise

open Outcomes

structure QamLloydMaxParams where
  dimension : UInt32
  numPairs : UInt32
  blockSize : UInt32
  rotationSeed : UInt64
  ampBits : UInt8
  phaseBits : UInt8
  renormalizeAtDecode : Bool
  sigmaPerPair : List F32
  calibrationId : Checksum
deriving DecidableEq

inductive UpqDesignSource where
  | empirical
  | rayleigh
deriving DecidableEq, Repr

structure UpqParams where
  dimension : UInt32
  numPairs : UInt32
  blockSize : UInt32
  rotationSeed : UInt64
  cells : UInt32
  designSource : UpqDesignSource
  renormalizeAtDecode : Bool
  ringRadii : List F32
  ringPhases : List UInt32
  sigmaPerPair : List F32
  calibrationId : Checksum
deriving DecidableEq

def isPowerOfTwo (value : UInt32) : Bool := value ≠ 0 ∧ value &&& (value - 1) = 0

def checkSigmas (context : String) (finiteAndPositive : Nat → F32 → String) :
    Nat → List F32 → Result Unit
  | _, [] => return ()
  | place, sigma :: sigmas => do
      Outcome.ensure (sigma.isFinite ∧ sigma.isPositive) (.format
        s!"{context} {finiteAndPositive place sigma}")
      checkSigmas context finiteAndPositive (place + 1) sigmas

namespace QamLloydMaxParams

def bitsMin : UInt8 := 1
def bitsMax : UInt8 := 8

def sigmaMessage (place : Nat) (sigma : F32) : String :=
  if sigma.isFinite then s!"sigma_per_pair[{place}] = {sigma} must be positive"
  else s!"sigma_per_pair[{place}] is not finite"

def validate (params : QamLloydMaxParams) : Result Unit := do
  Outcome.ensure (params.dimension ≠ 0) (.format "QamLloydMaxParams dimension must be > 0")
  Outcome.ensure (params.dimension % 2 = 0) (.format
    s!"QamLloydMaxParams dimension ({params.dimension}) must be even (paired into complex)")
  Outcome.ensure (params.numPairs = params.dimension / 2) (.format
    s!"QamLloydMaxParams num_pairs ({params.numPairs}) must equal dimension/2 ({params.dimension / 2})")
  Outcome.ensure (params.blockSize ≠ 0) (.format "QamLloydMaxParams block_size must be > 0")
  Outcome.ensure (isPowerOfTwo params.blockSize) (.format
    s!"QamLloydMaxParams block_size ({params.blockSize}) must be a power of two")
  Outcome.ensure (params.dimension % params.blockSize = 0) (.format
    s!"QamLloydMaxParams block_size ({params.blockSize}) must divide dimension ({params.dimension})")
  Outcome.ensure (bitsMin ≤ params.ampBits ∧ params.ampBits ≤ bitsMax) (.format
    s!"QamLloydMaxParams amp_bits ({params.ampBits}) must be in [{bitsMin}, {bitsMax}]")
  Outcome.ensure (bitsMin ≤ params.phaseBits ∧ params.phaseBits ≤ bitsMax) (.format
    s!"QamLloydMaxParams phase_bits ({params.phaseBits}) must be in [{bitsMin}, {bitsMax}]")
  Outcome.ensure (params.sigmaPerPair.length = params.numPairs.toNat) (.format
    s!"QamLloydMaxParams sigma_per_pair length ({params.sigmaPerPair.length}) must equal num_pairs ({params.numPairs})")
  checkSigmas "QamLloydMaxParams" sigmaMessage 0 params.sigmaPerPair

/-- The codec checks the pairs and the sigmas once more. -/
def fromParams (params : QamLloydMaxParams) : Result Unit := do
  Outcome.ensure (params.numPairs.toNat * 2 = params.dimension.toNat) (.format
    s!"QamLloydMaxCodec: num_pairs ({params.numPairs}) * 2 must equal dim ({params.dimension})")
  Outcome.ensure (params.sigmaPerPair.length = params.numPairs.toNat) (.format
    s!"QamLloydMaxCodec: sigma_per_pair length {params.sigmaPerPair.length} must equal num_pairs {params.numPairs}")
  checkSigmas "QamLloydMaxCodec:"
    (fun place sigma => s!"sigma_per_pair[{place}] = {sigma} must be finite and positive") 0
    params.sigmaPerPair

end QamLloydMaxParams

namespace UpqParams

def cellsMin : UInt32 := 8
def cellsMax : UInt32 := 65536
def minRingPhases : UInt32 := 4

/-- Finite positive floats are in the order of their bits. -/
def checkRadii : Nat → F32 → List F32 → Result Unit
  | _, _, [] => return ()
  | place, prev, radius :: radii => do
      Outcome.ensure (radius.isFinite ∧ radius.isPositive) (.format
        s!"UpqParams: ring_radii[{place}] = {radius} must be finite and positive")
      Outcome.ensure (prev < radius) (.format
        s!"UpqParams: ring_radii must be strictly ascending (radii[{place}] = {radius} <= {prev})")
      checkRadii (place + 1) radius radii

def checkPhases (cells : UInt32) : Nat → List UInt32 → Result Unit
  | _, [] => return ()
  | place, phases :: rest => do
      Outcome.ensure (isPowerOfTwo phases ∧ minRingPhases ≤ phases ∧ phases ≤ cells) (.format
        s!"UpqParams: ring_phases[{place}] = {phases} must be a power of two in [{minRingPhases}, cells]")
      checkPhases cells (place + 1) rest

def validate (params : UpqParams) : Result Unit := do
  Outcome.ensure (params.dimension ≠ 0 ∧ params.dimension % 2 = 0) (.format
    s!"UpqParams: dimension {params.dimension} must be positive and even")
  Outcome.ensure (params.numPairs = params.dimension / 2) (.format
    s!"UpqParams: num_pairs {params.numPairs} != dimension/2 ({params.dimension / 2})")
  Outcome.ensure (params.blockSize ≠ 0 ∧ isPowerOfTwo params.blockSize ∧
      params.dimension % params.blockSize = 0) (.format
    s!"UpqParams: block_size {params.blockSize} must be a power of two dividing dimension {params.dimension}")
  Outcome.ensure (isPowerOfTwo params.cells ∧ cellsMin ≤ params.cells ∧ params.cells ≤ cellsMax)
    (.format s!"UpqParams: cells {params.cells} must be a power of two in [{cellsMin}, {cellsMax}]")
  Outcome.ensure (2 ≤ params.ringRadii.length ∧ params.ringRadii.length < 2 ^ 16) (.format
    s!"UpqParams: num_rings {params.ringRadii.length} out of range (2..=65535)")
  Outcome.ensure (params.ringPhases.length = params.ringRadii.length) (.format
    s!"UpqParams: ring_phases len {params.ringPhases.length} != ring_radii len {params.ringRadii.length}")
  checkRadii 0 0 params.ringRadii
  checkPhases params.cells 0 params.ringPhases
  let total := (params.ringPhases.map UInt32.toNat).sum
  Outcome.ensure (total ≤ params.cells.toNat) (.format
    s!"UpqParams: sum of ring_phases {total} exceeds cells {params.cells}")
  Outcome.ensure (params.sigmaPerPair.length = params.numPairs.toNat) (.format
    s!"UpqParams: sigma_per_pair len {params.sigmaPerPair.length} != num_pairs {params.numPairs}")
  checkSigmas "UpqParams:"
    (fun place sigma => s!"sigma_per_pair[{place}] = {sigma} must be finite and positive") 0
    params.sigmaPerPair
  Outcome.ensure (params.calibrationId.1 ≠ List.replicate 32 0) (.format
    "UpqParams: calibration_id must be non-zero")

/-- The live codec packs a cell into 11 bits. -/
def wireBits : Nat := 11
def wireMaxCells : Nat := 2 ^ wireBits

def validateDims (params : UpqParams) : Result Unit := do
  Outcome.ensure (params.dimension ≠ 0 ∧ params.dimension % 2 = 0) (.format
    s!"UpqCodec: dim {params.dimension} must be positive and even")
  Outcome.ensure (params.blockSize ≠ 0 ∧ isPowerOfTwo params.blockSize ∧
      params.dimension % params.blockSize = 0) (.format
    s!"UpqCodec: block_size {params.blockSize} must be a power of two dividing dim {params.dimension}")
  Outcome.ensure (params.cells.toNat ≤ wireMaxCells) (.unsupported
    s!"UpqCodec: cells {params.cells} exceeds the {wireBits}-bit wire packing (max {wireMaxCells})")

def fromParams (params : UpqParams) : Result Unit := do
  params.validate
  params.validateDims

end UpqParams

inductive CodecParams where
  | qamLloydMax (params : QamLloydMaxParams)
  | upq (params : UpqParams)
deriving DecidableEq

namespace CodecParams

def family : CodecParams → CodecFamily
  | .qamLloydMax _ => .qamLloydMax
  | .upq _ => .upq

def dimension : CodecParams → UInt32
  | .qamLloydMax params => params.dimension
  | .upq params => params.dimension

def wireVersion (_ : CodecParams) : UInt16 := 1

/-- Encoding and decoding the parameters check the same conditions. -/
def encode : CodecParams → Result Unit
  | .qamLloydMax params => params.validate
  | .upq params => params.validate

def instantiate : CodecParams → Result Unit
  | .qamLloydMax params => params.fromParams
  | .upq params => params.fromParams

/-- Encoded vectors are kept as the values they encode; the rotation and quantization do not fail
on values of the codec's dimension. -/
def encodeVector (params : CodecParams) (values : List F32) : Result (List F32) :=
  match params with
  | .qamLloydMax pairs => do
      Outcome.ensure (values.length = pairs.dimension.toNat) (.format
        s!"QamLloydMaxCodec::encode: dim mismatch (expected {pairs.dimension}, got {values.length})")
      Outcome.ensure (values.all F32.isFinite = true) (.format
        "QamLloydMaxCodec::encode: non-finite input")
      return values
  | .upq rings => do
      Outcome.ensure (values.length = rings.dimension.toNat) (.format
        s!"UpqCodec: query has {values.length} dims, codec expects {rings.dimension}")
      return values

theorem checkSigmas_eq_ok {context : String} {message : Nat → F32 → String} {place : Nat}
    {sigmas : List F32} : checkSigmas context message place sigmas = .ok () ↔
      ∀ sigma ∈ sigmas, sigma.isFinite ∧ sigma.isPositive := by
  induction sigmas generalizing place with
  | nil => simp [checkSigmas]
  | cons sigma sigmas ih =>
      simp only [checkSigmas, Outcome.bind_eq_ok, Outcome.ensure_eq_ok, ih, exists_and_left,
        List.forall_mem_cons]
      constructor
      · rintro ⟨first, _, rest⟩
        exact ⟨first, rest⟩
      · rintro ⟨first, rest⟩
        exact ⟨first, (), rest⟩

/-- Of the parameters that can be stored, a live codec rejects exactly the UPQ ones with more cells
than its wire packing holds. -/
theorem instantiate_iff {params : CodecParams} (stored : params.encode = .ok ()) :
    params.instantiate = .ok () ↔
      ∀ rings, params = .upq rings → rings.cells.toNat ≤ UpqParams.wireMaxCells := by
  cases params with
  | qamLloydMax pairs =>
      simp only [reduceCtorEq, false_implies, implies_true, iff_true]
      simp only [encode, QamLloydMaxParams.validate, Outcome.bind_eq_ok, Outcome.ensure_eq_ok,
        checkSigmas_eq_ok] at stored
      obtain ⟨_, _, _, even, _, halved, _, _, _, _, _, _, _, _, _, _, _, sigmas, checked⟩ := stored
      have halves : pairs.numPairs.toNat * 2 = pairs.dimension.toNat := by
        have remainder : pairs.dimension.toNat % 2 = 0 := by
          have := congrArg UInt32.toNat even
          simpa using this
        rw [halved, UInt32.toNat_div]
        simp only [UInt32.reduceToNat]
        omega
      simp only [instantiate, QamLloydMaxParams.fromParams, Outcome.ensure_true _ halves,
        Outcome.ensure_true _ sigmas, Outcome.ok_bind]
      exact checkSigmas_eq_ok.mpr checked
  | upq rings =>
      have validated : rings.validate = .ok () := stored
      simp only [instantiate, UpqParams.fromParams, validated, Outcome.ok_bind,
        UpqParams.validateDims, Outcome.bind_eq_ok, Outcome.ensure_eq_ok]
      simp only [UpqParams.validate, Outcome.bind_eq_ok, Outcome.ensure_eq_ok] at validated
      obtain ⟨_, dims, _, _, _, block, _⟩ := validated
      constructor
      · rintro ⟨_, _, _, _, small⟩ other same
        obtain rfl := CodecParams.upq.inj same
        exact small
      · exact fun small => ⟨(), dims, (), block, small rings (Eq.refl _)⟩

end CodecParams

end Valise
