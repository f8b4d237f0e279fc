import Valise.CodecParamsWire
import Valise.PolarCodes

/-!
Rows of the ring codec, from the parameters on: whatever the floats do, a pair is encoded as a cell
of its ring, and every reader finds the cells it needs. On exact numbers the ring is the nearest.
-/

namespace Valise

open BinarySearch ByteLists Outcomes

/-- The float operations of the codec. Nothing is known about their results. -/
structure FloatOps (F : Type) where
  zero : F
  one : F
  minusOne : F
  two : F
  tiny : F
  infinity : F
  maxI8 : F
  widen : F32 → F
  narrow : F → F
  fromNat : Nat → F
  add : F → F → F
  sub : F → F → F
  mul : F → F → F
  div : F → F → F
  max : F → F → F
  mulAdd : F → F → F → F
  sqrt : F → F
  recip : F → F
  abs : F → F
  sin : F → F
  cos : F → F
  hypot : F → F → F
  atan2 : F → F → F
  less : F → F → Bool
  atLeast : F → F → Bool
  tangentialCoeff : UInt32 → F
  /-- `TAU / p as f32` -/
  phaseStep : UInt32 → F
  /-- `(theta * (p as f32 / TAU)).round() as i64` -/
  phaseSteps : F → UInt32 → Int
  /-- `v.round().clamp(-127.0, 127.0) as i8` -/
  toI8 : F → Int
  /-- The kernels that rotate `len` values in place. -/
  hadamardForward : Nat → List F → Nat → (Nat → F) → Nat → F
  hadamardInverse : Nat → List F → Nat → (Nat → F) → Nat → F

namespace UpqRows

variable {F : Type} (ops : FloatOps F)

/-! ### The codec of some parameters -/

/-- The next state, and the number drawn. -/
def nextU64 (state : UInt64) : UInt64 × UInt64 :=
  let state := state + 0x9E3779B97F4A7C15
  let z := (state ^^^ (state >>> 30)) * 0xBF58476D1CE4E5B9
  let z := (z ^^^ (z >>> 27)) * 0x94D049BB133111EB
  (state, z ^^^ (z >>> 31))

/-- A drawn number serves 64 places, from its lowest bit on. -/
def drawSigns : Nat → UInt64 → UInt64 → Nat → List F
  | 0, _, _, _ => []
  | places + 1, state, bits, bitsLeft =>
      let drawn := if bitsLeft = 0 then nextU64 state else (state, bits)
      let left := if bitsLeft = 0 then 64 else bitsLeft
      (if drawn.2 &&& 1 = 0 then ops.one else ops.minusOne) ::
        drawSigns places drawn.1 (drawn.2 >>> 1) (left - 1)

def signsFromSeed (seed : UInt64) (dim : Nat) : List F := drawSigns ops dim seed 0 0

def ringBases : Nat → List UInt32 → List Nat
  | _, [] => []
  | acc, phases :: rest => acc :: ringBases (acc + phases.toNat) rest

def ringCutBoundaries : F → List (F × F) → List F
  | prev, (r0, c0) :: (r1, c1) :: rest =>
      let den := ops.sub (ops.add (ops.mul ops.two (ops.sub r1 r0)) (ops.mul r0 c0)) (ops.mul r1 c1)
      let b := if ops.less ops.tiny den then
        ops.div (ops.sub (ops.mul r1 r1) (ops.mul r0 r0)) den else ops.infinity
      let b := if ops.less b prev then prev else b
      b :: ringCutBoundaries b ((r1, c1) :: rest)
  | _, _ => []

structure UpqDesign (F : Type) where
  cells : UInt32
  ringRadii : List F
  ringPhases : List UInt32
  ringBases : List Nat
  ringBoundaries : List F

/-- The point of a cell, and whether its coordinates are not negative. -/
structure Tables (F : Type) where
  lutF32 : List (F × F)
  lutSign : List (Bool × Bool)

def Tables.put (tables : Tables F) (cell : Nat) (re im : F) : Result (Tables F) :=
  if cell < tables.lutF32.length ∧ cell < tables.lutSign.length then
    .ok { lutF32 := tables.lutF32.set cell (re, im)
          lutSign := tables.lutSign.set cell (ops.atLeast re ops.zero, ops.atLeast im ops.zero) }
  else .panic

def fillRing (r : F) (p : UInt32) (b : Nat) : List Nat → Tables F → Result (Tables F)
  | [], tables => .ok tables
  | m :: rest, tables => do
      let theta := ops.mul (ops.fromNat m) (ops.phaseStep p)
      let tables ← tables.put ops (b + m) (ops.mul r (ops.cos theta)) (ops.mul r (ops.sin theta))
      fillRing r p b rest tables

def fillRings : List (F × UInt32 × Nat) → Tables F → Result (Tables F)
  | [], tables => .ok tables
  | (r, p, b) :: rest, tables => do
      let tables ← fillRing ops r p b (List.range p.toNat) tables
      fillRings rest tables

def buildTables (design : UpqDesign F) : Result (Tables F) :=
  fillRings ops (design.ringRadii.zip (design.ringPhases.zip design.ringBases))
    { lutF32 := List.replicate design.cells.toNat (ops.zero, ops.zero)
      lutSign := List.replicate design.cells.toNat (false, false) }

structure UpqCodec (F : Type) where
  dim : Nat
  numPairs : Nat
  blockSize : UInt32
  renormalizeAtDecode : Bool
  design : UpqDesign F
  sigmaPerPair : List F
  signs : List F
  baseBytes : Nat
  tables : Tables F

def designOf (params : UpqParams) : UpqDesign F :=
  let radii := params.ringRadii.map ops.widen
  let coeffs := params.ringPhases.map ops.tangentialCoeff
  { cells := params.cells
    ringRadii := radii
    ringPhases := params.ringPhases
    ringBases := ringBases 0 params.ringPhases
    ringBoundaries := (ringCutBoundaries ops ops.zero (radii.zip coeffs)).map ops.narrow }

def codecOf (params : UpqParams) (tables : Tables F) : UpqCodec F :=
  { dim := params.dimension.toNat
    numPairs := params.numPairs.toNat
    blockSize := params.blockSize
    renormalizeAtDecode := params.renormalizeAtDecode
    design := designOf ops params
    sigmaPerPair := params.sigmaPerPair.map ops.widen
    signs := signsFromSeed ops params.rotationSeed params.dimension.toNat
    baseBytes := packed11Stride params.numPairs.toNat
    tables }

def fromParams (params : UpqParams) : Result (UpqCodec F) := do
  params.fromParams
  let tables ← buildTables ops (designOf ops params)
  return codecOf ops params tables

/-! ### Encoding -/

def checkHadamard (name : String) (len signs : Nat) (blockSize : UInt32) : Result Unit := do
  Outcome.ensure (len = signs) (.format s!"{name}: data len {len} != signs len {signs}")
  Outcome.ensure (blockSize ≠ 0 ∧ isPowerOfTwo blockSize) (.format
    s!"{name}: block_size {blockSize} must be a positive power of two")
  Outcome.ensure (len % blockSize.toNat = 0) (.format
    s!"{name}: data len {len} is not a multiple of block_size {blockSize}")

def sumOfSquares (len : Nat) (x : Nat → F) : F :=
  (List.range len).foldl (fun sum place => ops.add sum (ops.mul (x place) (x place))) ops.zero

/-- The rotated query and its length. -/
def rotateQuery (codec : UpqCodec F) (query : List F) : Result ((Nat → F) × F) := do
  Outcome.ensure (query.length = codec.dim) (.format
    s!"UpqCodec: query has {query.length} dims, codec expects {codec.dim}")
  checkHadamard "block_hadamard_forward" query.length codec.signs.length codec.blockSize
  let rot := ops.hadamardForward query.length codec.signs codec.blockSize.toNat
    fun place => query.getD place ops.zero
  return (rot, ops.sqrt (sumOfSquares ops query.length rot))

/-- `partition_point(|&b| a_norm > b)` -/
def ringIndex (design : UpqDesign F) (aNorm : F) : Nat :=
  partitionPoint (fun b => ops.less b aNorm) design.ringBoundaries

/-- The phase is rounded, and taken the Euclidean way round the ring. -/
def encodePair (design : UpqDesign F) (aNorm theta : F) : Result UInt16 :=
  let ring := ringIndex ops design aNorm
  match design.ringPhases[ring]?, design.ringBases[ring]? with
  | some p, some base =>
      let m := ops.phaseSteps theta p % p.toNat
      .ok (UInt16.ofNat (base + m.toNat))
  | _, _ => .panic

def aNorm (rotated : Nat → F) (sigma : F) (k : Nat) : F :=
  ops.div (ops.hypot (rotated (2 * k)) (rotated (2 * k + 1))) sigma

def encodePairs (codec : UpqCodec F) (rotated : Nat → F) : List Nat → Result (List UInt16)
  | [] => .ok []
  | k :: rest =>
      match codec.sigmaPerPair[k]? with
      | none => .panic
      | some sigma => do
          let cell ← encodePair ops codec.design (aNorm ops rotated sigma k)
            (ops.atan2 (rotated (2 * k + 1)) (rotated (2 * k)))
          let cells ← encodePairs codec rotated rest
          return cell :: cells

def encodeRotated (codec : UpqCodec F) (rotated : Nat → F) : Result (List UInt16) :=
  encodePairs ops codec rotated (List.range codec.numPairs)

def encode (codec : UpqCodec F) (values : List F) : Result Bytes := do
  let (rot, _) ← rotateQuery ops codec values
  let codes ← encodeRotated ops codec rot
  let packed ← pack11 codes
  return packed ++ List.replicate (codec.baseBytes - packed.length) 0

/-! ### Reading -/

def checkBaseLen (codec : UpqCodec F) (base : Bytes) : Result Unit :=
  Outcome.ensure (codec.baseBytes ≤ base.length) (.format
    s!"UpqCodec: base record is {base.length} bytes, expected {codec.baseBytes}")

def cellAt (codec : UpqCodec F) (base : Bytes) (k : Nat) : Result UInt16 := do
  let cell ← extract11 base k
  Outcome.ensure (cell.toNat < codec.design.cells.toNat) (.integrity
    s!"UpqCodec: pair {k} decodes to cell {cell} >= cells {codec.design.cells}")
  return cell

/-- What every reader does: one cell after the other. -/
def foldCells {α : Type} (codec : UpqCodec F) (base : Bytes)
    (step : α → Nat → UInt16 → Result α) : List Nat → α → Result α
  | [], state => .ok state
  | k :: rest, state => do
      let cell ← cellAt codec base k
      let state ← step state k cell
      foldCells codec base step rest state

def foldRow {α : Type} (codec : UpqCodec F) (base : Bytes)
    (step : α → Nat → UInt16 → Result α) (init : α) : Result α := do
  checkBaseLen codec base
  foldCells codec base step (List.range codec.numPairs) init

/-- A pair of the row, in the scale of its sigma. -/
def pointAt (codec : UpqCodec F) (k : Nat) (cell : UInt16) : Result (F × F) :=
  match codec.tables.lutF32[cell.toNat]?, codec.sigmaPerPair[k]? with
  | some (re, im), some s => .ok (ops.mul re s, ops.mul im s)
  | _, _ => .panic

def setPair (x : Nat → F) (k : Nat) (point : F × F) : Nat → F :=
  fun place => if place = 2 * k then point.1 else if place = 2 * k + 1 then point.2 else x place

def decodeStep (codec : UpqCodec F) (x : Nat → F) (k : Nat) (cell : UInt16) : Result (Nat → F) := do
  let point ← pointAt ops codec k cell
  return setPair x k point

def renormalize (codec : UpqCodec F) (x : Nat → F) : Nat → F :=
  let norm := ops.sqrt (sumOfSquares ops codec.dim x)
  if codec.renormalizeAtDecode ∧ ops.less ops.tiny norm then
    fun place => ops.mul (x place) (ops.div ops.one norm) else x

def decodeLossy (codec : UpqCodec F) (base : Bytes) : Result (Nat → F) := do
  let x ← foldRow codec base (decodeStep ops codec) fun _ => ops.zero
  checkHadamard "block_hadamard_inverse" codec.dim codec.signs.length codec.blockSize
  return renormalize ops codec
    (ops.hadamardInverse codec.dim codec.signs codec.blockSize.toNat x)

/-- `out[bit / 64] |= on << (bit % 64)` -/
def orBit (words : List UInt64) (bit : Nat) (on : Bool) : Result (List UInt64) :=
  match words[bit / 64]? with
  | none => .panic
  | some word => .ok (words.set (bit / 64)
      (word ||| ((if on then 1 else 0) <<< UInt64.ofNat (bit % 64))))

def sketchStep (codec : UpqCodec F) (out : List UInt64) (k : Nat) (cell : UInt16) :
    Result (List UInt64) :=
  match codec.tables.lutSign[cell.toNat]? with
  | none => .panic
  | some s => do
      let out ← orBit out (2 * k) s.1
      orBit out (2 * k + 1) s.2

def signSketch (codec : UpqCodec F) (base : Bytes) : Result (List UInt64) :=
  foldRow codec base (sketchStep codec) (List.replicate ((codec.dim + 63) / 64) 0)

def i8Step (codec : UpqCodec F) (state : (Nat → F) × F) (k : Nat) (cell : UInt16) :
    Result ((Nat → F) × F) := do
  let point ← pointAt ops codec k cell
  return (setPair state.1 k point,
    ops.add state.2 (ops.mulAdd point.1 point.1 (ops.mul point.2 point.2)))

/-- The row as small integers, and the factor that undoes their scale. -/
def i8RowFromBase (codec : UpqCodec F) (base : Bytes) : Result (List Int × F) := do
  let (scratch, normSq) ← foldRow codec base (i8Step ops codec) (fun _ => ops.zero, ops.zero)
  let inv := ops.recip (ops.max (ops.sqrt normSq) ops.tiny)
  let places := List.range codec.dim
  let maxAbs := places.foldl (fun most place =>
    ops.max most (ops.abs (ops.mul (scratch place) inv))) ops.zero
  let s := ops.div ops.maxI8 (ops.max maxAbs ops.tiny)
  return (places.map fun place => ops.toI8 (ops.mul (ops.mul (scratch place) inv) s),
    ops.div ops.one s)

def dotStep (codec : UpqCodec F) (qRot : Nat → F) (state : F × F) (k : Nat) (cell : UInt16) :
    Result (F × F) := do
  let (re, im) ← pointAt ops codec k cell
  return (ops.add state.1 (ops.mulAdd re (qRot (2 * k)) (ops.mul im (qRot (2 * k + 1)))),
    ops.add state.2 (ops.mulAdd re re (ops.mul im im)))

def decodeDotFromBase (codec : UpqCodec F) (base : Bytes) (qRot : Nat → F) (qNorm : F) :
    Result F := do
  let (dot, normSq) ← foldRow codec base (dotStep ops codec qRot) (ops.zero, ops.zero)
  let denom := ops.max (ops.mul (ops.sqrt normSq) qNorm) ops.tiny
  return ops.sub ops.one (ops.div dot denom)

def distanceFromParts (dot normA normB : F) : VectorMetric → F
  | .cosine => ops.sub ops.one (ops.div dot (ops.max (ops.mul normA normB) ops.tiny))
  | .innerProduct => ops.sub ops.zero dot
  | .l2 => ops.sub (ops.mulAdd normA normA (ops.mul normB normB)) (ops.mul ops.two dot)

def asymmetricDistancePrepared (codec : UpqCodec F) (prep : (Nat → F) × F) (base : Bytes)
    (metric : VectorMetric) : Result F := do
  let (dot, normSq) ← foldRow codec base (dotStep ops codec prep.1) (ops.zero, ops.zero)
  return distanceFromParts ops dot (ops.sqrt normSq) prep.2 metric

def asymmetricDistance (codec : UpqCodec F) (query : List F) (base : Bytes)
    (metric : VectorMetric) : Result F := do
  let prep ← rotateQuery ops codec query
  asymmetricDistancePrepared ops codec prep base metric

/-! ### What accepted parameters give -/

/-- What the encoder and the readers rest on. -/
structure Sound (codec : UpqCodec F) : Prop where
  dim : codec.dim = 2 * codec.numPairs
  signs : codec.dim = codec.signs.length
  power : codec.blockSize ≠ 0 ∧ isPowerOfTwo codec.blockSize
  whole : codec.dim % codec.blockSize.toNat = 0
  sigmas : codec.sigmaPerPair.length = codec.numPairs
  stride : codec.baseBytes = packed11Stride codec.numPairs
  points : codec.tables.lutF32.length = codec.design.cells.toNat
  bits : codec.tables.lutSign.length = codec.design.cells.toNat
  narrow : codec.design.cells.toNat ≤ 2048
  ringed : ∀ ring, ring ≤ codec.design.ringBoundaries.length → ∃ p base,
    codec.design.ringPhases[ring]? = some p ∧ codec.design.ringBases[ring]? = some base ∧
      0 < p.toNat ∧ base + p.toNat ≤ codec.design.cells.toNat

theorem entry {α : Type} {items : List α} {place : Nat} (inside : place < items.length) :
    ∃ item, items[place]? = some item :=
  ⟨items[place], List.getElem?_eq_getElem inside⟩

theorem drawSigns_length (places : Nat) (state bits : UInt64) (bitsLeft : Nat) :
    (drawSigns ops places state bits bitsLeft).length = places := by
  induction places generalizing state bits bitsLeft with
  | zero => rfl
  | succ places ih => simp only [drawSigns, List.length_cons, ih]

theorem ringCutBoundaries_length (prev : F) (rings : List (F × F)) :
    (ringCutBoundaries ops prev rings).length = rings.length - 1 := by
  induction rings generalizing prev with
  | nil => rfl
  | cons first rest ih =>
      cases rest with
      | nil => rfl
      | cons second rest =>
          simp only [ringCutBoundaries, List.length_cons, ih]
          omega

/-- The block of a ring ends within the phases of all. -/
theorem ringBases_at {acc ring : Nat} {phases : List UInt32} {p : UInt32}
    (stands : phases[ring]? = some p) : ∃ base, (ringBases acc phases)[ring]? = some base ∧
      base + p.toNat ≤ acc + (phases.map UInt32.toNat).sum := by
  induction phases generalizing acc ring with
  | nil => simp at stands
  | cons first rest ih =>
      rw [List.map_cons, List.sum_cons]
      cases ring with
      | zero =>
          obtain rfl : first = p := Option.some.inj stands
          exact ⟨acc, rfl, by omega⟩
      | succ ring =>
          obtain ⟨base, found, ends⟩ := @ih (acc + first.toNat) ring stands
          exact ⟨base, found, by omega⟩

/-- Both tables have an entry for each cell. -/
def Tables.Full (tables : Tables F) (cells : Nat) : Prop :=
  tables.lutF32.length = cells ∧ tables.lutSign.length = cells

variable {ops}

theorem put_ok {tables : Tables F} {cells cell : Nat} {re im : F} (full : tables.Full cells)
    (inside : cell < cells) : ∃ next, tables.put ops cell re im = .ok next ∧ next.Full cells := by
  obtain ⟨points, bits⟩ := full
  refine ⟨_, if_pos ⟨by omega, by omega⟩, ?_, ?_⟩
  · rw [List.length_set, points]
  · rw [List.length_set, bits]

theorem fillRing_ok {r : F} {p : UInt32} {b cells : Nat} {ms : List Nat} {tables : Tables F}
    (full : tables.Full cells) (inside : ∀ m ∈ ms, b + m < cells) :
    ∃ next, fillRing ops r p b ms tables = .ok next ∧ next.Full cells := by
  induction ms generalizing tables with
  | nil => exact ⟨tables, rfl, full⟩
  | cons m rest ih =>
      obtain ⟨here, later⟩ := List.forall_mem_cons.mp inside
      obtain ⟨next, stored, kept⟩ := put_ok full here
      obtain ⟨last, filled, done⟩ := ih kept later
      refine ⟨last, ?_, done⟩
      rw [fillRing, stored, Outcome.ok_bind, filled]

theorem fillRings_ok {rings : List (F × UInt32 × Nat)} {cells : Nat} {tables : Tables F}
    (full : tables.Full cells) (inside : ∀ ring ∈ rings, ring.2.2 + ring.2.1.toNat ≤ cells) :
    ∃ next, fillRings ops rings tables = .ok next ∧ next.Full cells := by
  induction rings generalizing tables with
  | nil => exact ⟨tables, rfl, full⟩
  | cons ring rest ih =>
      obtain ⟨here, later⟩ := List.forall_mem_cons.mp inside
      have within : ∀ m ∈ List.range ring.2.1.toNat, ring.2.2 + m < cells := by
        intro m member
        have less := List.mem_range.mp member
        omega
      obtain ⟨next, stored, kept⟩ := @fillRing_ok F ops ring.1 ring.2.1 _ _ _ _ full within
      obtain ⟨last, filled, done⟩ := ih kept later
      refine ⟨last, ?_, done⟩
      rw [fillRings, stored, Outcome.ok_bind, filled]

/-- Every block that the tables are filled from ends within the cells. -/
theorem blocks_inside {radii : List F} {phases : List UInt32} {cells : Nat}
    (total : (phases.map UInt32.toNat).sum ≤ cells) :
    ∀ ring ∈ radii.zip (phases.zip (ringBases 0 phases)), ring.2.2 + ring.2.1.toNat ≤ cells := by
  intro ring member
  have member : ring.2 ∈ phases.zip (ringBases 0 phases) := (List.of_mem_zip member).2
  obtain ⟨place, found⟩ := List.mem_iff_getElem?.mp member
  obtain ⟨stands, based⟩ := List.getElem?_zip_eq_some.mp found
  obtain ⟨base, found, ends⟩ := @ringBases_at 0 _ _ _ stands
  obtain rfl : ring.2.2 = base := Option.some.inj (based.symm.trans found)
  omega

structure Accepted (params : UpqParams) : Prop where
  even : params.dimension.toNat = 2 * params.numPairs.toNat
  power : params.blockSize ≠ 0 ∧ isPowerOfTwo params.blockSize
  whole : params.dimension.toNat % params.blockSize.toNat = 0
  narrow : params.cells.toNat ≤ 2048
  rings : 2 ≤ params.ringRadii.length
  phases : params.ringPhases.length = params.ringRadii.length
  least : ∀ p ∈ params.ringPhases, 4 ≤ p.toNat
  total : (params.ringPhases.map UInt32.toNat).sum ≤ params.cells.toNat
  sigmas : params.sigmaPerPair.length = params.numPairs.toNat
  positive : ∀ sigma ∈ params.sigmaPerPair, sigma.isFinite ∧ sigma.isPositive

theorem accepted_of {params : UpqParams} (passed : params.fromParams = .ok ()) :
    Accepted params := by
  simp only [UpqParams.fromParams, UpqParams.validateDims, UpqParams.validate,
    Outcome.bind_eq_ok, Outcome.ensure_eq_ok] at passed
  obtain ⟨_, ⟨_, ⟨_, even⟩, _, pairs, _, ⟨some_, power, whole⟩, _, _, _, ⟨rings, _⟩, _, phases, _, _,
    _, checked, _, total, _, sigmas, _, positive, _⟩, _, _, _, _, narrow⟩ := passed
  have even : params.dimension.toNat % 2 = 0 := congrArg UInt32.toNat even
  have whole : params.dimension.toNat % params.blockSize.toNat = 0 := by
    rw [← UInt32.toNat_mod, whole]
    rfl
  have half : params.numPairs.toNat = params.dimension.toNat / 2 := by
    rw [pairs]
    exact UInt32.toNat_div params.dimension 2
  exact
    { even := by omega
      power := ⟨some_, power⟩
      whole
      narrow
      rings
      phases
      least := UpqParams.checkPhases_least checked
      total
      sigmas
      positive := CodecParams.checkSigmas_eq_ok.mp positive }

/-- Accepted parameters make a codec. -/
theorem fromParams_sound (ops : FloatOps F) {params : UpqParams}
    (passed : params.fromParams = .ok ()) : ∃ codec, fromParams ops params = .ok codec ∧
      Sound codec ∧ codec.dim = params.dimension.toNat := by
  have accepted := accepted_of passed
  have empty : Tables.Full (F := F)
      { lutF32 := List.replicate params.cells.toNat (ops.zero, ops.zero)
        lutSign := List.replicate params.cells.toNat (false, false) } params.cells.toNat :=
    ⟨List.length_replicate, List.length_replicate⟩
  obtain ⟨tables, built, points, bits⟩ := @fillRings_ok F ops _ _ _ empty
    (@blocks_inside F (params.ringRadii.map ops.widen) _ _ accepted.total)
  have built : buildTables ops (designOf ops params) = .ok tables := built
  refine ⟨codecOf ops params tables, ?_, ?_, rfl⟩
  · unfold fromParams
    rw [passed, Outcome.ok_bind, built, Outcome.ok_bind]
    rfl
  · refine
      { dim := accepted.even
        signs := (drawSigns_length ops _ _ _ _).symm
        power := accepted.power
        whole := accepted.whole
        sigmas := (List.length_map _).trans accepted.sigmas
        stride := rfl
        points
        bits
        narrow := accepted.narrow
        ringed := ?_ }
    intro ring inside
    have count : (designOf ops params).ringBoundaries.length = params.ringPhases.length - 1 := by
      simp only [designOf, List.length_map, ringCutBoundaries_length, List.length_zip,
        accepted.phases, Nat.min_self]
    have several := accepted.rings
    have same := accepted.phases
    have inside : ring ≤ (designOf ops params).ringBoundaries.length := inside
    have place : ring < params.ringPhases.length := by omega
    have stands := List.getElem?_eq_getElem place
    obtain ⟨base, based, ends⟩ := @ringBases_at 0 _ _ _ stands
    have least := accepted.least _ (List.getElem_mem place)
    have total := accepted.total
    exact ⟨_, base, stands, based, by omega, by
      change _ ≤ params.cells.toNat
      omega⟩

/-! ### What is written -/

variable {codec : UpqCodec F}

/-- A code is of the block of a ring. -/
def InBlock (design : UpqDesign F) (ring : Nat) (code : UInt16) : Prop :=
  ∃ p base, design.ringPhases[ring]? = some p ∧ design.ringBases[ring]? = some base ∧
    base ≤ code.toNat ∧ code.toNat < base + p.toNat

theorem encodePair_ok (sound : Sound codec) (aNorm theta : F) :
    ∃ code, encodePair ops codec.design aNorm theta = .ok code ∧
      InBlock codec.design (ringIndex ops codec.design aNorm) code ∧
      code.toNat < codec.design.cells.toNat := by
  obtain ⟨p, base, phases, based, some_, ends⟩ := sound.ringed _
    (partitionPoint_le (fun b => ops.less b aNorm) codec.design.ringBoundaries)
  have narrow := sound.narrow
  have low : 0 ≤ ops.phaseSteps theta p % (p.toNat : Int) := Int.emod_nonneg _ (by omega)
  have high : ops.phaseSteps theta p % (p.toNat : Int) < p.toNat :=
    Int.emod_lt_of_pos _ (by omega)
  have exact_ : (UInt16.ofNat (base + (ops.phaseSteps theta p % (p.toNat : Int)).toNat)).toNat =
      base + (ops.phaseSteps theta p % (p.toNat : Int)).toNat :=
    UInt16.toNat_ofNat_of_lt' (by
      change _ < 2 ^ 16
      omega)
  refine ⟨UInt16.ofNat (base + (ops.phaseSteps theta p % (p.toNat : Int)).toNat), ?_, ?_, ?_⟩
  · simp only [encodePair, ringIndex, phases, based]
  · exact ⟨p, base, phases, based, by omega, by omega⟩
  · omega

/-- The code of a pair is of the block of the pair's ring, and a cell. -/
def Placed (ops : FloatOps F) (codec : UpqCodec F) (rotated : Nat → F) (k : Nat) (code : UInt16) :
    Prop :=
  ∃ sigma, codec.sigmaPerPair[k]? = some sigma ∧
    InBlock codec.design (ringIndex ops codec.design (aNorm ops rotated sigma k)) code ∧
    code.toNat < codec.design.cells.toNat

theorem encodePairs_ok (sound : Sound codec) (rotated : Nat → F) {ks : List Nat}
    (inside : ∀ k ∈ ks, k < codec.numPairs) : ∃ codes, encodePairs ops codec rotated ks = .ok codes ∧
      List.Forall₂ (Placed ops codec rotated) ks codes := by
  induction ks with
  | nil => exact ⟨[], rfl, .nil⟩
  | cons k rest ih =>
      obtain ⟨here, later⟩ := List.forall_mem_cons.mp inside
      obtain ⟨sigma, found⟩ := entry (Nat.lt_of_lt_of_eq here sound.sigmas.symm)
      obtain ⟨code, encoded, block, less⟩ := @encodePair_ok F ops codec sound
        (aNorm ops rotated sigma k) (ops.atan2 (rotated (2 * k + 1)) (rotated (2 * k)))
      obtain ⟨codes, done, placed⟩ := ih later
      refine ⟨code :: codes, ?_, .cons ⟨sigma, found, block, less⟩ placed⟩
      simp only [encodePairs, found, encoded, done, Outcome.ok_bind, Outcome.pure_eq]

/-- A row that gives back a cell for each pair. -/
structure Holds (codec : UpqCodec F) (row : Bytes) (codes : List UInt16) : Prop where
  length : row.length = codec.baseBytes
  cells : ∀ k code, codes[k]? = some code → cellAt codec row k = .ok code
  count : codes.length = codec.numPairs
  inside : ∀ code ∈ codes, code.toNat < codec.design.cells.toNat

theorem packed_holds (sound : Sound codec) {codes : List UInt16}
    (count : codes.length = codec.numPairs)
    (inside : ∀ code ∈ codes, code.toNat < codec.design.cells.toNat) :
    ∃ packed, pack11 codes = .ok packed ∧
      Holds codec (packed ++ List.replicate (codec.baseBytes - packed.length) 0) codes := by
  have eleven : ∀ code ∈ codes, code.toNat < 2 ^ 11 := fun code member =>
    Nat.lt_of_lt_of_le (inside code member) sound.narrow
  obtain ⟨packed, ran, length, reads⟩ := extract11_pack11_stride eleven
  rw [count, ← sound.stride] at length reads
  refine ⟨packed, ran, length, fun k code found => ?_, count, inside⟩
  rw [cellAt, reads k code found, Outcome.ok_bind,
    Outcome.ensure_true _ (inside code (List.mem_of_getElem? found)), Outcome.ok_bind,
    Outcome.pure_eq]

theorem checkHadamard_ok (sound : Sound codec) (name : String) :
    checkHadamard name codec.dim codec.signs.length codec.blockSize = .ok () := by
  unfold checkHadamard
  rw [Outcome.ensure_true _ sound.signs, Outcome.ok_bind, Outcome.ensure_true _ sound.power,
    Outcome.ok_bind, Outcome.ensure_true _ sound.whole]

theorem rotateQuery_ok (sound : Sound codec) {query : List F} (length : query.length = codec.dim) :
    ∃ prep, rotateQuery ops codec query = .ok prep := by
  have ready := checkHadamard_ok sound "block_hadamard_forward"
  rw [← length] at ready
  exact ⟨_, Outcome.bind_eq_ok.mpr ⟨(), Outcome.ensure_true _ length,
    Outcome.bind_eq_ok.mpr ⟨(), ready, rfl⟩⟩⟩

/-! ### What is read -/

/-- A step that keeps an invariant and stops at no cell reads the row to its end. -/
theorem foldCells_ok {α : Type} {keeps : α → Prop} {step : α → Nat → UInt16 → Result α}
    {row : Bytes} {codes : List UInt16} (holds : Holds codec row codes)
    (steps : ∀ state k cell, k < codec.numPairs → cell.toNat < codec.design.cells.toNat →
      keeps state → ∃ next, step state k cell = .ok next ∧ keeps next) {ks : List Nat}
    (inside : ∀ k ∈ ks, k < codec.numPairs) {init : α} (kept : keeps init) :
    ∃ last, foldCells codec row step ks init = .ok last ∧ keeps last := by
  induction ks generalizing init with
  | nil => exact ⟨init, rfl, kept⟩
  | cons k rest ih =>
      obtain ⟨here, later⟩ := List.forall_mem_cons.mp inside
      obtain ⟨cell, found⟩ := entry (Nat.lt_of_lt_of_eq here holds.count.symm)
      obtain ⟨next, stepped, held⟩ := steps init k cell here
        (holds.inside _ (List.mem_of_getElem? found)) kept
      obtain ⟨last, done, end_⟩ := ih later held
      refine ⟨last, ?_, end_⟩
      rw [foldCells, holds.cells k cell found, Outcome.ok_bind, stepped, Outcome.ok_bind, done]

theorem foldRow_ok {α : Type} {keeps : α → Prop} {step : α → Nat → UInt16 → Result α}
    {row : Bytes} {codes : List UInt16} (holds : Holds codec row codes)
    (steps : ∀ state k cell, k < codec.numPairs → cell.toNat < codec.design.cells.toNat →
      keeps state → ∃ next, step state k cell = .ok next ∧ keeps next) {init : α}
    (kept : keeps init) : ∃ last, foldRow codec row step init = .ok last ∧ keeps last := by
  rw [foldRow, checkBaseLen, Outcome.ensure_true _ (Nat.le_of_eq holds.length.symm),
    Outcome.ok_bind]
  exact foldCells_ok holds steps (fun k member => List.mem_range.mp member) kept

theorem pointAt_ok (sound : Sound codec) {k : Nat} {cell : UInt16} (here : k < codec.numPairs)
    (inside : cell.toNat < codec.design.cells.toNat) :
    ∃ point, pointAt ops codec k cell = .ok point := by
  obtain ⟨point, found⟩ := entry (Nat.lt_of_lt_of_eq inside sound.points.symm)
  obtain ⟨s, scaled⟩ := entry (Nat.lt_of_lt_of_eq here sound.sigmas.symm)
  exact ⟨(ops.mul point.1 s, ops.mul point.2 s), by simp only [pointAt, found, scaled]⟩

theorem orBit_ok {words : List UInt64} {bit : Nat} {on : Bool} (inside : bit / 64 < words.length) :
    ∃ next, orBit words bit on = .ok next ∧ next.length = words.length := by
  obtain ⟨word, found⟩ := entry inside
  exact ⟨words.set (bit / 64) (word ||| ((if on then 1 else 0) <<< UInt64.ofNat (bit % 64))),
    by simp only [orBit, found], List.length_set⟩

theorem sketchStep_ok (sound : Sound codec) {out : List UInt64} {k : Nat} {cell : UInt16}
    (here : k < codec.numPairs) (inside : cell.toNat < codec.design.cells.toNat)
    (kept : out.length = (codec.dim + 63) / 64) : ∃ next, sketchStep codec out k cell = .ok next ∧
      next.length = (codec.dim + 63) / 64 := by
  have dim := sound.dim
  obtain ⟨s, sign⟩ := entry (Nat.lt_of_lt_of_eq inside sound.bits.symm)
  obtain ⟨first, set, same⟩ := @orBit_ok out (2 * k) s.1 (by omega)
  obtain ⟨second, setAgain, sameAgain⟩ := @orBit_ok first (2 * k + 1) s.2 (by omega)
  refine ⟨second, ?_, by omega⟩
  rw [sketchStep, sign]
  simp only [set, Outcome.ok_bind, setAgain]

/-- No reader stops at a row. -/
structure Reads (ops : FloatOps F) (codec : UpqCodec F) (row : Bytes) : Prop where
  decodeLossy : ∃ x, decodeLossy ops codec row = .ok x
  signSketch : ∃ out, signSketch codec row = .ok out
  i8RowFromBase : ∃ out, i8RowFromBase ops codec row = .ok out
  decodeDotFromBase : ∀ qRot qNorm, ∃ score, decodeDotFromBase ops codec row qRot qNorm = .ok score
  asymmetricDistancePrepared : ∀ prep metric, ∃ distance,
    asymmetricDistancePrepared ops codec prep row metric = .ok distance
  asymmetricDistance : ∀ query, query.length = codec.dim → ∀ metric, ∃ distance,
    asymmetricDistance ops codec query row metric = .ok distance

/-- Steps that only need the point of the pair read every row to its end. -/
theorem foldRow_points (sound : Sound codec) {α : Type} {next : α → Nat → F × F → α} {row : Bytes}
    {codes : List UInt16} (holds : Holds codec row codes) (init : α) :
    ∃ last, foldRow codec row (fun state k cell => do
      let point ← pointAt ops codec k cell
      return next state k point) init = .ok last := by
  have steps : ∀ state k cell, k < codec.numPairs → cell.toNat < codec.design.cells.toNat → True →
      ∃ last, (do
        let point ← pointAt ops codec k cell
        return next state k point) = Outcome.ok last ∧ True := by
    intro state k cell here inside _
    obtain ⟨point, found⟩ := @pointAt_ok F ops codec sound k cell here inside
    exact ⟨_, Outcome.bind_eq_ok.mpr ⟨point, found, rfl⟩, trivial⟩
  obtain ⟨last, done, _⟩ := @foldRow_ok F codec α (fun _ => True) _ _ _ holds steps init trivial
  exact ⟨last, done⟩

theorem reads_of_holds (sound : Sound codec) {row : Bytes} {codes : List UInt16}
    (holds : Holds codec row codes) : Reads ops codec row := by
  have dots : ∀ qRot, ∃ last,
      foldRow codec row (dotStep ops codec qRot) (ops.zero, ops.zero) = .ok last :=
    fun _ => foldRow_points sound holds _
  have prepared : ∀ prep metric, ∃ distance,
      asymmetricDistancePrepared ops codec prep row metric = .ok distance := by
    intro prep metric
    obtain ⟨sums, done⟩ := dots prep.1
    exact ⟨_, Outcome.bind_eq_ok.mpr ⟨sums, done, rfl⟩⟩
  constructor
  · obtain ⟨x, done⟩ : ∃ x, foldRow codec row (decodeStep ops codec) (fun _ => ops.zero) = .ok x :=
      foldRow_points sound holds _
    exact ⟨_, Outcome.bind_eq_ok.mpr ⟨x, done, Outcome.bind_eq_ok.mpr
      ⟨(), checkHadamard_ok sound _, rfl⟩⟩⟩
  · obtain ⟨out, done, _⟩ := foldRow_ok holds
      (fun _ _ _ here inside kept => sketchStep_ok sound here inside kept)
      (List.length_replicate (n := (codec.dim + 63) / 64) (a := (0 : UInt64)))
    exact ⟨out, done⟩
  · obtain ⟨state, done⟩ : ∃ state,
        foldRow codec row (i8Step ops codec) (fun _ => ops.zero, ops.zero) = .ok state :=
      foldRow_points sound holds _
    exact ⟨_, Outcome.bind_eq_ok.mpr ⟨state, done, rfl⟩⟩
  · intro qRot qNorm
    obtain ⟨sums, done⟩ := dots qRot
    exact ⟨_, Outcome.bind_eq_ok.mpr ⟨sums, done, rfl⟩⟩
  · exact prepared
  · intro query length metric
    obtain ⟨prep, rotated⟩ := @rotateQuery_ok F ops codec sound query length
    obtain ⟨distance, done⟩ := prepared prep metric
    exact ⟨distance, Outcome.bind_eq_ok.mpr ⟨prep, rotated, done⟩⟩

theorem forall₂_at {α β : Type} {R : α → β → Prop} {first : List α} {second : List β}
    (related : List.Forall₂ R first second) {place : Nat} {a : α} {b : β}
    (left : first[place]? = some a) (right : second[place]? = some b) : R a b := by
  induction related generalizing place with
  | nil => simp at left
  | cons here _ ih =>
      cases place with
      | zero =>
          obtain rfl := Option.some.inj left
          obtain rfl := Option.some.inj right
          exact here
      | succ place => exact ih left right

/-- What is written is read: every code is a cell of its ring, and no reader stops. -/
theorem encode_ok (sound : Sound codec) {values : List F} (length : values.length = codec.dim) :
    ∃ rot norm codes row, rotateQuery ops codec values = .ok (rot, norm) ∧
      encodeRotated ops codec rot = .ok codes ∧ encode ops codec values = .ok row ∧
      codes.length = codec.numPairs ∧
      (∀ k code, codes[k]? = some code →
        cellAt codec row k = .ok code ∧ Placed ops codec rot k code) ∧
      Reads ops codec row := by
  obtain ⟨⟨rot, norm⟩, rotated⟩ := @rotateQuery_ok F ops codec sound values length
  obtain ⟨codes, encoded, placed⟩ := @encodePairs_ok F ops codec sound rot
    (List.range codec.numPairs) fun k member => List.mem_range.mp member
  have count : codes.length = codec.numPairs := by
    rw [← placed.length_eq, List.length_range]
  have at_ : ∀ k code, codes[k]? = some code → Placed ops codec rot k code := by
    intro k code found
    have inside := (List.getElem?_eq_some_iff.mp found).1
    exact forall₂_at placed (List.getElem?_range (by omega)) found
  have inside : ∀ code ∈ codes, code.toNat < codec.design.cells.toNat := by
    intro code member
    obtain ⟨k, found⟩ := List.mem_iff_getElem?.mp member
    obtain ⟨_, _, _, less⟩ := at_ k code found
    exact less
  obtain ⟨packed, packs, holds⟩ := packed_holds sound count inside
  refine ⟨rot, norm, codes, _, rotated, encoded, ?_, count, fun k code found =>
    ⟨holds.cells k code found, at_ k code found⟩, reads_of_holds sound holds⟩
  exact Outcome.bind_eq_ok.mpr ⟨_, rotated, Outcome.bind_eq_ok.mpr ⟨codes, encoded,
    Outcome.bind_eq_ok.mpr ⟨packed, packs, rfl⟩⟩⟩

theorem clamp_not_less (irreflexive : ∀ x, ops.less x x = false) (prev raw : F) :
    ops.less (if ops.less raw prev then prev else raw) prev = false := by
  split
  · exact irreflexive prev
  · rename_i above
    exact Bool.eq_false_iff.mpr above

/-- No cut point is less than the one before it, as soon as no float is less than itself. -/
theorem ringCutBoundaries_chain (irreflexive : ∀ x, ops.less x x = false) (prev : F)
    (rings : List (F × F)) :
    List.IsChain (fun a b => ops.less b a = false) (prev :: ringCutBoundaries ops prev rings) := by
  induction rings generalizing prev with
  | nil => exact .singleton prev
  | cons first rest ih =>
      cases rest with
      | nil => exact .singleton prev
      | cons second rest =>
          rw [ringCutBoundaries]
          exact List.isChain_cons_cons.mpr ⟨clamp_not_less irreflexive prev _, ih _⟩

end UpqRows

/-! ### The nearest ring, on exact numbers -/

/-- What a ring costs at an amplitude: the radial error, and the arc between its phases. -/
noncomputable def ringCost (a : ℝ) (ring : UpqRing) : ℝ :=
  (a - ring.radius) * (a - ring.radius) + a * ring.radius * tangentialCoeff ring.phases

noncomputable def cutDenominator (first second : UpqRing) : ℝ :=
  2 * (second.radius - first.radius) + first.radius * tangentialCoeff first.phases -
    second.radius * tangentialCoeff second.phases

noncomputable def cutPoint (first second : UpqRing) : ℝ :=
  (second.radius * second.radius - first.radius * first.radius) / cutDenominator first second

/-- Every denominator exceeds its threshold, and no cut point is before the one before it. -/
def Unclamped : ℝ → List UpqRing → Prop
  | prev, first :: second :: rest =>
      1 / 10 ^ 12 < cutDenominator first second ∧ prev ≤ cutPoint first second ∧
        Unclamped (cutPoint first second) (second :: rest)
  | _, _ => True

open Classical in
theorem clamp_le (prev raw : WithTop ℝ) : prev ≤ if raw < prev then prev else raw := by
  split
  · exact le_refl prev
  · rename_i above
    exact not_lt.mp above

theorem ringCutBoundaries_cons (prev : WithTop ℝ) (first second : UpqRing) (rest : List UpqRing) :
    ∃ b, prev ≤ b ∧ ringCutBoundaries prev (first :: second :: rest) =
      b :: ringCutBoundaries b (second :: rest) :=
  ⟨_, clamp_le prev _, rfl⟩

/-- The cut points never fall, whatever the radii are. -/
theorem ringCutBoundaries_sorted (prev : WithTop ℝ) (rings : List UpqRing) :
    (ringCutBoundaries prev rings).Pairwise (· ≤ ·) ∧
      ∀ b ∈ ringCutBoundaries prev rings, prev ≤ b := by
  induction rings generalizing prev with
  | nil => exact ⟨.nil, fun _ member => absurd member List.not_mem_nil⟩
  | cons first rest ih =>
      cases rest with
      | nil => exact ⟨.nil, fun _ member => absurd member List.not_mem_nil⟩
      | cons second rest =>
          obtain ⟨b, least, cut⟩ := ringCutBoundaries_cons prev first second rest
          rw [cut]
          obtain ⟨sorted, later⟩ := ih b
          refine ⟨.cons later sorted, fun other member => ?_⟩
          rcases List.mem_cons.mp member with rfl | after
          · exact least
          · exact least.trans (later other after)

theorem ringCost_step {first second : UpqRing} (positive : 0 < cutDenominator first second) (a : ℝ) :
    ringCost a second - ringCost a first =
      cutDenominator first second * (cutPoint first second - a) := by
  rw [mul_sub, cutPoint, mul_div_cancel₀ _ positive.ne']
  unfold ringCost cutDenominator
  ring

/-- Up to the first cut point no later ring is nearer. -/
theorem ringCost_first {prev a : ℝ} {first : UpqRing} {rest : List UpqRing}
    (unclamped : Unclamped prev (first :: rest)) (low : a ≤ prev) :
    ∀ other ∈ first :: rest, ringCost a first ≤ ringCost a other := by
  induction rest generalizing prev first with
  | nil =>
      intro other member
      obtain rfl := List.mem_singleton.mp member
      exact le_refl _
  | cons second rest ih =>
      obtain ⟨positive, above, later⟩ := unclamped
      have step := ringCost_step (lt_trans (by norm_num) positive) a
      have gain : 0 ≤ cutDenominator first second * (cutPoint first second - a) :=
        mul_nonneg (le_of_lt (lt_trans (by norm_num) positive)) (sub_nonneg.mpr (low.trans above))
      intro other member
      rcases List.mem_cons.mp member with rfl | after
      · exact le_refl _
      · have next := ih later (low.trans above) other after
        linarith

open Classical in
theorem ringCutBoundaries_unclamped {prev : ℝ} {first second : UpqRing} {rest : List UpqRing}
    (unclamped : Unclamped prev (first :: second :: rest)) :
    ringCutBoundaries prev (first :: second :: rest) =
      (cutPoint first second : WithTop ℝ) ::
        ringCutBoundaries (cutPoint first second : WithTop ℝ) (second :: rest) := by
  obtain ⟨positive, above, _⟩ := unclamped
  have positive' : 1 / 10 ^ 12 < 2 * (second.radius - first.radius) +
    first.radius * tangentialCoeff first.phases -
      second.radius * tangentialCoeff second.phases := positive
  have raw : (if ((second.radius * second.radius - first.radius * first.radius) /
      (2 * (second.radius - first.radius) + first.radius * tangentialCoeff first.phases -
        second.radius * tangentialCoeff second.phases) : ℝ) < (prev : WithTop ℝ) then (prev : WithTop ℝ)
      else ((cutPoint first second : ℝ) : WithTop ℝ)) = cutPoint first second :=
    if_neg (not_lt.mpr (WithTop.coe_le_coe.mpr above))
  rw [ringCutBoundaries, if_pos positive']
  exact congrArg₂ List.cons raw (congrArg (ringCutBoundaries · _) raw)

open Classical in
/-- The ring after the cut points that are below the amplitude costs the least. -/
theorem ringCost_takeWhile {prev a : ℝ} {rings : List UpqRing} (some_ : rings ≠ [])
    (unclamped : Unclamped prev rings) : ∃ ring,
      rings[((ringCutBoundaries prev rings).takeWhile
        fun b => decide (b < (a : WithTop ℝ))).length]? = some ring ∧
      ∀ other ∈ rings, ringCost a ring ≤ ringCost a other := by
  induction rings generalizing prev with
  | nil => exact absurd rfl some_
  | cons first rest ih =>
      cases rest with
      | nil =>
          refine ⟨first, rfl, fun other member => ?_⟩
          obtain rfl := List.mem_singleton.mp member
          exact le_refl _
      | cons second rest =>
          rw [ringCutBoundaries_unclamped unclamped, List.takeWhile_cons]
          obtain ⟨positive, above, later⟩ := unclamped
          have step := ringCost_step (lt_trans (by norm_num) positive) a
          have width : 0 ≤ cutDenominator first second := le_of_lt (lt_trans (by norm_num) positive)
          by_cases past : cutPoint first second < a
          · -- Beyond the cut point the second ring is nearer than the first.
            rw [if_pos (decide_eq_true (WithTop.coe_lt_coe.mpr past))]
            obtain ⟨ring, found, least⟩ := ih (List.cons_ne_nil _ _) later
            have loss := mul_nonneg width (sub_nonneg.mpr past.le)
            have here := least second (List.mem_cons_self ..)
            refine ⟨ring, found, fun other member => ?_⟩
            rcases List.mem_cons.mp member with rfl | after
            · linarith
            · exact least other after
          · rw [if_neg (by simpa using past)]
            have gain := mul_nonneg width (sub_nonneg.mpr (not_lt.mp past))
            have least := ringCost_first later (not_lt.mp past)
            refine ⟨first, rfl, fun other member => ?_⟩
            rcases List.mem_cons.mp member with rfl | after
            · exact le_refl _
            · have next := least other after
              linarith

theorem ringOf_least {rings : List UpqRing} (some_ : rings ≠ []) (unclamped : Unclamped 0 rings)
    (a : ℝ) : ∃ ring, rings[ringOf rings a]? = some ring ∧
      ∀ other ∈ rings, ringCost a ring ≤ ringCost a other := by
  classical
  have partitioned : Partitioned (fun b => decide (b < (a : WithTop ℝ)))
      (ringCutBoundaries 0 rings) :=
    (ringCutBoundaries_sorted 0 rings).1.imp fun le later =>
      decide_eq_true (le.trans_lt (of_decide_eq_true later))
  have place : ringOf rings a = _ := partitionPoint_eq partitioned
  rw [place]
  exact ringCost_takeWhile some_ unclamped

/-- A pair is encoded as a cell of a ring that costs no more than any other. -/
theorem encodePair_nearest (codec : UpqCodec) (unclamped : Unclamped 0 codec.rings)
    (a re im : ℝ) : ∃ place ring, codec.rings[place]? = some ring ∧
      ringBase codec.rings place ≤ (codec.encodePair a re im).toNat ∧
      (codec.encodePair a re im).toNat < ringBase codec.rings place + ring.phases ∧
      ∀ other ∈ codec.rings, ringCost a ring ≤ ringCost a other := by
  have some_ : codec.rings ≠ [] := by
    intro none
    have two := codec.two_rings
    rw [none] at two
    exact absurd two (by decide)
  obtain ⟨ring, stands, least⟩ := ringOf_least some_ unclamped a
  have four := (codec.phases_bounds ring (List.mem_of_getElem? stands)).1
  have inside := phaseIndex_lt (show 0 < ring.phases by omega) re im
  have phases : (codec.rings.map (·.phases)).getD (ringOf codec.rings a) 0 = ring.phases := by
    rw [List.getD_eq_getElem?_getD, List.getElem?_map, stands]
    rfl
  have cell : (codec.encodePair a re im).toNat =
      ringBase codec.rings (ringOf codec.rings a) + phaseIndex ring.phases re im := by
    unfold UpqCodec.encodePair
    dsimp only
    rw [phases]
    exact (UpqCodec.cell_lt stands inside).2
  exact ⟨_, ring, stands, by omega, by omega, least⟩

/-- Rows of accepted parameters are in range for every reader. The cut points never fall, and on
exact numbers the ring between them is the nearest one. -/
theorem upqRows_inRange_nearest :
    (∀ (F : Type) (ops : FloatOps F) (params : UpqParams), params.fromParams = .ok () →
      ∃ codec, UpqRows.fromParams ops params = .ok codec ∧
        ∀ values : List F, values.length = params.dimension.toNat →
          ∃ rot norm codes row, UpqRows.rotateQuery ops codec values = .ok (rot, norm) ∧
            UpqRows.encodeRotated ops codec rot = .ok codes ∧
            UpqRows.encode ops codec values = .ok row ∧ codes.length = codec.numPairs ∧
            (∀ k code, codes[k]? = some code →
              UpqRows.cellAt codec row k = .ok code ∧ UpqRows.Placed ops codec rot k code) ∧
            UpqRows.Reads ops codec row) ∧
      (∀ (F : Type) (ops : FloatOps F), (∀ x, ops.less x x = false) → ∀ rings,
        (UpqRows.ringCutBoundaries ops ops.zero rings).IsChain fun a b => ops.less b a = false) ∧
      (∀ rings, (ringCutBoundaries 0 rings).Pairwise (· ≤ ·)) ∧
      (∀ rings, rings ≠ [] → Unclamped 0 rings → ∀ a, 0 ≤ a →
        ∃ ring, rings[ringOf rings a]? = some ring ∧
          ∀ other ∈ rings, ringCost a ring ≤ ringCost a other) ∧
      ∀ codec : UpqCodec, Unclamped 0 codec.rings → ∀ a re im, 0 ≤ a →
        ∃ place ring, codec.rings[place]? = some ring ∧
          ringBase codec.rings place ≤ (codec.encodePair a re im).toNat ∧
          (codec.encodePair a re im).toNat < ringBase codec.rings place + ring.phases ∧
          ∀ other ∈ codec.rings, ringCost a ring ≤ ringCost a other := by
  refine ⟨fun F ops params passed => ?_, fun F ops irreflexive rings => ?_,
    fun rings => (ringCutBoundaries_sorted 0 rings).1,
    fun rings some_ unclamped a _ => ringOf_least some_ unclamped a,
    fun codec unclamped a re im _ => encodePair_nearest codec unclamped a re im⟩
  · obtain ⟨codec, made, sound, dim⟩ := UpqRows.fromParams_sound ops passed
    exact ⟨codec, made, fun values length => UpqRows.encode_ok sound (length.trans dim.symm)⟩
  · exact (UpqRows.ringCutBoundaries_chain irreflexive ops.zero rings).tail

theorem upqRows_inRange_nearest_small :
    let ops : FloatOps ℤ :=
      { zero := 0, one := 1, minusOne := -1, two := 2, tiny := 0, infinity := 10 ^ 6, maxI8 := 127
        widen := fun bits => bits.toNat, narrow := id, fromNat := Int.ofNat
        add := (· + ·), sub := (· - ·), mul := (· * ·), div := (· / ·), max := max
        mulAdd := fun a b c => a * b + c, sqrt := fun a => a.toNat.sqrt, recip := fun a => 1 / a
        abs := fun a => a.natAbs, sin := id, cos := id
        hypot := fun a b => (a * a + b * b).toNat.sqrt, atan2 := (· / ·)
        less := fun a b => decide (a < b), atLeast := fun a b => decide (b ≤ a), tangentialCoeff := fun phases => phases.toNat
        phaseStep := fun phases => phases.toNat
        phaseSteps := fun theta phases => theta * phases.toNat, toI8 := id
        hadamardForward := fun _ _ _ data => data, hadamardInverse := fun _ _ _ data => data }
    let params : UpqParams :=
      { dimension := 2, numPairs := 1, blockSize := 2, rotationSeed := 7, cells := 8
        designSource := .rayleigh, renormalizeAtDecode := true, ringRadii := [0x3F000000, 0x3F800000]
        ringPhases := [4, 4], sigmaPerPair := [0x3F800000]
        calibrationId := ⟨List.replicate 32 171, rfl⟩ }
    let rings : List UpqRing := [⟨1, 4⟩, ⟨2, 4⟩]
    (∃ codec row, UpqRows.fromParams ops params = .ok codec ∧
      UpqRows.encode ops codec [3, 4] = .ok row ∧ UpqRows.Reads ops codec row) ∧
      (UpqRows.ringCutBoundaries ops 0 [(1, 4), (2, 4)]).IsChain
        (fun a b => ops.less b a = false) ∧
      ∃ ring, rings[ringOf rings 3]? = some ring ∧
        ∀ other ∈ rings, ringCost 3 ring ≤ ringCost 3 other := by
  intro ops params rings
  have unclamped : Unclamped 0 rings := by
    have coeff : tangentialCoeff 4 ≤ 1 / 3 := by
      have four := Real.pi_le_four
      have some_ := Real.pi_pos
      unfold tangentialCoeff
      push_cast
      nlinarith
    have width : cutDenominator ⟨1, 4⟩ ⟨2, 4⟩ = 2 - tangentialCoeff 4 := by
      unfold cutDenominator
      ring
    refine ⟨?_, ?_, trivial⟩
    · rw [width]
      linarith [show (1 : ℝ) / 10 ^ 12 < 1 by norm_num]
    · rw [cutPoint, width]
      exact div_nonneg (by norm_num) (by linarith)
  have passed : params.fromParams = .ok () := by
    simp only [params]
    rfl
  obtain ⟨codec, made, rows⟩ := upqRows_inRange_nearest.1 ℤ ops params passed
  obtain ⟨_, _, _, row, _, _, encoded, _, _, reads⟩ := rows [3, 4] rfl
  exact ⟨⟨codec, row, made, encoded, reads⟩,
    upqRows_inRange_nearest.2.1 ℤ ops (fun x => decide_eq_false (lt_irrefl x)) _,
    upqRows_inRange_nearest.2.2.2.1 rings (List.cons_ne_nil _ _) unclamped 3 (by norm_num)⟩

end Valise
