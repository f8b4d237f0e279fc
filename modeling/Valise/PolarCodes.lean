import Valise.Library.BinarySearch
import Valise.Library.Hadamard
import Valise.PackedCodes

/-!
The two codecs of polar codes: a vector is rotated, and each pair of its coordinates becomes an
amplitude and a phase. A decoded vector that is encoded again has the phases of the row it came
from, and its amplitudes where they stay in their intervals.
-/

namespace Valise

open ByteLists Hadamard Outcomes

noncomputable section

/-! ### Rotations -/

structure Rotation where
  signs : Nat → ℝ
  /-- The block size is a power of two. -/
  bits : Nat
  unit : ∀ place, signs place * signs place = 1

def fwhtBlockNormalized (bits : Nat) (data : Nat → ℝ) : Nat → ℝ :=
  fun place => (√(2 ^ bits))⁻¹ * transform bits data place

def blockHadamardForward (rotation : Rotation) (data : Nat → ℝ) : Nat → ℝ :=
  fwhtBlockNormalized rotation.bits fun place => data place * rotation.signs place

def blockHadamardInverse (rotation : Rotation) (data : Nat → ℝ) : Nat → ℝ :=
  fun place => fwhtBlockNormalized rotation.bits data place * rotation.signs place

/-- Rounding to the nearest integer, away from zero in the middle. -/
def roundAway (value : ℝ) : Int :=
  if 0 ≤ value then ⌊value + 1 / 2⌋ else ⌈value - 1 / 2⌉

/-- The phase of a pair, in steps of a circle. -/
def phaseIndex (phases : Nat) (re im : ℝ) : Nat :=
  (roundAway (Complex.arg ⟨re, im⟩ * (phases / (2 * Real.pi))) % phases).toNat

theorem phaseIndex_lt {phases : Nat} (some : 0 < phases) (re im : ℝ) :
    phaseIndex phases re im < phases := by
  unfold phaseIndex
  have low := Int.emod_nonneg (roundAway (Complex.arg ⟨re, im⟩ * (phases / (2 * Real.pi))))
    (Int.natCast_ne_zero.mpr some.ne')
  have high := Int.emod_lt_of_pos (roundAway (Complex.arg ⟨re, im⟩ * (phases / (2 * Real.pi))))
    (Int.natCast_pos.mpr some)
  omega

def phaseAngle (phases index : Nat) : ℝ := index * (2 * Real.pi / phases)

def normOfValues (dim : Nat) (values : Nat → ℝ) : ℝ :=
  √((List.range dim).map fun place => values place * values place).sum

/-- What a decoded vector is multiplied by. -/
def decodeScale (renormalizeAtDecode : Bool) (dim : Nat) (values : Nat → ℝ) : ℝ :=
  if renormalizeAtDecode = true ∧ 1 / 10 ^ 12 < normOfValues dim values then
    1 / normOfValues dim values
  else 1

/-- The coordinates of pairs, each with its radius and angle. -/
def interleave (radius angle : Nat → ℝ) (place : Nat) : ℝ :=
  if place % 2 = 0 then radius (place / 2) * Real.cos (angle (place / 2))
  else radius (place / 2) * Real.sin (angle (place / 2))

/-- The decoded vector: the pairs rotated back, and scaled where the codec renormalizes. -/
def reconstructed (rotation : Rotation) (renormalizeAtDecode : Bool) (numPairs : Nat)
    (pairs : Nat → ℝ) : Nat → ℝ :=
  let x := blockHadamardInverse rotation pairs
  fun place => decodeScale renormalizeAtDecode (2 * numPairs) x * x place

section Pairs

variable (rotation : Rotation) (renormalizeAtDecode : Bool) (numPairs : Nat)

/-- The factor that stands between the pairs that are decoded and those that are encoded. -/
def pairScale (pairs : Nat → ℝ) : ℝ :=
  decodeScale renormalizeAtDecode (2 * numPairs) (blockHadamardInverse rotation pairs)

end Pairs

theorem map_getD_range {α : Type} (items : List α) (default : α) :
    (List.range items.length).map (fun k => items.getD k default) = items := by
  refine List.ext_getElem (by simp) fun k inside also => ?_
  simp [List.getD_eq_getElem?_getD, also]

/-! ### The codec of separate amplitudes and phases -/

structure QamLloydMaxCodec where
  numPairs : Nat
  rotation : Rotation
  ampBits : Nat
  phaseBits : Nat
  renormalizeAtDecode : Bool
  sigmaPerPair : Nat → ℝ
  ampLevelsUnit : Nat → ℝ
  ampBoundariesUnit : Nat → ℝ
  whole : 2 ^ rotation.bits ∣ 2 * numPairs
  amp_narrow : 1 ≤ ampBits ∧ ampBits ≤ 8
  phase_narrow : 1 ≤ phaseBits ∧ phaseBits ≤ 8
  sigma_pos : ∀ k, 0 < sigmaPerPair k
  /-- A level is kept above the lower end of its interval. -/
  levels_pos : ∀ index, 0 < ampLevelsUnit index

/-- The first boundary above the amplitude, by halves. -/
def searchBoundary (boundaries : Nat → ℝ) (normAmp : ℝ) (lo hi : Nat) : Nat :=
  if lo < hi then
    if boundaries ((lo + hi) / 2) ≤ normAmp then
      searchBoundary boundaries normAmp ((lo + hi) / 2 + 1) hi
    else searchBoundary boundaries normAmp lo ((lo + hi) / 2)
  else lo
termination_by hi - lo
decreasing_by all_goals omega

/-- The bytes of a stream, up to a whole cache line. -/
def paddedStreamBytes (count bits : Nat) : Nat := (packedBytes count bits + 63) / 64 * 64

/-- The numbers in the texts of the errors are left out. -/
def checkIndices (nAmp nPhase : Nat) : List (UInt32 × UInt32) → Result Unit
  | [] => .ok ()
  | (amp, phase) :: rest =>
      if nAmp ≤ amp.toNat then
        .err (.integrity "QamLloydMaxCodec::decode_lossy: amp_index out of range")
      else if nPhase ≤ phase.toNat then
        .err (.integrity "QamLloydMaxCodec::decode_lossy: phase_index out of range")
      else checkIndices nAmp nPhase rest

theorem checkIndices_ok {nAmp nPhase : Nat} {pairs : List (UInt32 × UInt32)}
    (amps : ∀ pair ∈ pairs, pair.1.toNat < nAmp) (phases : ∀ pair ∈ pairs, pair.2.toNat < nPhase) :
    checkIndices nAmp nPhase pairs = .ok () := by
  induction pairs with
  | nil => rfl
  | cons pair rest ih =>
      obtain ⟨amp, amps⟩ := List.forall_mem_cons.mp amps
      obtain ⟨phase, phases⟩ := List.forall_mem_cons.mp phases
      rw [checkIndices, if_neg (Nat.not_le.mpr amp), if_neg (Nat.not_le.mpr phase)]
      exact ih amps phases

theorem code_toNat {value bits : Nat} (less : value < 2 ^ bits) (narrow : bits ≤ 8) :
    (UInt32.ofNat value).toNat = value := by
  have wide : 2 ^ bits ≤ 2 ^ 8 := Nat.pow_le_pow_right (by decide) narrow
  exact UInt32.toNat_ofNat_of_lt' (less.trans_le (wide.trans (by decide)))

namespace QamLloydMaxCodec

variable (codec : QamLloydMaxCodec)

def ampIndex (normAmp : ℝ) : Nat :=
  let last := 2 ^ codec.ampBits - 1
  if normAmp ≤ 0 then 0
  else if codec.ampBoundariesUnit (2 ^ codec.ampBits) ≤ normAmp then last
  else min (searchBoundary codec.ampBoundariesUnit normAmp 1 (2 ^ codec.ampBits) - 1) last

def ampCodes (x : Nat → ℝ) : List UInt32 :=
  (List.range codec.numPairs).map fun k => UInt32.ofNat (codec.ampIndex
    (√(x (2 * k) * x (2 * k) + x (2 * k + 1) * x (2 * k + 1)) / codec.sigmaPerPair k))

def phaseCodes (x : Nat → ℝ) : List UInt32 :=
  (List.range codec.numPairs).map fun k =>
    UInt32.ofNat (phaseIndex (2 ^ codec.phaseBits) (x (2 * k)) (x (2 * k + 1)))

def packRow (amps phases : List UInt32) : Result Bytes := do
  let ampStream ← packBits amps codec.ampBits (paddedStreamBytes codec.numPairs codec.ampBits)
  let phaseStream ← packBits phases codec.phaseBits
    (paddedStreamBytes codec.numPairs codec.phaseBits)
  .ok (ampStream ++ phaseStream)

def encode (values : Nat → ℝ) : Result Bytes :=
  let x := blockHadamardForward codec.rotation values
  codec.packRow (codec.ampCodes x) (codec.phaseCodes x)

/-- The pair of two codes, in the rotated domain. -/
def pairs (amps phases : List UInt32) : Nat → ℝ :=
  interleave (fun k => codec.ampLevelsUnit (amps.getD k 0).toNat * codec.sigmaPerPair k)
    fun k => phaseAngle (2 ^ codec.phaseBits) (phases.getD k 0).toNat

def decodeLossy (base : Bytes) : Result (Nat → ℝ) :=
  let ampBytes := paddedStreamBytes codec.numPairs codec.ampBits
  let phaseBytes := paddedStreamBytes codec.numPairs codec.phaseBits
  if base.length ≠ ampBytes + phaseBytes then
    .err (.format "QamLloydMaxCodec::decode_lossy: base length mismatch")
  else do
    let amps ← unpackBits (base.take ampBytes) codec.ampBits codec.numPairs
    let phases ← unpackBits (base.drop ampBytes) codec.phaseBits codec.numPairs
    checkIndices (2 ^ codec.ampBits) (2 ^ codec.phaseBits) (amps.zip phases)
    .ok (reconstructed codec.rotation codec.renormalizeAtDecode codec.numPairs
      (codec.pairs amps phases))

/-- The codes of a row: one of each kind for each pair. -/
structure Codes (amps phases : List UInt32) : Prop where
  amps_length : amps.length = codec.numPairs
  phases_length : phases.length = codec.numPairs
  amps_fit : ∀ amp ∈ amps, amp.toNat < 2 ^ codec.ampBits
  phases_fit : ∀ phase ∈ phases, phase.toNat < 2 ^ codec.phaseBits

theorem padded_enough (count bits : Nat) :
    packedBytes count bits ≤ paddedStreamBytes count bits := by
  unfold paddedStreamBytes
  omega

variable {codec} {amps phases : List UInt32}

/-- A row is two streams, each of which is read back as its codes. -/
theorem Codes.streams (codes : codec.Codes amps phases) : ∃ ampStream phaseStream,
    codec.packRow amps phases = .ok (ampStream ++ phaseStream) ∧
      ampStream.length = paddedStreamBytes codec.numPairs codec.ampBits ∧
      phaseStream.length = paddedStreamBytes codec.numPairs codec.phaseBits ∧
      unpackBits ampStream codec.ampBits codec.numPairs = .ok amps ∧
      unpackBits phaseStream codec.phaseBits codec.numPairs = .ok phases := by
  have amp_room := padded_enough codec.numPairs codec.ampBits
  have phase_room := padded_enough codec.numPairs codec.phaseBits
  rw [← codes.amps_length] at amp_room
  rw [← codes.phases_length] at phase_room
  obtain ⟨ampStream, packsAmps, ampBytes, readAmps, _⟩ := unpackBits_pack
    (codec.amp_narrow.2.trans (by decide)) codes.amps_fit amp_room
  obtain ⟨phaseStream, packsPhases, phaseBytes, readPhases, _⟩ := unpackBits_pack
    (codec.phase_narrow.2.trans (by decide)) codes.phases_fit phase_room
  rw [codes.amps_length] at packsAmps ampBytes readAmps
  rw [codes.phases_length] at packsPhases phaseBytes readPhases
  refine ⟨ampStream, phaseStream, ?_, ampBytes, phaseBytes, readAmps, readPhases⟩
  unfold packRow
  rw [packsAmps, Outcome.ok_bind, packsPhases, Outcome.ok_bind]

theorem Codes.decode (codes : codec.Codes amps phases) {row : Bytes}
    (packed : codec.packRow amps phases = .ok row) : codec.decodeLossy row =
      .ok (reconstructed codec.rotation codec.renormalizeAtDecode codec.numPairs
        (codec.pairs amps phases)) := by
  obtain ⟨ampStream, phaseStream, ran, ampBytes, phaseBytes, readAmps, readPhases⟩ := codes.streams
  obtain rfl : ampStream ++ phaseStream = row := Outcome.ok.inj (ran.symm.trans packed)
  have checked : checkIndices (2 ^ codec.ampBits) (2 ^ codec.phaseBits) (amps.zip phases) =
      .ok () := by
    refine checkIndices_ok (fun pair member => ?_) fun pair member => ?_
    · exact codes.amps_fit _ (List.of_mem_zip member).1
    · exact codes.phases_fit _ (List.of_mem_zip member).2
  have whole : (ampStream ++ phaseStream).length =
      paddedStreamBytes codec.numPairs codec.ampBits +
        paddedStreamBytes codec.numPairs codec.phaseBits := by
    rw [List.length_append, ampBytes, phaseBytes]
  unfold decodeLossy
  dsimp only
  rw [if_neg (not_not_intro whole), List.take_left' ampBytes, List.drop_left' ampBytes, readAmps,
    Outcome.ok_bind, readPhases, Outcome.ok_bind, checked, Outcome.ok_bind]

/-- Different codes have different rows. -/
theorem Codes.unique (codes : codec.Codes amps phases) {amps' phases' : List UInt32}
    (other : codec.Codes amps' phases')
    (same : codec.packRow amps' phases' = codec.packRow amps phases) :
    amps' = amps ∧ phases' = phases := by
  obtain ⟨ampStream, phaseStream, ran, ampBytes, _, readAmps, readPhases⟩ := codes.streams
  obtain ⟨ampStream', phaseStream', ran', ampBytes', _, readAmps', readPhases'⟩ := other.streams
  rw [ran, ran'] at same
  obtain ⟨rfl, rfl⟩ := List.append_inj (Outcome.ok.inj same) (ampBytes'.trans ampBytes.symm)
  exact ⟨Outcome.ok.inj (readAmps'.symm.trans readAmps),
    Outcome.ok.inj (readPhases'.symm.trans readPhases)⟩

/-- Each amplitude, scaled as decoding scales it, is in its own interval. -/
def Kept (codec : QamLloydMaxCodec) (amps phases : List UInt32) : Prop :=
  ∀ k, k < codec.numPairs → codec.ampIndex (pairScale codec.rotation codec.renormalizeAtDecode
    codec.numPairs (codec.pairs amps phases) * codec.ampLevelsUnit (amps.getD k 0).toNat) =
      (amps.getD k 0).toNat

end QamLloydMaxCodec

/-! ### The codec of rings -/

/-- A ring is a radius and a count of phases. -/
structure UpqRing where
  radius : ℝ
  phases : Nat

/-- What the wire can carry in eleven bits. -/
def wireMaxCells : Nat := 2048

structure UpqCodec where
  numPairs : Nat
  rotation : Rotation
  renormalizeAtDecode : Bool
  cells : Nat
  rings : List UpqRing
  sigmaPerPair : Nat → ℝ
  whole : 2 ^ rotation.bits ∣ 2 * numPairs
  some_pairs : 0 < numPairs
  cells_power : ∃ power, cells = 2 ^ power
  cells_bounds : 8 ≤ cells ∧ cells ≤ wireMaxCells
  two_rings : 2 ≤ rings.length
  radii_pos : ∀ ring ∈ rings, 0 < ring.radius
  ascending : rings.Pairwise fun first second => first.radius < second.radius
  phases_power : ∀ ring ∈ rings, ∃ power, ring.phases = 2 ^ power
  phases_bounds : ∀ ring ∈ rings, 4 ≤ ring.phases ∧ ring.phases ≤ cells
  phases_sum : (rings.map (·.phases)).sum ≤ cells
  sigma_pos : ∀ k, 0 < sigmaPerPair k

def tangentialCoeff (phases : Nat) : ℝ :=
  (2 * Real.pi / phases) * (2 * Real.pi / phases) / 12

open Classical in
/-- Where two rings cost the same; no boundary is below the one before it. -/
def ringCutBoundaries : WithTop ℝ → List UpqRing → List (WithTop ℝ)
  | prev, first :: second :: rest =>
      let den := 2 * (second.radius - first.radius) + first.radius * tangentialCoeff first.phases -
        second.radius * tangentialCoeff second.phases
      let b : WithTop ℝ := if 1 / 10 ^ 12 < den then
        ((second.radius * second.radius - first.radius * first.radius) / den : ℝ) else ⊤
      let b := if b < prev then prev else b
      b :: ringCutBoundaries b (second :: rest)
  | _, _ => []

theorem ringCutBoundaries_length (prev : WithTop ℝ) (rings : List UpqRing) :
    (ringCutBoundaries prev rings).length = rings.length - 1 := by
  induction rings generalizing prev with
  | nil => rfl
  | cons first rest ih =>
      cases rest with
      | nil => rfl
      | cons second rest =>
          rw [ringCutBoundaries, List.length_cons, ih]
          rfl

theorem partitionPoint_le {β : Type} (before : β → Bool) (rows : List β) :
    BinarySearch.partitionPoint before rows ≤ rows.length := by
  unfold BinarySearch.partitionPoint
  split
  · exact Nat.zero_le _
  · rename_i row found
    have inside := (List.getElem?_eq_some_iff.mp found).1
    split
    · exact inside
    · exact inside.le

open Classical in
def ringOf (rings : List UpqRing) (normAmp : ℝ) : Nat :=
  BinarySearch.partitionPoint (fun b => decide (b < (normAmp : WithTop ℝ)))
    (ringCutBoundaries 0 rings)

/-- How many cells the rings before one have. -/
def ringBase (rings : List UpqRing) (ring : Nat) : Nat :=
  ((rings.take ring).map (·.phases)).sum

def ringCells (ring : UpqRing) : List (ℝ × ℝ) :=
  (List.range ring.phases).map fun index =>
    (ring.radius * Real.cos (phaseAngle ring.phases index),
      ring.radius * Real.sin (phaseAngle ring.phases index))

/-- The cells that no ring has stay at the origin. -/
def buildTables (rings : List UpqRing) (cells : Nat) : List (ℝ × ℝ) :=
  rings.flatMap ringCells ++ List.replicate (cells - (rings.map (·.phases)).sum) (0, 0)

theorem ringCells_at (rings : List UpqRing) {place index : Nat} {ring : UpqRing}
    (stands : rings[place]? = some ring) (inside : index < ring.phases) :
    (rings.flatMap ringCells)[ringBase rings place + index]? =
      some (ring.radius * Real.cos (phaseAngle ring.phases index),
        ring.radius * Real.sin (phaseAngle ring.phases index)) := by
  have count (ring : UpqRing) : (ringCells ring).length = ring.phases := by simp [ringCells]
  induction rings generalizing place with
  | nil => simp at stands
  | cons first rest ih =>
      rw [List.flatMap_cons]
      cases place with
      | zero =>
          obtain rfl : first = ring := Option.some.inj stands
          have start : ringBase (first :: rest) 0 = 0 := rfl
          rw [start, Nat.zero_add, List.getElem?_append_left (by rwa [count])]
          simp [ringCells, inside]
      | succ place =>
          have start : ringBase (first :: rest) (place + 1) =
              first.phases + ringBase rest place := by
            simp [ringBase]
          rw [start, Nat.add_assoc, List.getElem?_append_right (by rw [count]; omega), count,
            Nat.add_sub_cancel_left]
          exact ih stands

theorem ringBase_le {rings : List UpqRing} {place index : Nat} {ring : UpqRing}
    (stands : rings[place]? = some ring) (inside : index < ring.phases) :
    ringBase rings place + index < (rings.map (·.phases)).sum := by
  have listed := (List.getElem?_eq_some_iff.mp (ringCells_at rings stands inside)).1
  have count : (rings.flatMap ringCells).length = (rings.map (·.phases)).sum := by
    rw [List.length_flatMap]
    exact congrArg List.sum (List.map_congr_left fun ring _ => by simp [ringCells])
  rwa [count] at listed

namespace UpqCodec

variable (codec : UpqCodec)

/-- A pair as its cell: the cells of a ring follow those of the rings before it. -/
def encodePair (normAmp re im : ℝ) : UInt16 :=
  let ring := ringOf codec.rings normAmp
  UInt16.ofNat (ringBase codec.rings ring +
    phaseIndex ((codec.rings.map (·.phases)).getD ring 0) re im)

def encodeRotated (x : Nat → ℝ) : List UInt16 :=
  (List.range codec.numPairs).map fun k => codec.encodePair
    (√(x (2 * k) * x (2 * k) + x (2 * k + 1) * x (2 * k + 1)) / codec.sigmaPerPair k)
    (x (2 * k)) (x (2 * k + 1))

/-- The packed codes, and zeros up to the stride. -/
def packRow (codes : List UInt16) : Result Bytes := do
  let packed ← pack11 codes
  .ok (packed ++ List.replicate (packed11Stride codec.numPairs - packed.length) 0)

def encode (values : Nat → ℝ) : Result Bytes :=
  codec.packRow (codec.encodeRotated (blockHadamardForward codec.rotation values))

def cellAt (base : Bytes) (k : Nat) : Result UInt16 := do
  let cell ← extract11 base k
  if cell.toNat < codec.cells then .ok cell
  else .err (.integrity "UpqCodec: pair decodes to a cell out of range")

def cellsAt (base : Bytes) : List Nat → Result (List UInt16)
  | [] => .ok []
  | k :: rest => do
      let cell ← codec.cellAt base k
      let cells ← cellsAt base rest
      .ok (cell :: cells)

/-- The pairs of a row, in the rotated domain. -/
def pairs (codes : List UInt16) (place : Nat) : ℝ :=
  let cell := (buildTables codec.rings codec.cells).getD (codes.getD (place / 2) 0).toNat (0, 0)
  if place % 2 = 0 then cell.1 * codec.sigmaPerPair (place / 2)
  else cell.2 * codec.sigmaPerPair (place / 2)

def decodeLossy (base : Bytes) : Result (Nat → ℝ) :=
  if base.length < packed11Stride codec.numPairs then
    .err (.format "UpqCodec: base record is too short")
  else do
    let codes ← codec.cellsAt base (List.range codec.numPairs)
    .ok (reconstructed codec.rotation codec.renormalizeAtDecode codec.numPairs
      (codec.pairs codes))

/-- The codes of a row, each the cell of a ring and a phase. -/
structure Codes (rings phases : Nat → Nat) (codes : List UInt16) : Prop where
  length : codes.length = codec.numPairs
  cell : ∀ k, k < codec.numPairs → ∃ ring, codec.rings[rings k]? = some ring ∧
    phases k < ring.phases ∧ codes[k]? = some (UInt16.ofNat (ringBase codec.rings (rings k) +
      phases k))

variable {codec} {rings phases : Nat → Nat} {codes : List UInt16}

theorem cell_lt {place index : Nat} {ring : UpqRing} (stands : codec.rings[place]? = some ring)
    (inside : index < ring.phases) : ringBase codec.rings place + index < codec.cells ∧
      (UInt16.ofNat (ringBase codec.rings place + index)).toNat =
        ringBase codec.rings place + index := by
  have less := (ringBase_le stands inside).trans_le codec.phases_sum
  have wire : codec.cells ≤ 2048 := codec.cells_bounds.2
  exact ⟨less, UInt16.toNat_ofNat_of_lt' (less.trans_le (wire.trans (by decide)))⟩

theorem Codes.fit (stored : codec.Codes rings phases codes) :
    ∀ code ∈ codes, code.toNat < codec.cells := by
  intro code member
  obtain ⟨k, inside, rfl⟩ := List.getElem_of_mem member
  obtain ⟨ring, stands, less, found⟩ := stored.cell k (stored.length ▸ inside)
  rw [List.getElem?_eq_getElem inside] at found
  rw [Option.some.inj found, (cell_lt stands less).2]
  exact (cell_lt stands less).1

theorem Codes.pair (stored : codec.Codes rings phases codes) {k : Nat} (inside : k < codec.numPairs)
    {ring : UpqRing} (stands : codec.rings[rings k]? = some ring) :
    codec.pairs codes (2 * k) = ring.radius * codec.sigmaPerPair k *
        Real.cos (phaseAngle ring.phases (phases k)) ∧
      codec.pairs codes (2 * k + 1) = ring.radius * codec.sigmaPerPair k *
        Real.sin (phaseAngle ring.phases (phases k)) := by
  obtain ⟨other, also, less, found⟩ := stored.cell k inside
  obtain rfl : other = ring := Option.some.inj (also.symm.trans stands)
  have code : codes.getD k 0 = UInt16.ofNat (ringBase codec.rings (rings k) + phases k) := by
    rw [List.getD_eq_getElem?_getD, found, Option.getD_some]
  have listed := ringCells_at codec.rings stands less
  have cell : (buildTables codec.rings codec.cells).getD
      (ringBase codec.rings (rings k) + phases k) (0, 0) =
        (other.radius * Real.cos (phaseAngle other.phases (phases k)),
          other.radius * Real.sin (phaseAngle other.phases (phases k))) := by
    unfold buildTables
    rw [List.getD_eq_getElem?_getD, List.getElem?_append_left
      (List.getElem?_eq_some_iff.mp listed).1, listed, Option.getD_some]
  have even : 2 * k / 2 = k := by omega
  have odd : (2 * k + 1) / 2 = k := by omega
  unfold pairs
  dsimp only
  rw [even, odd, code, (cell_lt stands less).2, cell, if_pos (by omega), if_neg (by omega)]
  constructor
  · ring
  · ring

theorem cellsAt_eq {base : Bytes} {ks : List Nat}
    (reads : ∀ k ∈ ks, codec.cellAt base k = .ok (codes.getD k 0)) :
    codec.cellsAt base ks = .ok (ks.map fun k => codes.getD k 0) := by
  induction ks with
  | nil => rfl
  | cons k rest ih =>
      obtain ⟨here, later⟩ := List.forall_mem_cons.mp reads
      rw [cellsAt, here, Outcome.ok_bind, ih later, Outcome.ok_bind]
      rfl

/-- A row of codes that the wire can carry gives each of them back. -/
theorem packRow_reads (length : codes.length = codec.numPairs)
    (fit : ∀ code ∈ codes, code.toNat < 2048) : ∃ row, codec.packRow codes = .ok row ∧
      row.length = packed11Stride codec.numPairs ∧
      ∀ k, k < codec.numPairs → extract11 row k = .ok (codes.getD k 0) := by
  have eleven : ∀ code ∈ codes, code.toNat < 2 ^ 11 := by
    intro code member
    have less := fit code member
    omega
  obtain ⟨packed, ran, size, reads⟩ := extract11_pack11_stride eleven
  rw [length] at size reads
  refine ⟨packed ++ List.replicate (packed11Stride codec.numPairs - packed.length) 0, ?_, size, ?_⟩
  · unfold packRow
    rw [ran, Outcome.ok_bind]
  · intro k inside
    refine reads k _ ?_
    rw [List.getD_eq_getElem?_getD, List.getElem?_eq_getElem (length.symm ▸ inside),
      Option.getD_some]

theorem Codes.narrow (stored : codec.Codes rings phases codes) :
    ∀ code ∈ codes, code.toNat < 2048 := by
  intro code member
  exact (stored.fit code member).trans_le codec.cells_bounds.2

theorem Codes.decode (stored : codec.Codes rings phases codes) {row : Bytes}
    (packed : codec.packRow codes = .ok row) : codec.decodeLossy row =
      .ok (reconstructed codec.rotation codec.renormalizeAtDecode codec.numPairs
        (codec.pairs codes)) := by
  obtain ⟨found, ran, size, reads⟩ := packRow_reads stored.length stored.narrow
  obtain rfl : found = row := Outcome.ok.inj (ran.symm.trans packed)
  have reads (k : Nat) (member : k ∈ List.range codec.numPairs) :
      codec.cellAt found k = .ok (codes.getD k 0) := by
    have inside := List.mem_range.mp member
    have listed : codes.getD k 0 ∈ codes := by
      rw [List.getD_eq_getElem?_getD, List.getElem?_eq_getElem (stored.length.symm ▸ inside)]
      exact List.getElem_mem _
    unfold cellAt
    rw [reads k inside, Outcome.ok_bind, if_pos (stored.fit _ listed)]
  have cells : codec.cellsAt found (List.range codec.numPairs) = .ok codes := by
    rw [cellsAt_eq reads, ← stored.length, map_getD_range]
  unfold decodeLossy
  rw [if_neg (by rw [size]; exact lt_irrefl _), cells, Outcome.ok_bind]

/-- Each radius, scaled as decoding scales it, is in its own ring. -/
def Kept (codec : UpqCodec) (rings : Nat → Nat) (codes : List UInt16) : Prop :=
  ∀ k, k < codec.numPairs → ∀ ring, codec.rings[rings k]? = some ring →
    ringOf codec.rings (pairScale codec.rotation codec.renormalizeAtDecode codec.numPairs
      (codec.pairs codes) * ring.radius) = rings k

end UpqCodec

/-! ### Both codecs -/

inductive PolarCodec where
  | qam (codec : QamLloydMaxCodec)
  | upq (codec : UpqCodec)

namespace PolarCodec

def encode (values : Nat → ℝ) : PolarCodec → Result Bytes
  | qam codec => codec.encode values
  | upq codec => codec.encode values

def decodeLossy (base : Bytes) : PolarCodec → Result (Nat → ℝ)
  | qam codec => codec.decodeLossy base
  | upq codec => codec.decodeLossy base

end PolarCodec

end

end Valise
