import Valise.Library.FloatLanes
import Valise.Library.Sweeps

/-!
The kernels that score pairs of coordinates, on vector registers and one by one.
-/

namespace Valise.FloatKernels

open Finset FloatLanes Numerals Sweeps

variable {K : Type} [Field K]

/-- What a kernel reads: the rotated query, one code, and the tables that its indices point into. -/
structure PairSource (K : Type) where
  qRot : Nat → K
  ampIndices : Nat → Nat
  phaseIndices : Nat → Nat
  sigmaPerPair : Nat → K
  ampLevelsUnit : Nat → K
  phaseCosLut : Nat → K
  phaseSinLut : Nat → K

namespace PairSource

variable (source : PairSource K)

def amp (k : Nat) : K := source.sigmaPerPair k * source.ampLevelsUnit (source.ampIndices k)

def cos (k : Nat) : K := source.phaseCosLut (source.phaseIndices k)

def sin (k : Nat) : K := source.phaseSinLut (source.phaseIndices k)

/-! ### The scalar loop -/

def dotStep (k : Nat) : K × K → K × K
  | (dot, normSq) =>
      let amp := source.amp k
      let c := source.cos k
      let s := source.sin k
      let qRe := source.qRot (2 * k)
      let qIm := source.qRot (2 * k + 1)
      (dot + (qRe * amp * c + qIm * amp * s), normSq + amp * amp)

def scalarAsymmetricDotPairs (p : Nat) : K × K := (sweep Nat.one_pos 1 p source.dotStep 0 (0, 0)).2

/-! ### Eight lanes -/

/-- Pairs of neighbours are taken apart. -/
def deinterleavePairs (r0 r1 : Register K 8) : Register K 8 × Register K 8 :=
  let reUn := shufflePs 0x88 r0 r1
  let imUn := shufflePs 0xDD r0 r1
  (permute4x64Pd 0xD8 reUn, permute4x64Pd 0xD8 imUn)

def hsumAvx (v : Register K 8) : K :=
  let s := addPs (castps256Ps128 v) (extractf128High v)
  let s2 := haddPs s s
  cvtssF32 (haddPs s2 s2)

def hsumSse (v : Register K 4) : K :=
  let s := haddPs v v
  cvtssF32 (haddPs s s)

/-- The values that a buffer is filled with from one pair on. -/
def buffer (count : Nat) (values : Nat → K) (k : Nat) : Register K count := load count values k

structure AvxSums (K : Type) where
  dotLo : Register K 8
  dotHi : Register K 8
  normLo : Register K 8
  normHi : Register K 8

def avxStep (k : Nat) (sums : AvxSums K) : AvxSums K :=
  let ampLo := buffer 8 source.amp k
  let ampHi := buffer 8 source.amp (k + 8)
  let cosLo := buffer 8 source.cos k
  let cosHi := buffer 8 source.cos (k + 8)
  let sinLo := buffer 8 source.sin k
  let sinHi := buffer 8 source.sin (k + 8)
  let r0 := load 8 source.qRot (2 * k)
  let r1 := load 8 source.qRot (2 * k + 8)
  let r2 := load 8 source.qRot (2 * k + 16)
  let r3 := load 8 source.qRot (2 * k + 24)
  let (qReLo, qImLo) := deinterleavePairs r0 r1
  let (qReHi, qImHi) := deinterleavePairs r2 r3
  let tmpLo := fmaddPs qImLo sinLo (mulPs qReLo cosLo)
  let tmpHi := fmaddPs qImHi sinHi (mulPs qReHi cosHi)
  { dotLo := fmaddPs tmpLo ampLo sums.dotLo
    dotHi := fmaddPs tmpHi ampHi sums.dotHi
    normLo := fmaddPs ampLo ampLo sums.normLo
    normHi := fmaddPs ampHi ampHi sums.normHi }

/-- The cleanup of eight pairs. -/
def avxEight (p k : Nat) (dotAcc normAcc : Register K 8) : Nat × Register K 8 × Register K 8 :=
  if k + 8 ≤ p then
    let amp := buffer 8 source.amp k
    let cos := buffer 8 source.cos k
    let sin := buffer 8 source.sin k
    let r0 := load 8 source.qRot (2 * k)
    let r1 := load 8 source.qRot (2 * k + 8)
    let (qRe, qIm) := deinterleavePairs r0 r1
    let tmp := fmaddPs qIm sin (mulPs qRe cos)
    (k + 8, fmaddPs tmp amp dotAcc, fmaddPs amp amp normAcc)
  else (k, dotAcc, normAcc)

/-- The cleanup of four pairs. -/
def sseFour (p k : Nat) (dot normSq : K) : Nat × K × K :=
  if k + 4 ≤ p then
    let amp := buffer 4 source.amp k
    let cos := buffer 4 source.cos k
    let sin := buffer 4 source.sin k
    let r0 := load 4 source.qRot (2 * k)
    let r1 := load 4 source.qRot (2 * k + 4)
    let qRe := shufflePs 0x88 r0 r1
    let qIm := shufflePs 0xDD r0 r1
    let tmp := fmaddPs qIm sin (mulPs qRe cos)
    let dot4 := fmaddPs tmp amp (set1Ps 0)
    let norm4 := mulPs amp amp
    (k + 4, dot + hsumSse dot4, normSq + hsumSse norm4)
  else (k, dot, normSq)

def avxAsymmetricDotPairs (p : Nat) : K × K :=
  let (k, sums) := sweep (Nat.zero_lt_succ 15) 16 p source.avxStep 0
    ⟨set1Ps 0, set1Ps 0, set1Ps 0, set1Ps 0⟩
  let (k, dotAcc, normAcc) := source.avxEight p k (addPs sums.dotLo sums.dotHi)
    (addPs sums.normLo sums.normHi)
  let (k, dot, normSq) := source.sseFour p k (hsumAvx dotAcc) (hsumAvx normAcc)
  (sweep Nat.one_pos 1 p source.dotStep k (dot, normSq)).2

/-! ### Four lanes -/

structure NeonSums (K : Type) where
  dot0 : Register K 4
  dot1 : Register K 4
  norm0 : Register K 4
  norm1 : Register K 4

def neonStep (k : Nat) (sums : NeonSums K) : NeonSums K :=
  let ampLo := buffer 4 source.amp k
  let ampHi := buffer 4 source.amp (k + 4)
  let cosLo := buffer 4 source.cos k
  let cosHi := buffer 4 source.cos (k + 4)
  let sinLo := buffer 4 source.sin k
  let sinHi := buffer 4 source.sin (k + 4)
  let qLo := vld2q source.qRot (2 * k)
  let qHi := vld2q source.qRot (2 * k + 8)
  let tmpLo := vfmaq (mulPs qLo.1 cosLo) qLo.2 sinLo
  let tmpHi := vfmaq (mulPs qHi.1 cosHi) qHi.2 sinHi
  { dot0 := vfmaq sums.dot0 tmpLo ampLo
    dot1 := vfmaq sums.dot1 tmpHi ampHi
    norm0 := vfmaq sums.norm0 ampLo ampLo
    norm1 := vfmaq sums.norm1 ampHi ampHi }

/-- The cleanup loop of four pairs. -/
def neonFour (k : Nat) : Register K 4 × Register K 4 → Register K 4 × Register K 4
  | (dotAcc, normAcc) =>
      let amp4 := buffer 4 source.amp k
      let cos4 := buffer 4 source.cos k
      let sin4 := buffer 4 source.sin k
      let q := vld2q source.qRot (2 * k)
      let tmp := vfmaq (mulPs q.1 cos4) q.2 sin4
      (vfmaq dotAcc tmp amp4, vfmaq normAcc amp4 amp4)

def neonAsymmetricDotPairs (p : Nat) : K × K :=
  let (k, sums) := sweep (eightLanes_pos) 8 p source.neonStep 0
    ⟨set1Ps 0, set1Ps 0, set1Ps 0, set1Ps 0⟩
  let (k, dotAcc, normAcc) := sweep (fourLanes_pos) 4 p source.neonFour k
    (addPs sums.dot0 sums.dot1, addPs sums.norm0 sums.norm1)
  (sweep Nat.one_pos 1 p source.dotStep k (vaddvq dotAcc, vaddvq normAcc)).2

/-! ### Their sums -/

/-- What one pair adds to the product and to the norm. -/
def dotTerm (k : Nat) : K := (source.qRot (2 * k) * source.cos k + source.qRot (2 * k + 1) *
  source.sin k) * source.amp k

def normTerm (k : Nat) : K := source.amp k * source.amp k

/-- The sums over the first pairs. -/
def sums (k : Nat) : K × K := (∑ j ∈ range k, source.dotTerm j, ∑ j ∈ range k, source.normTerm j)

omit [Field K] in
theorem deinterleavePairs_load (memory : Nat → K) (start : Nat) (lane : Fin 8) :
    (deinterleavePairs (load 8 memory start) (load 8 memory (start + 8))).1 lane =
        memory (start + 2 * lane) ∧
      (deinterleavePairs (load 8 memory start) (load 8 memory (start + 8))).2 lane =
        memory (start + 2 * lane + 1) := by
  fin_cases lane <;> exact ⟨rfl, rfl⟩

omit [Field K] in
theorem shufflePs_load (memory : Nat → K) (start : Nat) (lane : Fin 4) :
    shufflePs 0x88 (load 4 memory start) (load 4 memory (start + 4)) lane =
        memory (start + 2 * lane) ∧
      shufflePs 0xDD (load 4 memory start) (load 4 memory (start + 4)) lane =
        memory (start + 2 * lane + 1) := by
  fin_cases lane <;> exact ⟨rfl, rfl⟩

theorem hsumAvx_eq (v : Register K 8) : hsumAvx v = total v := by
  have lanes : hsumAvx v = v 0 + v 4 + (v 1 + v 5) + (v 2 + v 6 + (v 3 + v 7)) := rfl
  rw [lanes, total, Fin.sum_univ_eight]
  ring

theorem hsumSse_eq (v : Register K 4) : hsumSse v = total v := by
  have lanes : hsumSse v = v 0 + v 1 + (v 2 + v 3) := rfl
  rw [lanes, total, Fin.sum_univ_four]
  ring

/-- The scalar tail finishes the sums. -/
theorem tail_sums {p k : Nat} (before : k ≤ p) :
    (sweep Nat.one_pos 1 p source.dotStep k (source.sums k)).2 = source.sums p := by
  have step : ∀ index pair, index + 1 ≤ p → pair = source.sums index →
      source.dotStep index pair = source.sums (index + 1) := by
    rintro index _ _ rfl
    refine Prod.ext ?_ ?_
    · simp only [dotStep, sums, sum_range_succ, dotTerm]
      ring
    · exact (sum_range_succ _ _).symm
  have ended := sweep_last one_pos le_rfl one_pos source.dotStep (source.sums k) before
    (Nat.one_dvd _)
  have ran := sweep_keeps one_pos (fun index pair => pair = source.sums index) step
    (rfl : source.sums k = source.sums k)
  revert ended ran
  rcases sweep Nat.one_pos 1 p source.dotStep k (source.sums k) with ⟨last, after⟩
  rintro rfl ⟨same, _⟩
  exact same

theorem scalarAsymmetricDotPairs_eq (p : Nat) : source.scalarAsymmetricDotPairs p = source.sums p :=
  source.tail_sums (Nat.zero_le p)

theorem sums_add (k count : Nat) : source.sums (k + count) =
    ((source.sums k).1 + ∑ j ∈ range count, source.dotTerm (k + j),
      (source.sums k).2 + ∑ j ∈ range count, source.normTerm (k + j)) :=
  Prod.ext (sum_range_add _ _ _) (sum_range_add _ _ _)

section Lanes

variable {count : Nat} (k : Nat) (acc : Register K count)

theorem total_norm : total (fmaddPs (buffer count source.amp k) (buffer count source.amp k) acc) =
    total acc + ∑ j ∈ range count, source.normTerm (k + j) :=
  total_step fun _ => add_comm _ _

/-- Lanes that hold pairs in order add what the pairs add. -/
theorem total_dot {re im : Register K count} (reals : ∀ lane, re lane = source.qRot (2 * k + 2 * lane))
    (imaginaries : ∀ lane, im lane = source.qRot (2 * k + 2 * lane + 1)) :
    total (fmaddPs (fmaddPs im (buffer count source.sin k)
      (mulPs re (buffer count source.cos k))) (buffer count source.amp k) acc) =
      total acc + ∑ j ∈ range count, source.dotTerm (k + j) := by
  refine total_step fun lane => ?_
  have place : 2 * (k + lane.val) = 2 * k + 2 * lane := Nat.mul_add 2 k lane
  simp only [fmaddPs, mulPs, buffer, load, reals, imaginaries, dotTerm, place]
  ring

end Lanes

theorem fmadd_vfmaq {count : Nat} (acc a b : Register K count) : vfmaq acc a b = fmaddPs a b acc :=
  funext fun _ => add_comm _ _

/-! ### The kernels agree -/

theorem avxStep_sums {k : Nat} {state : AvxSums K}
    (before : (total state.dotLo + total state.dotHi, total state.normLo + total state.normHi) =
      source.sums k) :
    (total (source.avxStep k state).dotLo + total (source.avxStep k state).dotHi,
      total (source.avxStep k state).normLo + total (source.avxStep k state).normHi) =
      source.sums (k + 16) := by
  have low := deinterleavePairs_load source.qRot (2 * k)
  have high := deinterleavePairs_load source.qRot (2 * (k + 8))
  have dotLo := source.total_dot k state.dotLo (fun lane => (low lane).1) fun lane => (low lane).2
  have dotHi := source.total_dot (k + 8) state.dotHi (fun lane => (high lane).1)
    fun lane => (high lane).2
  have twice : k + 16 = k + 8 + 8 := rfl
  rw [twice, sums_add, sums_add, ← before]
  refine Prod.ext ?_ ?_
  · refine (congrArg₂ (· + ·) dotLo dotHi).trans ?_
    ring
  · refine (congrArg₂ (· + ·) (source.total_norm k state.normLo)
      (source.total_norm (k + 8) state.normHi)).trans ?_
    ring

theorem avxEight_sums {p k : Nat} {dotAcc normAcc : Register K 8} (before : k ≤ p)
    (summed : (total dotAcc, total normAcc) = source.sums k) :
    (total (source.avxEight p k dotAcc normAcc).2.1,
        total (source.avxEight p k dotAcc normAcc).2.2) =
      source.sums (source.avxEight p k dotAcc normAcc).1 ∧
    (source.avxEight p k dotAcc normAcc).1 ≤ p := by
  by_cases room : k + 8 ≤ p
  · have lanes := deinterleavePairs_load source.qRot (2 * k)
    rw [avxEight, if_pos room]
    refine ⟨?_, room⟩
    rw [sums_add, ← summed]
    exact Prod.ext (source.total_dot k dotAcc (fun lane => (lanes lane).1) fun lane => (lanes lane).2)
      (source.total_norm k normAcc)
  · rw [avxEight, if_neg room]
    exact ⟨summed, before⟩

theorem sseFour_sums {p k : Nat} {dot normSq : K} (before : k ≤ p)
    (summed : (dot, normSq) = source.sums k) :
    (source.sseFour p k dot normSq).2 = source.sums (source.sseFour p k dot normSq).1 ∧
    (source.sseFour p k dot normSq).1 ≤ p := by
  by_cases room : k + 4 ≤ p
  · have lanes := shufflePs_load source.qRot (2 * k)
    have dots := source.total_dot k (set1Ps 0) (fun lane => (lanes lane).1) fun lane => (lanes lane).2
    have norms := source.total_norm k (set1Ps 0 : Register K 4)
    have plain : fmaddPs (buffer 4 source.amp k) (buffer 4 source.amp k) (set1Ps 0) =
        mulPs (buffer 4 source.amp k) (buffer 4 source.amp k) := funext fun _ => add_zero _
    rw [total_zero, zero_add] at dots norms
    rw [plain] at norms
    rw [sseFour, if_pos room]
    refine ⟨?_, room⟩
    rw [sums_add, ← summed]
    refine Prod.ext (congrArg (dot + ·) ?_) (congrArg (normSq + ·) ?_)
    · exact (hsumSse_eq _).trans dots
    · exact (hsumSse_eq _).trans norms
  · rw [sseFour, if_neg room]
    exact ⟨summed, before⟩

/-- Sixteen, eight, four and single pairs add up to the scalar sums. -/
theorem avxAsymmetricDotPairs_eq (p : Nat) :
    source.avxAsymmetricDotPairs p = source.scalarAsymmetricDotPairs p := by
  let kept (k : Nat) (state : AvxSums K) : Prop := k ≤ p ∧
    (total state.dotLo + total state.dotHi, total state.normLo + total state.normHi) = source.sums k
  have step : ∀ k state, k + 16 ≤ p → kept k state → kept (k + 16) (source.avxStep k state) :=
    fun k state room held => ⟨room, source.avxStep_sums held.2⟩
  have start : kept 0 ⟨set1Ps 0, set1Ps 0, set1Ps 0, set1Ps 0⟩ := by
    refine ⟨Nat.zero_le p, ?_⟩
    rw [total_zero, add_zero]
    rfl
  have wide := (sweep_keeps (Nat.zero_lt_succ 15) kept step start).1
  rw [scalarAsymmetricDotPairs_eq]
  unfold avxAsymmetricDotPairs
  revert wide
  rcases sweep (Nat.zero_lt_succ 15) 16 p source.avxStep 0 ⟨set1Ps 0, set1Ps 0, set1Ps 0, set1Ps 0⟩
    with ⟨k, state⟩
  rintro ⟨before, summed⟩
  rw [← total_addPs, ← total_addPs] at summed
  have eight := source.avxEight_sums before summed
  revert eight
  simp only
  rcases source.avxEight p k (addPs state.dotLo state.dotHi) (addPs state.normLo state.normHi)
    with ⟨k, dotAcc, normAcc⟩
  rintro ⟨summed, before⟩
  rw [← hsumAvx_eq, ← hsumAvx_eq] at summed
  have four := source.sseFour_sums before summed
  revert four
  simp only
  rcases source.sseFour p k (hsumAvx dotAcc) (hsumAvx normAcc) with ⟨k, dot, normSq⟩
  rintro ⟨summed, before⟩
  have same : (dot, normSq) = source.sums k := summed
  simp only
  rw [same]
  exact source.tail_sums before

theorem neonStep_sums {k : Nat} {state : NeonSums K}
    (before : (total state.dot0 + total state.dot1, total state.norm0 + total state.norm1) =
      source.sums k) :
    (total (source.neonStep k state).dot0 + total (source.neonStep k state).dot1,
      total (source.neonStep k state).norm0 + total (source.neonStep k state).norm1) =
      source.sums (k + 8) := by
  have dot0 := source.total_dot k state.dot0 (fun _ => rfl) fun _ => rfl
  have dot1 := source.total_dot (k + 4) state.dot1 (fun _ => rfl) fun _ => rfl
  have twice : k + 8 = k + 4 + 4 := rfl
  simp only [neonStep, fmadd_vfmaq]
  rw [twice, sums_add, sums_add, ← before]
  refine Prod.ext ?_ ?_
  · refine (congrArg₂ (· + ·) dot0 dot1).trans ?_
    ring
  · refine (congrArg₂ (· + ·) (source.total_norm k state.norm0)
      (source.total_norm (k + 4) state.norm1)).trans ?_
    ring

theorem neonFour_sums {k : Nat} {state : Register K 4 × Register K 4}
    (before : (total state.1, total state.2) = source.sums k) :
    (total (source.neonFour k state).1, total (source.neonFour k state).2) =
      source.sums (k + 4) := by
  have dot := source.total_dot k state.1 (fun _ => rfl) fun _ => rfl
  simp only [neonFour, fmadd_vfmaq]
  rw [sums_add, ← before]
  exact Prod.ext dot (source.total_norm k state.2)

theorem neonAsymmetricDotPairs_eq (p : Nat) :
    source.neonAsymmetricDotPairs p = source.scalarAsymmetricDotPairs p := by
  let kept (k : Nat) (state : NeonSums K) : Prop := k ≤ p ∧
    (total state.dot0 + total state.dot1, total state.norm0 + total state.norm1) = source.sums k
  have step : ∀ k state, k + 8 ≤ p → kept k state → kept (k + 8) (source.neonStep k state) :=
    fun k state room held => ⟨room, source.neonStep_sums held.2⟩
  have start : kept 0 ⟨set1Ps 0, set1Ps 0, set1Ps 0, set1Ps 0⟩ := by
    refine ⟨Nat.zero_le p, ?_⟩
    rw [total_zero, add_zero]
    rfl
  have wide := (sweep_keeps (eightLanes_pos) kept step start).1
  rw [scalarAsymmetricDotPairs_eq]
  unfold neonAsymmetricDotPairs
  revert wide
  rcases sweep (eightLanes_pos) 8 p source.neonStep 0 ⟨set1Ps 0, set1Ps 0, set1Ps 0, set1Ps 0⟩
    with ⟨k, state⟩
  rintro ⟨before, summed⟩
  rw [← total_addPs, ← total_addPs] at summed
  let kept (k : Nat) (state : Register K 4 × Register K 4) : Prop := k ≤ p ∧
    (total state.1, total state.2) = source.sums k
  have step : ∀ k state, k + 4 ≤ p → kept k state → kept (k + 4) (source.neonFour k state) :=
    fun k state room held => ⟨room, source.neonFour_sums held.2⟩
  have start : kept k (addPs state.dot0 state.dot1, addPs state.norm0 state.norm1) :=
    ⟨before, summed⟩
  have four := (sweep_keeps (fourLanes_pos) kept step start).1
  revert four
  simp only
  rcases sweep (fourLanes_pos) 4 p source.neonFour k
    (addPs state.dot0 state.dot1, addPs state.norm0 state.norm1) with ⟨k, dotAcc, normAcc⟩
  rintro ⟨before, summed⟩
  rw [← vaddvq_eq, ← vaddvq_eq] at summed
  have same : (vaddvq dotAcc, vaddvq normAcc) = source.sums k := summed
  simp only
  rw [same]
  exact source.tail_sums before

end PairSource

/-! ### Magnitudes -/

section Magnitudes

variable (sqrt : K → K) (pairs : Nat → K)

def magnitude (k : Nat) : K :=
  let re := pairs (2 * k)
  let im := pairs (2 * k + 1)
  sqrt (re * re + im * im)

def magnitudeStep (k : Nat) (mags : Nat → K) : Nat → K :=
  storeu mags k (set1Ps (magnitude sqrt pairs k) : Register K 1)

def scalarPairMagnitudes (p : Nat) (mags : Nat → K) : Nat → K :=
  (sweep Nat.one_pos 1 p (magnitudeStep sqrt pairs) 0 mags).2

def avxMagnitudes (k : Nat) (mags : Nat → K) : Nat → K :=
  let r0 := load 8 pairs (2 * k)
  let r1 := load 8 pairs (2 * k + 8)
  let (re, im) := PairSource.deinterleavePairs r0 r1
  let reSq := mulPs re re
  let sum := fmaddPs im im reSq
  storeu mags k (mapPs sqrt sum)

def sseMagnitudes (p k : Nat) (mags : Nat → K) : Nat × (Nat → K) :=
  if k + 4 ≤ p then
    let r0 := load 4 pairs (2 * k)
    let r1 := load 4 pairs (2 * k + 4)
    let re := shufflePs 0x88 r0 r1
    let im := shufflePs 0xDD r0 r1
    let reSq := mulPs re re
    let sum := fmaddPs im im reSq
    (k + 4, storeu mags k (mapPs sqrt sum))
  else (k, mags)

def avxPairMagnitudes (p : Nat) (mags : Nat → K) : Nat → K :=
  let (k, mags) := sweep (eightLanes_pos) 8 p (avxMagnitudes sqrt pairs) 0 mags
  let (k, mags) := sseMagnitudes sqrt pairs p k mags
  (sweep Nat.one_pos 1 p (magnitudeStep sqrt pairs) k mags).2

def neonMagnitudes (k : Nat) (mags : Nat → K) : Nat → K :=
  let q := vld2q pairs (2 * k)
  let reSq := mulPs q.1 q.1
  let sum := vfmaq reSq q.2 q.2
  storeu mags k (mapPs sqrt sum)

def neonPairMagnitudes (p : Nat) (mags : Nat → K) : Nat → K :=
  let (k, mags) := sweep (fourLanes_pos) 4 p (neonMagnitudes sqrt pairs) 0 mags
  (sweep Nat.one_pos 1 p (magnitudeStep sqrt pairs) k mags).2

variable {sqrt : K → K} {pairs : Nat → K}

/-- The first slots are filled, and the others are as they were. -/
def Filled (sqrt : K → K) (pairs mags : Nat → K) (k : Nat) (after : Nat → K) : Prop :=
  ∀ place, after place = if place < k then magnitude sqrt pairs place else mags place

theorem Filled.store {mags after : Nat → K} {k count : Nat} {value : Register K count}
    (filled : Filled sqrt pairs mags k after)
    (same : ∀ lane : Fin count, value lane = magnitude sqrt pairs (k + lane)) :
    Filled sqrt pairs mags (k + count) (storeu after k value) := by
  intro place
  rw [storeu_eq same, filled place]
  split_ifs <;> first | rfl | omega

theorem magnitudeStep_filled {mags after : Nat → K} {k : Nat}
    (filled : Filled sqrt pairs mags k after) :
    Filled sqrt pairs mags (k + 1) (magnitudeStep sqrt pairs k after) := by
  refine filled.store fun lane => ?_
  rw [Fin.eq_zero lane]
  rfl

/-- Lanes that hold pairs in order have their magnitudes. -/
theorem map_magnitude {k count : Nat} {re im : Register K count}
    (reals : ∀ lane, re lane = pairs (2 * k + 2 * lane))
    (imaginaries : ∀ lane, im lane = pairs (2 * k + 2 * lane + 1)) (lane : Fin count) :
    mapPs sqrt (fmaddPs im im (mulPs re re)) lane = magnitude sqrt pairs (k + lane) := by
  have place : 2 * (k + lane.val) = 2 * k + 2 * lane := Nat.mul_add 2 k lane
  simp only [mapPs, fmaddPs, mulPs, reals, imaginaries, magnitude, place]
  rw [add_comm]

theorem tail_filled {p k : Nat} {mags after : Nat → K} (before : k ≤ p)
    (filled : Filled sqrt pairs mags k after) :
    Filled sqrt pairs mags p (sweep Nat.one_pos 1 p (magnitudeStep sqrt pairs) k after).2 := by
  have ended := sweep_last one_pos le_rfl one_pos (magnitudeStep sqrt pairs) after before
    (Nat.one_dvd _)
  have ran := sweep_keeps one_pos (Filled sqrt pairs mags)
    (fun _ _ (_ : _ + 1 ≤ p) held => magnitudeStep_filled held) filled
  revert ended ran
  rcases sweep Nat.one_pos 1 p (magnitudeStep sqrt pairs) k after with ⟨last, final⟩
  rintro rfl ⟨done, _⟩
  exact done

theorem scalarPairMagnitudes_filled (p : Nat) (mags : Nat → K) :
    Filled sqrt pairs mags p (scalarPairMagnitudes sqrt pairs p mags) :=
  tail_filled (Nat.zero_le p) fun _ => rfl

theorem sseMagnitudes_filled {p k : Nat} {mags after : Nat → K} (before : k ≤ p)
    (filled : Filled sqrt pairs mags k after) :
    Filled sqrt pairs mags (sseMagnitudes sqrt pairs p k after).1
      (sseMagnitudes sqrt pairs p k after).2 ∧ (sseMagnitudes sqrt pairs p k after).1 ≤ p := by
  by_cases room : k + 4 ≤ p
  · have lanes := PairSource.shufflePs_load pairs (2 * k)
    rw [sseMagnitudes, if_pos room]
    exact ⟨filled.store (map_magnitude (fun lane => (lanes lane).1) fun lane => (lanes lane).2), room⟩
  · rw [sseMagnitudes, if_neg room]
    exact ⟨filled, before⟩

theorem avxPairMagnitudes_filled (p : Nat) (mags : Nat → K) :
    Filled sqrt pairs mags p (avxPairMagnitudes sqrt pairs p mags) := by
  let kept (k : Nat) (after : Nat → K) : Prop := k ≤ p ∧ Filled sqrt pairs mags k after
  have step : ∀ k after, k + 8 ≤ p → kept k after →
      kept (k + 8) (avxMagnitudes sqrt pairs k after) := by
    rintro k after room ⟨_, filled⟩
    have lanes := PairSource.deinterleavePairs_load pairs (2 * k)
    exact ⟨room, filled.store (map_magnitude (fun lane => (lanes lane).1) fun lane =>
      (lanes lane).2)⟩
  have start : kept 0 mags := ⟨Nat.zero_le p, fun _ => rfl⟩
  have wide := (sweep_keeps (eightLanes_pos) kept step start).1
  unfold avxPairMagnitudes
  revert wide
  rcases sweep (eightLanes_pos) 8 p (avxMagnitudes sqrt pairs) 0 mags with ⟨k, after⟩
  rintro ⟨before, filled⟩
  have four := sseMagnitudes_filled before filled
  revert four
  simp only
  rcases sseMagnitudes sqrt pairs p k after with ⟨k, after⟩
  rintro ⟨filled, before⟩
  exact tail_filled before filled

theorem neonPairMagnitudes_filled (p : Nat) (mags : Nat → K) :
    Filled sqrt pairs mags p (neonPairMagnitudes sqrt pairs p mags) := by
  let kept (k : Nat) (after : Nat → K) : Prop := k ≤ p ∧ Filled sqrt pairs mags k after
  have step : ∀ k after, k + 4 ≤ p → kept k after →
      kept (k + 4) (neonMagnitudes sqrt pairs k after) := by
    rintro k after room ⟨_, filled⟩
    refine ⟨room, filled.store fun lane => ?_⟩
    rw [PairSource.fmadd_vfmaq]
    exact map_magnitude (fun _ => rfl) (fun _ => rfl) lane
  have start : kept 0 mags := ⟨Nat.zero_le p, fun _ => rfl⟩
  have wide := (sweep_keeps (fourLanes_pos) kept step start).1
  unfold neonPairMagnitudes
  revert wide
  rcases sweep (fourLanes_pos) 4 p (neonMagnitudes sqrt pairs) 0 mags with ⟨k, after⟩
  rintro ⟨before, filled⟩
  exact tail_filled before filled

theorem Filled.unique {mags one other : Nat → K} {p : Nat} (first : Filled sqrt pairs mags p one)
    (second : Filled sqrt pairs mags p other) : one = other :=
  funext fun place => (first place).trans (second place).symm

end Magnitudes

end Valise.FloatKernels
