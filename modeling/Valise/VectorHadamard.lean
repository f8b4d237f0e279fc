import Valise.BlockHadamard
import Valise.FloatKernels

/-!
The block-Hadamard rotation on vector registers: the first stages stay within a register, and the
later ones add and subtract whole registers.
-/

namespace Valise.VectorHadamard

open BlockHadamard Butterflies FloatKernels FloatLanes Hadamard Numerals Sweeps

variable {K : Type} [Field K]

/-! ### Eight lanes -/

def avxLaneSigns : Register K 8 := setr8 1 (-1) 1 (-1) 1 (-1) 1 (-1)

/-- A pass over the block, one register at a time. -/
def avxPass (n : Nat) (turn : Nat → Register K 8 → Register K 8) (block : Nat → K) : Nat → K :=
  (sweep (eightLanes_pos) 8 n (fun i block => storeu block i (turn i (load 8 block i))) 0
    block).2

def avxStageH1 (v : Register K 8) : Register K 8 :=
  let swap := shufflePs 0xB1 v v
  let vSigned := mulPs v avxLaneSigns
  addPs vSigned swap

def avxStageH2 (v : Register K 8) : Register K 8 :=
  let swap := permutePs 0x4E v
  let vSigned := mulPs v (setr8 1 1 (-1) (-1) 1 1 (-1) (-1))
  addPs vSigned swap

def avxStageH4 (v : Register K 8) : Register K 8 :=
  let swap := permute2f128Ps 0x01 v v
  let vSigned := mulPs v (setr8 1 1 1 1 (-1) (-1) (-1) (-1))
  addPs vSigned swap

def registerButterfly (count h place : Nat) (block : Nat → K) : Nat → K :=
  let a := load count block place
  let b := load count block (place + h)
  storeu (storeu block place (addPs a b)) (place + h) (subPs a b)

/-- `j` goes through a half of the group in strides of one register. -/
def registerStage {count : Nat} (some : 0 < count) (n h : Nat) (positive : 0 < h)
    (block : Nat → K) : Nat → K :=
  (sweep (doubled_pos positive) 1 n (fun base block =>
    (sweep some 1 h (fun j => registerButterfly count h (base + j)) 0 block).2) 0 block).2

def avxStagesH2Plus (n : Nat) (block : Nat → K) : Nat → K :=
  let block := avxPass n (fun _ => avxStageH2) block
  let block := avxPass n (fun _ => avxStageH4) block
  doubling n (registerStage (eightLanes_pos) n) 8 (eightLanes_pos) block

def avxForwardFused (n : Nat) (signs : Nat → K) (scale : K) (block : Nat → K) : Nat → K :=
  let block := avxPass n (fun i raw => avxStageH1 (mulPs raw (load 8 signs i))) block
  let block := avxStagesH2Plus n block
  avxPass n (fun _ v => mulPs v (set1Ps scale)) block

def avxInverseFused (n : Nat) (signs : Nat → K) (scale : K) (block : Nat → K) : Nat → K :=
  let block := avxPass n (fun _ => avxStageH1) block
  let block := avxStagesH2Plus n block
  avxPass n (fun i v => mulPs (mulPs v (set1Ps scale)) (load 8 signs i)) block

/-! ### Four lanes -/

def neonLaneSigns : Register K 4 := setr4 1 (-1) 1 (-1)

def neonPass (n : Nat) (turn : Nat → Register K 4 → Register K 4) (block : Nat → K) : Nat → K :=
  (sweep (fourLanes_pos) 4 n (fun i block => storeu block i (turn i (load 4 block i))) 0
    block).2

def neonStageH1 (v : Register K 4) : Register K 4 :=
  let swap := vrev64q v
  let vSigned := mulPs v neonLaneSigns
  addPs vSigned swap

def neonStageH2 (v : Register K 4) : Register K 4 :=
  let lo := vgetLow v
  let hi := vgetHigh v
  let newLo := addPs lo hi
  let newHi := subPs lo hi
  vcombine newLo newHi

def neonStagesH2Plus (n : Nat) (block : Nat → K) : Nat → K :=
  let block := neonPass n (fun _ => neonStageH2) block
  doubling n (registerStage (fourLanes_pos) n) 4 (fourLanes_pos) block

def neonForwardFused (n : Nat) (signs : Nat → K) (scale : K) (block : Nat → K) : Nat → K :=
  let block := neonPass n (fun i raw => neonStageH1 (mulPs raw (load 4 signs i))) block
  let block := neonStagesH2Plus n block
  neonPass n (fun _ v => vmulqN v scale) block

def neonInverseFused (n : Nat) (signs : Nat → K) (scale : K) (block : Nat → K) : Nat → K :=
  let block := neonPass n (fun _ => neonStageH1) block
  let block := neonStagesH2Plus n block
  neonPass n (fun i v => mulPs (vmulqN v scale) (load 4 signs i)) block

/-! ### One stage within a register -/

/-- Lane by lane, what a stage leaves in a register that was loaded from a multiple of its size. -/
def StageOf (count bit : Nat) (turn : Register K count → Register K count) : Prop :=
  ∀ (values : Nat → K) (start : Nat), count ∣ start → ∀ lane : Fin count,
    turn (load count values start) lane = stage bit values (start + lane)

section Registers

variable {count bit : Nat} {turn : Register K count → Register K count}

/-- A stage needs the partners of the lanes, and whether they are ahead. -/
theorem stageOf_lanes (whole : 2 * 2 ^ bit ∣ count)
    (lanes : ∀ (values : Nat → K) (start : Nat) (lane : Fin count),
      turn (load count values start) lane = if lane.val / 2 ^ bit % 2 = 0 then
        values (start + lane) + values (start + (lane + 2 ^ bit))
      else values (start + (lane - 2 ^ bit)) - values (start + lane)) :
    StageOf count bit turn := by
  rintro values start aligned lane
  obtain ⟨groups, rfl⟩ := Nat.dvd_trans whole aligned
  have regroup : 2 * 2 ^ bit * groups = 2 ^ bit * (2 * groups) := by ring
  have same : (2 * 2 ^ bit * groups + lane) / 2 ^ bit % 2 = lane.val / 2 ^ bit % 2 := by
    rw [regroup, Nat.mul_add_div (Nat.two_pow_pos bit), Nat.mul_add_mod]
  rw [lanes, stage, same]
  split
  · rw [Nat.add_assoc]
  · rename_i set
    have enough := @le_of_bit bit lane (by omega)
    rw [Nat.add_sub_assoc enough]

end Registers

theorem avxStageH1_stage : StageOf 8 0 (avxStageH1 (K := K)) := by
  refine stageOf_lanes (by decide) fun values start lane => ?_
  fin_cases lane <;> simp [avxStageH1, avxLaneSigns, addPs, mulPs, shufflePs, setr8, load]
  all_goals ring

theorem avxStageH2_stage : StageOf 8 1 (avxStageH2 (K := K)) := by
  refine stageOf_lanes (by decide) fun values start lane => ?_
  fin_cases lane <;> simp [avxStageH2, addPs, mulPs, permutePs, shufflePs, setr8, load]
  all_goals ring

theorem avxStageH4_stage : StageOf 8 2 (avxStageH4 (K := K)) := by
  refine stageOf_lanes (by decide) fun values start lane => ?_
  fin_cases lane <;> simp [avxStageH4, addPs, mulPs, permute2f128Ps, setr8, load]
  all_goals ring

theorem neonStageH1_stage : StageOf 4 0 (neonStageH1 (K := K)) := by
  refine stageOf_lanes (by decide) fun values start lane => ?_
  fin_cases lane <;> simp [neonStageH1, neonLaneSigns, addPs, mulPs, vrev64q, setr4, load]
  all_goals ring

theorem neonStageH2_stage : StageOf 4 1 (neonStageH2 (K := K)) := by
  refine stageOf_lanes (by decide) fun values start lane => ?_
  fin_cases lane <;> simp [neonStageH2, addPs, subPs, vgetLow, vgetHigh, vcombine, setr4, load]

/-! ### Passes over the block -/

section Passes

variable {count n : Nat} {turn : Nat → Register K count → Register K count}
  {original target : Nat → K}

omit [Field K] in
/-- Registers that are stored one after the other leave the target in the whole block. -/
theorem pass_eq (some : 0 < count) (whole : count ∣ n)
    (turned : ∀ i, count ∣ i → ∀ lane : Fin count,
      turn i (load count original i) lane = target (i + lane)) :
    (sweep some count n (fun i block => storeu block i (turn i (load count block i))) 0
      original).2 = fun place => if place < n then target place else original place := by
  refine sweep_pass some le_rfl some whole ?_
  intro i memory aligned _ fresh place
  have loaded : load count memory i = load count original i :=
    funext fun lane => fresh _ (Nat.le_add_right i lane)
  simp only [loaded]
  exact storeu_eq (turned i aligned) place

variable {bits : Nat} {values memory : Nat → K}

/-- A pass of a stage takes a transform one bit further. -/
theorem pass_stage (some : 0 < count) {bit : Nat} (below : bit < bits) (whole : count ∣ 2 ^ bits)
    {stageTurn : Register K count → Register K count} (turns : StageOf count bit stageTurn)
    (begun : memory = fun place => if place < 2 ^ bits then transform bit values place
      else values place) :
    (sweep some count (2 ^ bits) (fun i block => storeu block i (stageTurn (load count block i))) 0
      memory).2 = fun place => if place < 2 ^ bits then transform (bit + 1) values place
      else values place := by
  rw [pass_eq some whole fun i aligned lane => turns memory i aligned lane]
  subst begun
  funext place
  by_cases inside : place < 2 ^ bits
  · rw [if_pos inside, if_pos inside]
    exact stage_congr below (fun _ within => if_pos within) inside
  · simp only [if_neg inside]

/-- With the signs in the first turn the transform is of the signed values. -/
theorem pass_signed (some : 0 < count) (above : 0 < bits) (whole : count ∣ 2 ^ bits)
    {stageTurn : Register K count → Register K count} (turns : StageOf count 0 stageTurn)
    (signs block : Nat → K) :
    (sweep some count (2 ^ bits) (fun i block => storeu block i
      (stageTurn (mulPs (load count block i) (load count signs i)))) 0 block).2 =
      fun place => if place < 2 ^ bits then transform 1 (applySigns (2 ^ bits) signs block) place
        else applySigns (2 ^ bits) signs block place := by
  have passed := @pass_eq K count (2 ^ bits)
    (fun i raw => stageTurn (mulPs raw (load count signs i))) block
    (stage 0 fun place => block place * signs place) some whole fun i aligned lane =>
      turns (fun place => block place * signs place) i aligned lane
  refine passed.trans (funext fun place => ?_)
  by_cases inside : place < 2 ^ bits
  · rw [if_pos inside, if_pos inside]
    exact stage_congr above (fun _ within => (if_pos within).symm) inside
  · rw [if_neg inside, if_neg inside, applySigns, if_neg inside]

theorem registerButterfly_crosses {h : Nat} (apart : count ≤ h) :
    Crosses count h (registerButterfly (K := K) count h) := by
  intro first memory place
  have differences (lane : Fin count) :
      subPs (load count memory first) (load count memory (first + h)) lane =
        (fun place => memory (place - h) - memory place) (first + h + lane) := by
    have back : first + h + lane.val - h = first + lane := by omega
    simp only [subPs, load, back]
  have sums (lane : Fin count) :
      addPs (load count memory first) (load count memory (first + h)) lane =
        (fun place => memory place + memory (place + h)) (first + lane) := by
    have swap : first + lane.val + h = first + h + lane := by omega
    simp only [addPs, load, swap]
  unfold registerButterfly
  have high := @storeu_eq K count (storeu memory first (addPs (load count memory first)
    (load count memory (first + h)))) (fun place => memory (place - h) - memory place) _ _ differences
  have low := @storeu_eq K count memory (fun place => memory place + memory (place + h)) _ _ sums
  rw [high, low]
  split_ifs <;> first | rfl | omega

theorem registerStage_eq (some : 0 < count) {bit : Nat} (below : bit < bits)
    (fits : count ∣ 2 ^ bit) (block : Nat → K) :
    registerStage some (2 ^ bits) (2 ^ bit) (Nat.two_pow_pos bit) block =
      fun place => if place < 2 ^ bits then stage bit block place else block place := by
  have whole : 2 * 2 ^ bit ∣ 2 ^ bits := by
    rw [← Nat.pow_succ']
    exact Nat.pow_dvd_pow 2 below
  have wide := Nat.le_of_dvd (Nat.two_pow_pos bit) fits
  refine sweep_pass _ (by omega) one_pos whole (stage_writes block fun base memory place => ?_)
  have located (offset : Nat) : registerButterfly (K := K) count (2 ^ bit) (base + (0 + offset)) =
      registerButterfly count (2 ^ bit) (base + offset) := by
    rw [Nat.zero_add]
  have group := @group_eq K _ count 1 _ some some one_pos _ fits (registerButterfly_crosses wide)
    (fun j => registerButterfly count (2 ^ bit) (base + j)) 0 base located memory place
  rwa [Nat.zero_add] at group

omit [Field K] in
/-- The last pass finishes every value by itself. -/
theorem pass_finish (some : 0 < count) (whole : count ∣ n) {finish : Nat → K → K}
    {values : Nat → K} (turned : ∀ i v (lane : Fin count), turn i v lane = finish (i + lane) (v lane))
    (begun : original = fun place => if place < n then target place else values place) :
    (sweep some count n (fun i block => storeu block i (turn i (load count block i))) 0
      original).2 = fun place => if place < n then finish place (target place)
        else values place := by
  have passed := @pass_eq K count n turn original (fun place => finish place (original place)) some
    whole fun i _ lane => turned i _ lane
  rw [passed]
  subst begun
  funext place
  by_cases inside : place < n
  · simp only [if_pos inside]
  · simp only [if_neg inside]

end Passes

/-! ### The kernels agree -/

variable {bits : Nat} {signs : Nat → K} {scale : K}

theorem avxStagesH2Plus_eq (large : 3 ≤ bits) {block values : Nat → K}
    (begun : block = fun place => if place < 2 ^ bits then transform 1 values place
      else values place) :
    avxStagesH2Plus (2 ^ bits) block = fun place => if place < 2 ^ bits then
      transform bits values place else values place := by
  have whole : 8 ∣ 2 ^ bits := Nat.pow_dvd_pow 2 large
  have second := pass_stage (eightLanes_pos) (by omega) whole avxStageH2_stage begun
  have third := pass_stage (eightLanes_pos) (by omega) whole avxStageH4_stage second
  exact doubling_transform large (fun bit memory above below =>
    registerStage_eq (eightLanes_pos) below (Nat.pow_dvd_pow 2 above) memory) third

theorem neonStagesH2Plus_eq (large : 2 ≤ bits) {block values : Nat → K}
    (begun : block = fun place => if place < 2 ^ bits then transform 1 values place
      else values place) :
    neonStagesH2Plus (2 ^ bits) block = fun place => if place < 2 ^ bits then
      transform bits values place else values place := by
  have whole : 4 ∣ 2 ^ bits := Nat.pow_dvd_pow 2 large
  have second := pass_stage (fourLanes_pos) (by omega) whole neonStageH2_stage begun
  exact doubling_transform large (fun bit memory above below =>
    registerStage_eq (fourLanes_pos) below (Nat.pow_dvd_pow 2 above) memory) second

theorem avxForwardFused_eq (large : 3 ≤ bits) (block : Nat → K) :
    avxForwardFused (2 ^ bits) signs scale block =
      scalarBlockHadamardForward (2 ^ bits) signs (2 ^ bits) scale block := by
  have whole : 8 ∣ 2 ^ bits := Nat.pow_dvd_pow 2 large
  have signed := pass_signed (eightLanes_pos) (by omega) whole avxStageH1_stage signs block
  have staged := avxStagesH2Plus_eq large signed
  have finished := @pass_finish K 8 (2 ^ bits) (fun _ v => mulPs v (set1Ps scale)) _ _
    (eightLanes_pos) whole (fun _ value => value * scale) _ (fun _ _ _ => rfl) staged
  refine finished.trans ?_
  rw [scalarBlockHadamardForward, scalarFwht_apply (dvd_refl _)]

theorem neonForwardFused_eq (large : 2 ≤ bits) (block : Nat → K) :
    neonForwardFused (2 ^ bits) signs scale block =
      scalarBlockHadamardForward (2 ^ bits) signs (2 ^ bits) scale block := by
  have whole : 4 ∣ 2 ^ bits := Nat.pow_dvd_pow 2 large
  have signed := pass_signed (fourLanes_pos) (by omega) whole neonStageH1_stage signs block
  have staged := neonStagesH2Plus_eq large signed
  have finished := @pass_finish K 4 (2 ^ bits) (fun _ v => vmulqN v scale) _ _
    (fourLanes_pos) whole (fun _ value => value * scale) _ (fun _ _ _ => rfl) staged
  refine finished.trans ?_
  rw [scalarBlockHadamardForward, scalarFwht_apply (dvd_refl _)]

theorem inverse_finished (block : Nat → K) :
    (fun place => if place < 2 ^ bits then transform bits block place * scale * signs place
      else block place) = scalarBlockHadamardInverse (2 ^ bits) signs (2 ^ bits) scale block := by
  rw [scalarBlockHadamardInverse, scalarFwht_apply (dvd_refl _)]
  funext place
  unfold applySigns
  by_cases inside : place < 2 ^ bits
  · simp only [if_pos inside]
  · simp only [if_neg inside]

/-- Nothing was transformed yet. -/
theorem untransformed (block : Nat → K) : block = fun place => if place < 2 ^ bits then
    transform 0 block place else block place := funext fun _ => (ite_self _).symm

theorem avxInverseFused_eq (large : 3 ≤ bits) (block : Nat → K) :
    avxInverseFused (2 ^ bits) signs scale block =
      scalarBlockHadamardInverse (2 ^ bits) signs (2 ^ bits) scale block := by
  have whole : 8 ∣ 2 ^ bits := Nat.pow_dvd_pow 2 large
  have first := pass_stage (eightLanes_pos) (by omega) whole avxStageH1_stage
    (untransformed block)
  have staged := avxStagesH2Plus_eq large first
  have finished := @pass_finish K 8 (2 ^ bits)
    (fun i v => mulPs (mulPs v (set1Ps scale)) (load 8 signs i)) _ _ (eightLanes_pos) whole
    (fun place value => value * scale * signs place) _ (fun _ _ _ => rfl) staged
  exact finished.trans (inverse_finished block)

theorem neonInverseFused_eq (large : 2 ≤ bits) (block : Nat → K) :
    neonInverseFused (2 ^ bits) signs scale block =
      scalarBlockHadamardInverse (2 ^ bits) signs (2 ^ bits) scale block := by
  have whole : 4 ∣ 2 ^ bits := Nat.pow_dvd_pow 2 large
  have first := pass_stage (fourLanes_pos) (by omega) whole neonStageH1_stage
    (untransformed block)
  have staged := neonStagesH2Plus_eq large first
  have finished := @pass_finish K 4 (2 ^ bits)
    (fun i v => mulPs (vmulqN v scale) (load 4 signs i)) _ _ (fourLanes_pos) whole
    (fun place value => value * scale * signs place) _ (fun _ _ _ => rfl) staged
  exact finished.trans (inverse_finished block)

/-! ### All kernels -/

/-- On exact numbers every kernel leaves what the scalar loops leave. -/
theorem kernels_eq_scalar (source : PairSource K) (sqrt : K → K) (pairs mags signs block : Nat → K)
    (scale : K) (p bits : Nat) :
    source.avxAsymmetricDotPairs p = source.scalarAsymmetricDotPairs p ∧
      source.neonAsymmetricDotPairs p = source.scalarAsymmetricDotPairs p ∧
      avxPairMagnitudes sqrt pairs p mags = scalarPairMagnitudes sqrt pairs p mags ∧
      neonPairMagnitudes sqrt pairs p mags = scalarPairMagnitudes sqrt pairs p mags ∧
      (∀ place, scalarPairMagnitudes sqrt pairs p mags place =
        if place < p then sqrt (pairs (2 * place) * pairs (2 * place) +
          pairs (2 * place + 1) * pairs (2 * place + 1)) else mags place) ∧
      (8 ≤ 2 ^ bits →
        avxForwardFused (2 ^ bits) signs scale block =
          scalarBlockHadamardForward (2 ^ bits) signs (2 ^ bits) scale block ∧
        avxInverseFused (2 ^ bits) signs scale block =
          scalarBlockHadamardInverse (2 ^ bits) signs (2 ^ bits) scale block) ∧
      (4 ≤ 2 ^ bits →
        neonForwardFused (2 ^ bits) signs scale block =
          scalarBlockHadamardForward (2 ^ bits) signs (2 ^ bits) scale block ∧
        neonInverseFused (2 ^ bits) signs scale block =
          scalarBlockHadamardInverse (2 ^ bits) signs (2 ^ bits) scale block) := by
  have scalar := @scalarPairMagnitudes_filled K _ sqrt pairs p mags
  have exponents {low : Nat} (large : 2 ^ low ≤ 2 ^ bits) : low ≤ bits :=
    (Nat.pow_le_pow_iff_right (by omega)).mp large
  refine ⟨source.avxAsymmetricDotPairs_eq p, source.neonAsymmetricDotPairs_eq p,
    (avxPairMagnitudes_filled p mags).unique scalar,
    (neonPairMagnitudes_filled p mags).unique scalar, scalar, fun large => ?_, fun large => ?_⟩
  · have large : 3 ≤ bits := exponents large
    exact ⟨avxForwardFused_eq large block, avxInverseFused_eq large block⟩
  · have large : 2 ≤ bits := exponents large
    exact ⟨neonForwardFused_eq large block, neonInverseFused_eq large block⟩

/-- A block that fills one register. -/
theorem kernels_eq_scalar_eight :
    avxForwardFused (2 ^ 3) (fun _ => -1) (1 / 2 : ℚ) (fun place : Nat => (place : ℚ)) =
        scalarBlockHadamardForward (2 ^ 3) (fun _ => -1) (2 ^ 3) (1 / 2 : ℚ)
          (fun place : Nat => (place : ℚ)) ∧
      neonForwardFused (2 ^ 3) (fun _ => -1) (1 / 2 : ℚ) (fun place : Nat => (place : ℚ)) =
        scalarBlockHadamardForward (2 ^ 3) (fun _ => -1) (2 ^ 3) (1 / 2 : ℚ)
          (fun place : Nat => (place : ℚ)) := by
  have agree := kernels_eq_scalar (⟨fun _ => 1, fun _ => 0, fun _ => 0, fun _ => 1, fun _ => 1,
    fun _ => 1, fun _ => 0⟩ : PairSource ℚ) id (fun _ => 1) (fun _ => 0) (fun _ => -1)
    (fun place => place) (1 / 2) 21 3
  exact ⟨(agree.2.2.2.2.2.1 (by decide)).1, (agree.2.2.2.2.2.2 (by decide)).1⟩

end Valise.VectorHadamard
