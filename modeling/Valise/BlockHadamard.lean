import Valise.Library.Butterflies
import Valise.PolarCodes

/-!
The block-Hadamard rotation as the scalar loops compute it, over exact numbers. A slice is a memory
of which the first places are its own; what lies behind them stays as it is.
-/

namespace Valise.BlockHadamard

open Butterflies Hadamard Numerals Outcomes Sweeps

variable {K : Type} [Field K]

/-! ### The loops -/

/-- `for (d, s) in data.iter_mut().zip(signs.iter()) { *d *= *s; }` -/
def applySigns (len : Nat) (signs data : Nat → K) : Nat → K :=
  fun place => if place < len then data place * signs place else data place

def store (memory : Nat → K) (place : Nat) (value : K) : Nat → K :=
  fun other => if other = place then value else memory other

def butterfly (h j : Nat) (block : Nat → K) : Nat → K :=
  let x := block j
  let y := block (j + h)
  store (store block j (x + y)) (j + h) (x - y)

def fwhtStage (n h : Nat) (positive : 0 < h) (block : Nat → K) : Nat → K :=
  (sweep (doubled_pos positive) 1 n
    (fun i block => (sweep Nat.one_pos 1 (i + h) (butterfly h) i block).2) 0 block).2

def fwht (n : Nat) (block : Nat → K) : Nat → K :=
  doubling n (fwhtStage n) 1 Nat.one_pos block

def scaleBlock (n : Nat) (scale : K) (block : Nat → K) : Nat → K :=
  fun place => if place < n then block place * scale else block place

/-- Every whole chunk is run on as a slice of its own. -/
def chunksExactMut (len size : Nat) (run : Nat → (Nat → K) → Nat → K) (data : Nat → K) : Nat → K :=
  fun place => if place < len / size * size then
    run (place / size * size) (fun offset => data (place / size * size + offset)) (place % size)
  else data place

def scalarFwhtBlockNormalized (len blockSize : Nat) (scale : K) (data : Nat → K) : Nat → K :=
  chunksExactMut len blockSize (fun _ block => scaleBlock blockSize scale (fwht blockSize block)) data

def scalarBlockHadamardForward (len : Nat) (signs : Nat → K) (blockSize : Nat) (scale : K)
    (data : Nat → K) : Nat → K :=
  scalarFwhtBlockNormalized len blockSize scale (applySigns len signs data)

def scalarBlockHadamardInverse (len : Nat) (signs : Nat → K) (blockSize : Nat) (scale : K)
    (data : Nat → K) : Nat → K :=
  applySigns len signs (scalarFwhtBlockNormalized len blockSize scale data)

/-! ### What the loops compute -/

theorem butterfly_crosses {h : Nat} (positive : 0 < h) : Crosses 1 h (@butterfly K _ h) := by
  intro first memory place
  simp only [butterfly, store]
  by_cases low : place = first
  · subst low
    rw [if_neg (by omega), if_pos rfl, if_pos (by omega)]
  · by_cases high : place = first + h
    · subst high
      rw [if_pos rfl, if_neg (by omega), if_pos (by omega), Nat.add_sub_cancel]
    · rw [if_neg high, if_neg low, if_neg (by omega), if_neg (by omega)]

theorem fwhtStage_eq {bit bits : Nat} (below : bit < bits) (block : Nat → K) :
    fwhtStage (2 ^ bits) (2 ^ bit) (Nat.two_pow_pos bit) block =
      fun place => if place < 2 ^ bits then stage bit block place else block place := by
  have whole : 2 * 2 ^ bit ∣ 2 ^ bits := by
    rw [← Nat.pow_succ']
    exact Nat.pow_dvd_pow 2 below
  have some := Nat.two_pow_pos bit
  exact sweep_pass _ (by omega) one_pos whole (stage_writes block fun base memory place =>
    group_eq one_pos le_rfl one_pos (Nat.one_dvd _) (butterfly_crosses some) (fun _ => rfl) memory
      place)

/-- The triple loop is the Walsh-Hadamard transform of the block. -/
theorem fwht_eq (bits : Nat) (block : Nat → K) : fwht (2 ^ bits) block =
    fun place => if place < 2 ^ bits then transform bits block place else block place :=
  doubling_transform (Nat.zero_le bits) (fun _ memory _ below => fwhtStage_eq below memory)
    (funext fun _ => (ite_self _).symm)

variable {len bits : Nat} {scale : K} {signs : Nat → K}

theorem scalarFwht_block (whole : 2 ^ bits ∣ len) (data : Nat → K) {block offset : Nat}
    (before : 2 ^ bits * block < len) (inside : offset < 2 ^ bits) :
    scalarFwhtBlockNormalized len (2 ^ bits) scale data (2 ^ bits * block + offset) =
      transform bits data (2 ^ bits * block + offset) * scale := by
  obtain ⟨count, rfl⟩ := whole
  have some := Nat.two_pow_pos bits
  have all : 2 ^ bits * count / 2 ^ bits * 2 ^ bits = 2 ^ bits * count := by
    rw [Nat.mul_div_cancel_left _ some, Nat.mul_comm]
  have earlier : block + 1 ≤ count := Nat.lt_of_mul_lt_mul_left before
  have room : 2 ^ bits * (block + 1) ≤ 2 ^ bits * count := Nat.mul_le_mul_left _ earlier
  have here : 2 ^ bits * block + offset < 2 ^ bits * count := by
    rw [Nat.mul_succ] at room
    omega
  have which : (2 ^ bits * block + offset) / 2 ^ bits * 2 ^ bits = 2 ^ bits * block := by
    rw [Nat.mul_add_div some, Nat.div_eq_of_lt inside, Nat.add_zero, Nat.mul_comm]
  have rest : (2 ^ bits * block + offset) % 2 ^ bits = offset := by
    rw [Nat.mul_add_mod, Nat.mod_eq_of_lt inside]
  unfold scalarFwhtBlockNormalized chunksExactMut
  rw [all, if_pos here, which, rest]
  simp only [scaleBlock, fwht_eq, if_pos inside]
  rw [transform_shift le_rfl]

theorem scalarFwht_apply (whole : 2 ^ bits ∣ len) (data : Nat → K) :
    scalarFwhtBlockNormalized len (2 ^ bits) scale data =
      fun place => if place < len then transform bits data place * scale else data place := by
  funext place
  split
  · rename_i before
    have some := Nat.two_pow_pos bits
    rw [← Nat.div_add_mod place (2 ^ bits)]
    have start := Nat.mul_div_le place (2 ^ bits)
    exact scalarFwht_block whole data (by omega) (Nat.mod_lt _ some)
  · rename_i behind
    have all := Nat.div_mul_cancel whole
    unfold scalarFwhtBlockNormalized chunksExactMut
    rw [all, if_neg behind]

/-- A transform of whole blocks does not see what lies behind them. -/
theorem transform_within (whole : 2 ^ bits ∣ len) {values others : Nat → K}
    (agree : ∀ place < len, values place = others place) {place : Nat} (inside : place < len) :
    transform bits values place = transform bits others place := by
  obtain ⟨count, rfl⟩ := whole
  have some := Nat.two_pow_pos bits
  have earlier : place / 2 ^ bits + 1 ≤ count := Nat.div_lt_of_lt_mul inside
  have room : 2 ^ bits * (place / 2 ^ bits + 1) ≤ 2 ^ bits * count :=
    Nat.mul_le_mul_left _ earlier
  rw [Nat.mul_succ] at room
  rw [← Nat.div_add_mod place (2 ^ bits), ← transform_shift le_rfl, ← transform_shift le_rfl]
  exact transform_congr le_rfl (fun offset low => agree _ (by omega)) (Nat.mod_lt _ some)

theorem scalarFwht_twice (whole : 2 ^ bits ∣ len) (normal : scale ^ 2 * (2 ^ bits : Nat) = 1)
    (data : Nat → K) : scalarFwhtBlockNormalized len (2 ^ bits) scale
      (scalarFwhtBlockNormalized len (2 ^ bits) scale data) = data := by
  rw [scalarFwht_apply whole data, scalarFwht_apply whole]
  funext place
  by_cases inside : place < len
  · have seen : transform bits (fun place => if place < len then transform bits data place * scale
        else data place) place = scale * (2 ^ bits * data place) := by
      rw [← congrFun (transform_twice bits data) place,
        ← congrFun (transform_scale bits scale (transform bits data)) place]
      exact transform_within whole (fun place within => by rw [if_pos within, mul_comm]) inside
    push_cast at normal
    simp only [if_pos inside]
    rw [seen]
    linear_combination data place * normal
  · simp only [if_neg inside]

theorem scalarFwht_inner (whole : 2 ^ bits ∣ len) (normal : scale ^ 2 * (2 ^ bits : Nat) = 1)
    (values others : Nat → K) :
    ∑ place ∈ Finset.range len, scalarFwhtBlockNormalized len (2 ^ bits) scale values place *
        scalarFwhtBlockNormalized len (2 ^ bits) scale others place =
      ∑ place ∈ Finset.range len, values place * others place := by
  obtain ⟨count, rfl⟩ := whole
  rw [sum_blocks, sum_blocks]
  refine Finset.sum_congr rfl fun block member => ?_
  have before : 2 ^ bits * block < 2 ^ bits * count :=
    Nat.mul_lt_mul_of_pos_left (Finset.mem_range.mp member) (Nat.two_pow_pos bits)
  have blockwise := transform_inner (le_refl bits) (fun offset => values (2 ^ bits * block + offset))
    fun offset => others (2 ^ bits * block + offset)
  calc _ = ∑ offset ∈ Finset.range (2 ^ bits), scale ^ 2 *
        (transform bits (fun offset => values (2 ^ bits * block + offset)) offset *
          transform bits (fun offset => others (2 ^ bits * block + offset)) offset) := by
        refine Finset.sum_congr rfl fun offset inside => ?_
        have inside := Finset.mem_range.mp inside
        rw [scalarFwht_block (Nat.dvd_mul_right _ _) _ before inside,
          scalarFwht_block (Nat.dvd_mul_right _ _) _ before inside, transform_shift le_rfl,
          transform_shift le_rfl]
        ring
    _ = _ := by
        rw [← Finset.mul_sum, blockwise, ← mul_assoc]
        have one : scale ^ 2 * 2 ^ bits = 1 := by
          rw [← normal]
          push_cast
          rfl
        rw [one, one_mul]

/-- The rotation undoes itself, and keeps inner products. -/
theorem blockHadamard_orthogonal {blockSize : Nat} (power : blockSize.isPowerOfTwo)
    (whole : blockSize ∣ len) (normal : scale ^ 2 * blockSize = 1)
    (unit : ∀ place < len, signs place = 1 ∨ signs place = -1) (x y : Nat → K) :
    scalarBlockHadamardInverse len signs blockSize scale
        (scalarBlockHadamardForward len signs blockSize scale x) = x ∧
      ∑ place ∈ Finset.range len, scalarBlockHadamardForward len signs blockSize scale x place *
          scalarBlockHadamardForward len signs blockSize scale y place =
        ∑ place ∈ Finset.range len, x place * y place := by
  obtain ⟨bits, rfl⟩ := power
  have square : ∀ place < len, signs place * signs place = 1 := by
    intro place inside
    rcases unit place inside with same | same <;> rw [same] <;> ring
  constructor
  · unfold scalarBlockHadamardInverse scalarBlockHadamardForward
    rw [scalarFwht_twice whole normal]
    funext place
    unfold applySigns
    by_cases inside : place < len
    · rw [if_pos inside, if_pos inside, mul_assoc, square place inside, mul_one]
    · rw [if_neg inside, if_neg inside]
  · unfold scalarBlockHadamardForward
    rw [scalarFwht_inner whole normal]
    refine Finset.sum_congr rfl fun place member => ?_
    have inside := Finset.mem_range.mp member
    unfold applySigns
    rw [if_pos inside, if_pos inside]
    linear_combination x place * y place * square place inside

theorem blockHadamard_orthogonal_four :
    scalarBlockHadamardInverse 8 (fun place => if place = 1 then -1 else 1) 4 (1 / 2 : ℚ)
      (scalarBlockHadamardForward 8 (fun place => if place = 1 then -1 else 1) 4 (1 / 2)
        fun place : Nat => (place : ℚ)) = fun place : Nat => (place : ℚ) := by
  have normal : (1 / 2 : ℚ) ^ 2 * (4 : Nat) = 1 := by norm_num
  refine (@blockHadamard_orthogonal ℚ _ 8 (1 / 2) _ 4 ⟨2, rfl⟩ (by decide) normal
    (fun place _ => ?_) _ fun _ => 0).1
  by_cases first : place = 1
  · exact .inr (if_pos first)
  · exact .inl (if_neg first)

/-! ### The rotation of the codecs -/

section Rotations

variable {rotation : Rotation}

theorem forward_rotation (whole : 2 ^ rotation.bits ∣ len) (data : Nat → ℝ) {place : Nat}
    (inside : place < len) :
    scalarBlockHadamardForward len rotation.signs (2 ^ rotation.bits) (√(2 ^ rotation.bits))⁻¹ data
      place = blockHadamardForward rotation data place := by
  unfold scalarBlockHadamardForward blockHadamardForward fwhtBlockNormalized
  rw [scalarFwht_apply whole]
  refine (if_pos inside).trans ?_
  rw [mul_comm]
  exact congrArg (_ * ·) (transform_within whole (fun _ within => if_pos within) inside)

theorem inverse_rotation (whole : 2 ^ rotation.bits ∣ len) (data : Nat → ℝ) {place : Nat}
    (inside : place < len) :
    scalarBlockHadamardInverse len rotation.signs (2 ^ rotation.bits) (√(2 ^ rotation.bits))⁻¹ data
      place = blockHadamardInverse rotation data place := by
  unfold scalarBlockHadamardInverse blockHadamardInverse fwhtBlockNormalized applySigns
  rw [if_pos inside, scalarFwht_apply whole]
  simp only [if_pos inside]
  rw [mul_comm (transform _ _ _)]

end Rotations

end Valise.BlockHadamard
