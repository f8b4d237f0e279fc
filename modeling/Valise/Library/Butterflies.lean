import Valise.Library.Hadamard
import Valise.Library.Sweeps

/-!
Loops of butterflies that compute the Walsh-Hadamard transform of a memory in place, several places
at a time, and the inner product, which every stage doubles.
-/

namespace Butterflies

open Hadamard Sweeps

variable {K : Type} [Field K]

/-! ### Places -/

theorem div_of_clear {bit group rest : Nat} (low : rest < 2 ^ bit) :
    (2 * 2 ^ bit * group + rest) / 2 ^ bit % 2 = 0 := by
  have regroup : 2 * 2 ^ bit * group + rest = 2 ^ bit * (2 * group) + rest := by ring
  rw [regroup, Nat.mul_add_div (Nat.two_pow_pos bit), Nat.div_eq_of_lt low]
  omega

theorem div_of_set {bit group rest : Nat} (low : rest < 2 ^ bit) :
    (2 * 2 ^ bit * group + 2 ^ bit + rest) / 2 ^ bit % 2 = 1 := by
  have regroup : 2 * 2 ^ bit * group + 2 ^ bit + rest = 2 ^ bit * (2 * group + 1) + rest := by ring
  rw [regroup, Nat.mul_add_div (Nat.two_pow_pos bit), Nat.div_eq_of_lt low]
  omega

/-- A clear bit can be set within the block. -/
theorem add_lt_of_clear {bit bits place : Nat} (below : bit < bits) (inside : place < 2 ^ bits)
    (clear : place / 2 ^ bit % 2 = 0) : place + 2 ^ bit < 2 ^ bits := by
  obtain ⟨more, rfl⟩ := Nat.exists_eq_add_of_lt below
  have power : 2 ^ (bit + more + 1) = 2 ^ bit * (2 * 2 ^ more) := by
    rw [Nat.pow_succ, Nat.pow_add, Nat.mul_assoc, Nat.mul_comm (2 ^ more) 2]
  rw [power] at inside ⊢
  have groups : place / 2 ^ bit < 2 * 2 ^ more := Nat.div_lt_of_lt_mul inside
  have next : (place + 2 ^ bit) / 2 ^ bit < 2 * 2 ^ more := by
    rw [bit_add_self]
    omega
  exact (Nat.div_lt_iff_lt_mul (Nat.two_pow_pos bit)).mp next |>.trans_eq (Nat.mul_comm _ _)

theorem stage_congr {bit bits : Nat} (below : bit < bits) {values others : Nat → K}
    (agree : ∀ place < 2 ^ bits, values place = others place) {place : Nat}
    (inside : place < 2 ^ bits) : stage bit values place = stage bit others place := by
  unfold stage
  split
  · rename_i clear
    rw [agree place inside, agree _ (add_lt_of_clear below inside clear)]
  · rw [agree place inside, agree _ (Nat.lt_of_le_of_lt (Nat.sub_le _ _) inside)]

theorem transform_congr {bits low : Nat} (below : low ≤ bits) {values others : Nat → K}
    (agree : ∀ place < 2 ^ bits, values place = others place) {place : Nat}
    (inside : place < 2 ^ bits) : transform low values place = transform low others place := by
  induction low generalizing place with
  | zero => exact agree place inside
  | succ low ih => exact stage_congr below (fun _ within => ih (by omega) within) inside

/-- Whole blocks in front do not matter. -/
theorem stage_shift {bit bits : Nat} (below : bit < bits) (values : Nat → K) (blocks place : Nat) :
    stage bit (fun offset => values (2 ^ bits * blocks + offset)) place =
      stage bit values (2 ^ bits * blocks + place) := by
  obtain ⟨more, rfl⟩ := Nat.exists_eq_add_of_lt below
  have power : 2 ^ (bit + more + 1) * blocks = 2 ^ bit * (2 * (2 ^ more * blocks)) := by
    rw [Nat.pow_succ, Nat.pow_add]
    ring
  have same : (2 ^ (bit + more + 1) * blocks + place) / 2 ^ bit % 2 = place / 2 ^ bit % 2 := by
    rw [power, Nat.mul_add_div (Nat.two_pow_pos bit), Nat.mul_add_mod]
  unfold stage
  rw [same]
  split
  · exact congrArg (_ + values ·) (Nat.add_assoc _ _ _).symm
  · rename_i set
    have enough := @le_of_bit bit place (by omega)
    exact congrArg (values · - _) (Nat.add_sub_assoc enough _).symm

theorem transform_shift {bits low : Nat} (below : low ≤ bits) (values : Nat → K) (blocks place : Nat) :
    transform low (fun offset => values (2 ^ bits * blocks + offset)) place =
      transform low values (2 ^ bits * blocks + place) := by
  induction low generalizing place with
  | zero => rfl
  | succ low ih =>
      rw [transform, transform, ← stage_shift below]
      exact congrFun (congrArg (stage low) (funext fun _ => ih (by omega) _)) place

/-! ### Loops -/

/-- A step adds and subtracts the values at `width` places and those `height` places on. -/
def Crosses (width height : Nat) (step : Nat → (Nat → K) → Nat → K) : Prop :=
  ∀ first memory place, step first memory place =
    if first ≤ place ∧ place < first + width then memory place + memory (place + height)
    else if first + height ≤ place ∧ place < first + height + width then
      memory (place - height) - memory place
    else memory place

section Loops

variable {width reach : Nat} {step : Nat → (Nat → K) → Nat → K}

/-- The steps of one group, wherever the index starts. -/
theorem group_eq (positive : 0 < width) (short : reach ≤ width) (some : 0 < reach) {height : Nat}
    (whole : width ∣ height) (crosses : Crosses width height step)
    {body : Nat → (Nat → K) → Nat → K} {first base : Nat}
    (located : ∀ offset, body (first + offset) = step (base + offset)) (memory : Nat → K)
    (place : Nat) :
    (sweep positive reach (first + height) body first memory).2 place =
      if base ≤ place ∧ place < base + height then memory place + memory (place + height)
      else if base + height ≤ place ∧ place < base + height + height then
        memory (place - height) - memory place
      else memory place := by
  let kept (index : Nat) (after : Nat → K) : Prop :=
    first ≤ index ∧ index ≤ first + height ∧ width ∣ index - first ∧ ∀ place, after place =
      if base ≤ place ∧ place < base + (index - first) then memory place + memory (place + height)
      else if base + height ≤ place ∧ place < base + height + (index - first) then
        memory (place - height) - memory place
      else memory place
  have turn : ∀ index after, index + reach ≤ first + height → kept index after →
      kept (index + width) (body index after) := by
    rintro index after room ⟨above, below, aligned, was⟩
    obtain ⟨offset, rfl⟩ := Nat.exists_eq_add_of_le above
    rw [Nat.add_sub_cancel_left] at aligned was
    have fits := Nat.le_of_dvd (by omega) (Nat.dvd_sub whole aligned)
    have moved : first + offset + width - first = offset + width := by omega
    have added : width ∣ first + offset + width - first := by
      rw [moved]
      exact Nat.dvd_add aligned (Nat.dvd_refl width)
    refine ⟨by omega, by omega, added, fun place => ?_⟩
    rw [located, crosses, moved]
    by_cases low : base + offset ≤ place ∧ place < base + offset + width
    · rw [if_pos low, was place, was (place + height), if_neg (by omega), if_neg (by omega),
        if_neg (by omega), if_neg (by omega), if_pos (by omega)]
    · rw [if_neg low]
      by_cases high : base + offset + height ≤ place ∧ place < base + offset + height + width
      · rw [if_pos high, was place, was (place - height), if_neg (by omega), if_neg (by omega),
          if_neg (by omega), if_neg (by omega), if_neg (by omega), if_pos (by omega)]
      · rw [if_neg high, was place]
        split_ifs <;> first | rfl | omega
  have start : kept first memory := by
    refine ⟨le_rfl, by omega, by simp, fun place => ?_⟩
    rw [if_neg (by omega), if_neg (by omega)]
  have ended := sweep_last positive short some body memory (Nat.le_add_right first height)
    (by rwa [Nat.add_sub_cancel_left])
  have ran := sweep_keeps positive kept turn start
  revert ended ran
  rcases sweep positive reach (first + height) body first memory with ⟨last, after⟩
  rintro rfl ⟨⟨_, _, _, was⟩, _⟩
  refine (was place).trans ?_
  rw [Nat.add_sub_cancel_left]

/-- Groups that cross their halves make a stage. -/
theorem stage_writes {bit limit : Nat} {body : Nat → (Nat → K) → Nat → K} (original : Nat → K)
    (groups : ∀ base memory place, body base memory place =
      if base ≤ place ∧ place < base + 2 ^ bit then memory place + memory (place + 2 ^ bit)
      else if base + 2 ^ bit ≤ place ∧ place < base + 2 ^ bit + 2 ^ bit then
        memory (place - 2 ^ bit) - memory place
      else memory place) :
    Writes (2 * 2 ^ bit) body original (stage bit original) limit := by
  rintro _ memory ⟨group, rfl⟩ _ fresh place
  rw [groups]
  by_cases low : 2 * 2 ^ bit * group ≤ place ∧ place < 2 * 2 ^ bit * group + 2 ^ bit
  · obtain ⟨rest, rfl⟩ := Nat.exists_eq_add_of_le low.1
    rw [if_pos low, if_pos (by omega), stage, if_pos (div_of_clear (by omega)), fresh _ (by omega),
      fresh _ (by omega)]
  · rw [if_neg low]
    by_cases high : 2 * 2 ^ bit * group + 2 ^ bit ≤ place ∧
        place < 2 * 2 ^ bit * group + 2 ^ bit + 2 ^ bit
    · obtain ⟨rest, rfl⟩ := Nat.exists_eq_add_of_le high.1
      have set := @div_of_set bit group rest (by omega)
      rw [if_pos high, if_pos (by omega), stage, if_neg (by omega), fresh _ (by omega),
        fresh _ (by omega)]
    · rw [if_neg high, if_neg (by omega)]

/-- The stages from some bit on finish a transform whose lower bits are done. -/
theorem doubling_transform {bits low : Nat} (started : low ≤ bits)
    {body : (height : Nat) → 0 < height → (Nat → K) → Nat → K}
    (stages : ∀ bit memory, low ≤ bit → bit < bits → body (2 ^ bit) (Nat.two_pow_pos bit) memory =
      fun place => if place < 2 ^ bits then stage bit memory place else memory place)
    {memory values : Nat → K}
    (begun : memory = fun place => if place < 2 ^ bits then transform low values place
      else values place) :
    doubling (2 ^ bits) body (2 ^ low) (Nat.two_pow_pos low) memory =
      fun place => if place < 2 ^ bits then transform bits values place else values place := by
  let kept (bit : Nat) (memory : Nat → K) : Prop := low ≤ bit ∧
    memory = fun place => if place < 2 ^ bits then transform bit values place else values place
  have turn : ∀ bit memory, bit < bits → kept bit memory →
      kept (bit + 1) (body (2 ^ bit) (Nat.two_pow_pos bit) memory) := by
    rintro bit memory below ⟨above, rfl⟩
    refine ⟨by omega, ?_⟩
    rw [stages bit _ above below]
    funext place
    by_cases inside : place < 2 ^ bits
    · rw [if_pos inside, if_pos inside]
      exact stage_congr below (fun _ within => if_pos within) inside
    · simp only [if_neg inside]
  have start : kept low memory := ⟨le_rfl, begun⟩
  exact (doubling_keeps kept turn started start).2

end Loops

/-! ### Inner products -/

section Products

open Finset

theorem sum_pairs {bit bits : Nat} (below : bit < bits) (values : Nat → K) :
    ∑ place ∈ range (2 ^ bits), values place =
      ∑ place ∈ (range (2 ^ bits)).filter (fun place => place / 2 ^ bit % 2 = 0),
        (values place + values (place + 2 ^ bit)) := by
  rw [← sum_filter_add_sum_filter_not (range (2 ^ bits)) (fun place => place / 2 ^ bit % 2 = 0),
    sum_add_distrib]
  congr 1
  refine sum_nbij' (· - 2 ^ bit) (· + 2 ^ bit) ?_ ?_ ?_ ?_ ?_
  · intro place member
    obtain ⟨inside, set⟩ := mem_filter.mp member
    have odd : place / 2 ^ bit % 2 = 1 := by omega
    have down := bit_sub_self odd
    exact mem_filter.mpr ⟨mem_range.mpr (Nat.lt_of_le_of_lt (Nat.sub_le _ _) (mem_range.mp inside)),
      by omega⟩
  · intro place member
    obtain ⟨inside, clear⟩ := mem_filter.mp member
    have up := @bit_add_self bit place
    exact mem_filter.mpr ⟨mem_range.mpr (add_lt_of_clear below (mem_range.mp inside) clear),
      by omega⟩
  · intro place member
    have set := (mem_filter.mp member).2
    exact Nat.sub_add_cancel (le_of_bit (by omega))
  · intro place _
    exact Nat.add_sub_cancel place _
  · intro place member
    have set := (mem_filter.mp member).2
    exact congrArg values (Nat.sub_add_cancel (le_of_bit (by omega))).symm

theorem stage_inner {bit bits : Nat} (below : bit < bits) (values others : Nat → K) :
    ∑ place ∈ range (2 ^ bits), stage bit values place * stage bit others place =
      2 * ∑ place ∈ range (2 ^ bits), values place * others place := by
  rw [sum_pairs below, sum_pairs below (fun place => values place * others place), mul_sum]
  refine sum_congr rfl fun place member => ?_
  have clear := (mem_filter.mp member).2
  have up := @bit_add_self bit place
  have set : (place + 2 ^ bit) / 2 ^ bit % 2 ≠ 0 := by omega
  simp only [stage, clear, set, if_true, if_false, Nat.add_sub_cancel]
  ring

theorem transform_inner {low bits : Nat} (below : low ≤ bits) (values others : Nat → K) :
    ∑ place ∈ range (2 ^ bits), transform low values place * transform low others place =
      2 ^ low * ∑ place ∈ range (2 ^ bits), values place * others place := by
  induction low with
  | zero => rw [pow_zero, one_mul]; rfl
  | succ low ih =>
      rw [transform, transform, stage_inner below, ih (by omega)]
      ring

/-- A sum over whole blocks is the sum of the sums of the blocks. -/
theorem sum_blocks {M : Type} [AddCommMonoid M] (size count : Nat) (values : Nat → M) :
    ∑ place ∈ range (size * count), values place =
      ∑ block ∈ range count, ∑ offset ∈ range size, values (size * block + offset) := by
  induction count with
  | zero => rfl
  | succ count ih => rw [Nat.mul_succ, sum_range_add, ih, sum_range_succ]

end Products

end Butterflies
