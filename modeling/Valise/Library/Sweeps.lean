import Valise.Library.Numerals

/-!
Loops that go over a memory in strides, and what they leave when each turn writes its own stretch.
-/

namespace Sweeps

variable {σ V : Type}

/-- `while index + reach <= limit { state = body(index, state); index += stride; }` -/
def sweep {stride : Nat} (positive : 0 < stride) (reach limit : Nat) (body : Nat → σ → σ)
    (index : Nat) (state : σ) : Nat × σ :=
  if index + reach ≤ limit then
    sweep positive reach limit body (index + stride) (body index state)
  else (index, state)
termination_by limit + 1 - index

/-- `while height < limit { state = body(height, state); height *= 2; }` -/
def doubling (limit : Nat) (body : (height : Nat) → 0 < height → σ → σ) (height : Nat)
    (positive : 0 < height) (state : σ) : σ :=
  if height < limit then
    doubling limit body (height * 2) (by omega) (body height positive state)
  else state
termination_by limit - height

/-- What a turn of the loop keeps holds at its end. -/
theorem sweep_keeps {stride : Nat} (positive : 0 < stride) {reach limit : Nat}
    {body : Nat → σ → σ} (kept : Nat → σ → Prop)
    (step : ∀ index state, index + reach ≤ limit → kept index state →
      kept (index + stride) (body index state))
    {index : Nat} {state : σ} (start : kept index state) :
    let (last, after) := sweep positive reach limit body index state
    kept last after ∧ limit < last + reach := by
  induction index, state using sweep.induct positive reach limit body with
  | case1 index state more ih =>
      rw [sweep, if_pos more]
      exact ih (step index state more start)
  | case2 index state done =>
      rw [sweep, if_neg done]
      exact ⟨start, by omega⟩

/-- A loop stops at the first of its places that leaves no room. -/
theorem sweep_last {stride : Nat} (positive : 0 < stride) {reach limit : Nat} (short : reach ≤ stride)
    (some : 0 < reach) (body : Nat → σ → σ) {index : Nat} (state : σ) (before : index ≤ limit)
    (aligned : stride ∣ limit - index) : (sweep positive reach limit body index state).1 = limit := by
  have step : ∀ place (held : σ), place + reach ≤ limit → (place ≤ limit ∧ stride ∣ limit - place) →
      place + stride ≤ limit ∧ stride ∣ limit - (place + stride) := by
    intro place _ room kept
    have whole := Nat.le_of_dvd (by omega) kept.2
    refine ⟨by omega, ?_⟩
    rw [← Nat.sub_sub]
    exact Nat.dvd_sub kept.2 (Nat.dvd_refl stride)
  have start : index ≤ limit ∧ stride ∣ limit - index := ⟨before, aligned⟩
  have ran := @sweep_keeps σ stride positive reach limit body
    (fun place _ => place ≤ limit ∧ stride ∣ limit - place) step index state start
  revert ran
  rcases sweep positive reach limit body index state with ⟨last, after⟩
  rintro ⟨⟨below, whole⟩, tight⟩
  by_contra apart
  have := Nat.le_of_dvd (by omega) whole
  simp only at apart
  omega

/-- What each stage keeps holds after all the stages of a power of two. -/
theorem doubling_keeps {bits : Nat} {body : (height : Nat) → 0 < height → σ → σ}
    (kept : Nat → σ → Prop)
    (step : ∀ bit state, bit < bits → kept bit state →
      kept (bit + 1) (body (2 ^ bit) (Nat.two_pow_pos bit) state))
    {bit : Nat} {state : σ} (low : bit ≤ bits) (start : kept bit state) :
    kept bits (doubling (2 ^ bits) body (2 ^ bit) (Nat.two_pow_pos bit) state) := by
  generalize left : bits - bit = more
  induction more generalizing bit state with
  | zero =>
      obtain rfl : bit = bits := by omega
      rw [doubling, if_neg (Nat.lt_irrefl _)]
      exact start
  | succ more ih =>
      have below : bit < bits := by omega
      rw [doubling, if_pos (Nat.pow_lt_pow_right (by omega) below)]
      exact ih below (step bit state below start) (by omega)

/-- Each turn writes the next stretch, and what it reads of it is still the original. -/
def Writes (stride : Nat) (body : Nat → (Nat → V) → Nat → V) (original target : Nat → V)
    (limit : Nat) : Prop :=
  ∀ index memory, stride ∣ index → index + stride ≤ limit →
    (∀ place, index ≤ place → memory place = original place) →
    ∀ place, body index memory place =
      if index ≤ place ∧ place < index + stride then target place else memory place

/-- A pass leaves the target before its end and the original after it. -/
theorem sweep_pass {stride : Nat} (positive : 0 < stride) {reach limit : Nat}
    (short : reach ≤ stride) (some : 0 < reach) (aligned : stride ∣ limit)
    {body : Nat → (Nat → V) → Nat → V} {original target : Nat → V}
    (writes : Writes stride body original target limit) :
    (sweep positive reach limit body 0 original).2 =
      fun place => if place < limit then target place else original place := by
  have ended := sweep_last positive short some body original (Nat.zero_le limit)
    (by rwa [Nat.sub_zero])
  let kept (index : Nat) (memory : Nat → V) : Prop := stride ∣ index ∧ index ≤ limit ∧
    ∀ place, memory place = if place < index then target place else original place
  have step : ∀ index memory, index + reach ≤ limit → kept index memory →
      kept (index + stride) (body index memory) := by
    rintro index memory room ⟨here, below, was⟩
    have whole := Nat.le_of_dvd (by omega) (Nat.dvd_sub aligned here)
    refine ⟨Nat.dvd_add here (Nat.dvd_refl stride), by omega, fun place => ?_⟩
    have fresh : ∀ place, index ≤ place → memory place = original place :=
      fun place later => (was place).trans (if_neg (by omega))
    rw [writes index memory here (by omega) fresh place, was place]
    split_ifs <;> first | rfl | omega
  have start : kept 0 original := ⟨Nat.dvd_zero stride, Nat.zero_le limit, fun _ => rfl⟩
  have ran := sweep_keeps positive kept step start
  revert ended ran
  rcases sweep positive reach limit body 0 original with ⟨last, after⟩
  rintro rfl ⟨⟨_, _, was⟩, _⟩
  exact funext was

end Sweeps
