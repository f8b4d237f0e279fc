import Valise.Library.Numerals

/-!
Vector registers lane by lane. A lane has the signed integer that its bits stand for, and every
instruction reports whether each lane could hold its exact result.
-/

namespace Lanes

open Numerals

/-- What a computation returns, and whether no lane wrapped or saturated on the way and no read left
its memory. -/
structure Run (α : Type) where
  value : α
  clean : Bool
deriving DecidableEq, Repr

namespace Run

variable {α β : Type}

def exactly (value : α) : Run α := ⟨value, true⟩

def check (clean : Prop) [Decidable clean] (value : α) : Run α := ⟨value, decide clean⟩

instance : Monad Run where
  pure := exactly
  bind first next := ⟨(next first.value).value, first.clean && (next first.value).clean⟩

@[simp] theorem exactly_bind (value : α) (next : α → Run β) :
    (exactly value >>= next) = next value :=
  congrArg (Run.mk _) (Bool.true_and _)

instance : LawfulMonad Run :=
  LawfulMonad.mk' Run (fun _ => congrArg (Run.mk _) (Bool.and_true _)) exactly_bind
    fun _ _ _ => congrArg (Run.mk _) (Bool.and_assoc _ _ _)

theorem check_eq {clean : Prop} [Decidable clean] (holds : clean) (value : α) :
    check clean value = exactly value := by
  unfold check exactly
  rw [decide_eq_true holds]

end Run

open Run

abbrev Register (count : Nat) := Fin count → Int

def Fits (width : Nat) (x : Int) : Prop := -2 ^ (width - 1) ≤ x ∧ x < 2 ^ (width - 1)

instance (width : Nat) (x : Int) : Decidable (Fits width x) := inferInstanceAs (Decidable (_ ∧ _))

/-- The signed integer of the low bits. -/
def wrap (width : Nat) (x : Int) : Int := Int.bmod x (2 ^ width)

def saturate (width : Nat) (x : Int) : Int := max (-2 ^ (width - 1)) (min (2 ^ (width - 1) - 1) x)

theorem wrap_of_fits {width : Nat} (positive : 0 < width) {x : Int} (fits : Fits width x) :
    wrap width x = x := by
  obtain ⟨width, rfl⟩ := Nat.exists_eq_add_one.mpr positive
  obtain ⟨low, high⟩ := fits
  have half : ((2 ^ (width + 1) : Nat) : Int) = 2 * 2 ^ width := by
    push_cast
    ring
  simp only [Nat.add_sub_cancel] at low high
  unfold wrap
  refine Int.bmod_eq_of_le ?_ ?_ <;> omega

theorem saturate_of_fits {width : Nat} {x : Int} (fits : Fits width x) : saturate width x = x := by
  unfold Fits at fits
  unfold saturate
  omega

variable {count : Nat}

def wrapping (width : Nat) (exact : Register count) : Run (Register count) :=
  check (∀ lane, Fits width (exact lane)) fun lane => wrap width (exact lane)

def saturating (width : Nat) (exact : Register count) : Run (Register count) :=
  check (∀ lane, Fits width (exact lane)) fun lane => saturate width (exact lane)

theorem wrapping_eq {width : Nat} (positive : 0 < width) {exact : Register count}
    (fits : ∀ lane, Fits width (exact lane)) : wrapping width exact = exactly exact := by
  unfold wrapping
  rw [check_eq fits]
  exact congrArg exactly (funext fun lane => wrap_of_fits positive (fits lane))

theorem saturating_eq {width : Nat} {exact : Register count}
    (fits : ∀ lane, Fits width (exact lane)) : saturating width exact = exactly exact := by
  unfold saturating
  rw [check_eq fits]
  exact congrArg exactly (funext fun lane => saturate_of_fits (fits lane))

/-! ### Memory -/

def readAt (memory : List Int) (place : Nat) : Run Int :=
  check (place < memory.length) (memory.getD place 0)

def load (count : Nat) (memory : List Int) (start : Nat) : Run (Register count) :=
  check (start + count ≤ memory.length) fun lane => memory.getD (start + lane) 0

/-! ### NEON -/

/-- An index beyond the table gives zero. -/
def vqtbl (table : List Int) (index : Fin 8 → Nat) : Register 8 :=
  fun lane => table.getD (index lane) 0

def vld2 (memory : List Int) (start : Nat) : Run (Register 8 × Register 8) :=
  check (start + 16 ≤ memory.length) (fun lane => memory.getD (start + 2 * lane) 0,
    fun lane => memory.getD (start + 2 * lane + 1) 0)

def vmullS8 (a b : Register 8) : Run (Register 8) := wrapping 16 fun lane => a lane * b lane

def vmlalS8 (acc a b : Register 8) : Run (Register 8) :=
  wrapping 16 fun lane => acc lane + a lane * b lane

/-- A shift to the right without rounding, and then saturation. -/
def vqshrnNS16 (a : Register 8) (shift : Nat) : Run (Register 8) :=
  saturating 8 fun lane => a lane / 2 ^ shift

def sdot (acc : Register 2) (a b : Register 8) : Run (Register 2) :=
  wrapping 32 fun lane => acc lane +
    ∑ part : Fin 4, a ⟨4 * lane + part, by omega⟩ * b ⟨4 * lane + part, by omega⟩

def vaddS32 (a b : Register 2) : Run (Register 2) := wrapping 32 fun lane => a lane + b lane

/-! ### AVX2 -/

/-- A mask byte whose top bit is set gives zero. -/
def mmShuffleEpi8 (a : Register 16) (mask : Fin 16 → Nat) : Register 16 :=
  fun lane => if 128 ≤ mask lane then 0 else a ⟨mask lane % 16, Nat.mod_lt _ (by decide)⟩

def mmSrliSi128 (a : Register 16) (shift : Nat) : Register 16 :=
  fun lane => if inside : lane + shift < 16 then a ⟨lane + shift, inside⟩ else 0

def mmCvtepi8Epi16 (a : Register 16) : Register 8 := fun lane => a ⟨lane, by omega⟩

def mmUnpackloEpi16 (a b : Register 8) : Register 8 :=
  fun lane => if lane.val % 2 = 0 then a ⟨lane / 2, by omega⟩ else b ⟨lane / 2, by omega⟩

def mmUnpackhiEpi16 (a b : Register 8) : Register 8 :=
  fun lane => if lane.val % 2 = 0 then a ⟨4 + lane / 2, by omega⟩ else b ⟨4 + lane / 2, by omega⟩

def mmMaddEpi16 (a b : Register 8) : Run (Register 4) :=
  wrapping 32 fun lane => a ⟨2 * lane, by omega⟩ * b ⟨2 * lane, by omega⟩ +
    a ⟨2 * lane + 1, by omega⟩ * b ⟨2 * lane + 1, by omega⟩

def mmPacksEpi32 (a b : Register 4) : Run (Register 8) :=
  saturating 16 fun lane => if inside : lane.val < 4 then a ⟨lane, inside⟩ else b ⟨lane - 4, by omega⟩

def mmAddEpi16 (a b : Register 8) : Run (Register 8) := wrapping 16 fun lane => a lane + b lane

def mmSraiEpi16 (a : Register 8) (shift : Nat) : Register 8 := fun lane => a lane / 2 ^ shift

def mmPacksEpi16 (a b : Register 8) : Run (Register 16) :=
  saturating 8 fun lane => if inside : lane.val < 8 then a ⟨lane, inside⟩ else b ⟨lane - 8, by omega⟩

def mm256Cvtepi8Epi32 (a : Register 16) : Register 8 := fun lane => a ⟨lane, by omega⟩

def mm256MulloEpi32 (a b : Register 8) : Run (Register 8) := wrapping 32 fun lane => a lane * b lane

def addEpi32 (a b : Register count) : Run (Register count) := wrapping 32 fun lane => a lane + b lane

def mm256Castsi256Si128 (a : Register 8) : Register 4 := fun lane => a ⟨lane, low_lt lane⟩

def mm256Extracti128High (a : Register 8) : Register 4 := fun lane => a ⟨4 + lane, high_lt lane⟩

def mmShuffleEpi32 (a : Register 4) (control : Nat) : Register 4 :=
  fun lane => a ⟨control / 4 ^ lane.val % 4, Nat.mod_lt _ (by decide)⟩

/-- Products of two pairs of registers whose lanes are first put side by side. -/
theorem madd_unpacklo {a b c d : Register 8}
    (fits : ∀ lane : Fin 4, Fits 32 (a ⟨lane, low_lt lane⟩ * c ⟨lane, low_lt lane⟩ +
      b ⟨lane, low_lt lane⟩ * d ⟨lane, low_lt lane⟩)) :
    mmMaddEpi16 (mmUnpackloEpi16 a b) (mmUnpackloEpi16 c d) = exactly fun lane : Fin 4 =>
      a ⟨lane, low_lt lane⟩ * c ⟨lane, low_lt lane⟩ + b ⟨lane, low_lt lane⟩ * d ⟨lane, low_lt lane⟩ := by
  have even (lane : Fin 4) : 2 * lane.val % 2 = 0 := by omega
  have odd (lane : Fin 4) : ¬(2 * lane.val + 1) % 2 = 0 := by omega
  have half (lane : Fin 4) : 2 * lane.val / 2 = lane := by omega
  have halfOdd (lane : Fin 4) : (2 * lane.val + 1) / 2 = lane := by omega
  unfold mmMaddEpi16 mmUnpackloEpi16
  simp only [even, odd, half, halfOdd, if_true, if_false]
  exact wrapping_eq (by decide) fits

theorem madd_unpackhi {a b c d : Register 8}
    (fits : ∀ lane : Fin 4, Fits 32 (a ⟨4 + lane, high_lt lane⟩ * c ⟨4 + lane, high_lt lane⟩ +
      b ⟨4 + lane, high_lt lane⟩ * d ⟨4 + lane, high_lt lane⟩)) :
    mmMaddEpi16 (mmUnpackhiEpi16 a b) (mmUnpackhiEpi16 c d) = exactly fun lane : Fin 4 =>
      a ⟨4 + lane, high_lt lane⟩ * c ⟨4 + lane, high_lt lane⟩ +
        b ⟨4 + lane, high_lt lane⟩ * d ⟨4 + lane, high_lt lane⟩ := by
  have even (lane : Fin 4) : 2 * lane.val % 2 = 0 := by omega
  have odd (lane : Fin 4) : ¬(2 * lane.val + 1) % 2 = 0 := by omega
  have half (lane : Fin 4) : 2 * lane.val / 2 = lane := by omega
  have halfOdd (lane : Fin 4) : (2 * lane.val + 1) / 2 = lane := by omega
  unfold mmMaddEpi16 mmUnpackhiEpi16
  simp only [even, odd, half, halfOdd, if_true, if_false]
  exact wrapping_eq (by decide) fits

theorem addEpi32_eq {a b : Register count} (fits : ∀ lane, |a lane + b lane| < 2 ^ 31) :
    addEpi32 a b = exactly fun lane => a lane + b lane := by
  refine wrapping_eq (by decide) fun lane => ?_
  have bounds := abs_lt.mp (fits lane)
  unfold Fits
  omega

/-- The eight lanes are added by halves. -/
theorem horizontalAdd_eq {acc : Register 8} (bounded : ∀ lane, |acc lane| ≤ 2 ^ 27) :
    (do
      let s4 ← addEpi32 (mm256Castsi256Si128 acc) (mm256Extracti128High acc)
      let s2 ← addEpi32 s4 (mmShuffleEpi32 s4 0b00001110)
      let s1 ← addEpi32 s2 (mmShuffleEpi32 s2 0b00000001)
      return s1 0) = exactly (∑ lane, acc lane) := by
  let half : Register 4 := fun lane =>
    mm256Castsi256Si128 acc lane + mm256Extracti128High acc lane
  let quarter : Register 4 := fun lane => half lane + mmShuffleEpi32 half 0b00001110 lane
  have halves (lane : Fin 4) : |half lane| ≤ 2 ^ 28 := by
    have low := abs_le.mp (bounded ⟨lane, by omega⟩)
    have high := abs_le.mp (bounded ⟨4 + lane, by omega⟩)
    change |acc ⟨lane, by omega⟩ + acc ⟨4 + lane, by omega⟩| ≤ _
    rw [abs_le]
    omega
  have quarters (lane : Fin 4) : |quarter lane| ≤ 2 ^ 29 := by
    have low := abs_le.mp (halves lane)
    have high := abs_le.mp (halves ⟨0b00001110 / 4 ^ lane.val % 4, Nat.mod_lt _ (by decide)⟩)
    change |half lane + half ⟨0b00001110 / 4 ^ lane.val % 4, Nat.mod_lt _ (by decide)⟩| ≤ _
    rw [abs_le]
    omega
  have first : addEpi32 (mm256Castsi256Si128 acc) (mm256Extracti128High acc) = exactly half := by
    refine addEpi32_eq fun lane => ?_
    have bounds := halves lane
    change |half lane| < _
    omega
  have second : addEpi32 half (mmShuffleEpi32 half 0b00001110) = exactly quarter := by
    refine addEpi32_eq fun lane => ?_
    have bounds := quarters lane
    change |quarter lane| < _
    omega
  rw [first, exactly_bind, second, exactly_bind, addEpi32_eq, exactly_bind]
  · refine congrArg exactly ?_
    rw [Fin.sum_univ_eight]
    change acc 0 + acc 4 + (acc 2 + acc 6) + (acc 1 + acc 5 + (acc 3 + acc 7)) = _
    ring
  · intro lane
    have low := abs_le.mp (quarters lane)
    have high := abs_le.mp (quarters ⟨0b00000001 / 4 ^ lane.val % 4, Nat.mod_lt _ (by decide)⟩)
    change |quarter lane + quarter ⟨0b00000001 / 4 ^ lane.val % 4, Nat.mod_lt _ (by decide)⟩| < _
    rw [abs_lt]
    omega

/-! ### Loops that add -/

theorem foldlM_sum {M : Type} [AddCommMonoid M] {step : M → Nat → Run M} {value : Nat → M}
    {steps : Nat} (adds : ∀ place < steps, ∀ sum, step sum place = exactly (sum + value place))
    (start : M) : (List.range steps).foldlM step start =
      exactly (start + ∑ place ∈ Finset.range steps, value place) := by
  induction steps with
  | zero =>
      rw [Finset.range_zero, Finset.sum_empty, add_zero]
      rfl
  | succ steps ih =>
      rw [List.range_succ, List.foldlM_append, ih fun place inside => adds place (by omega),
        exactly_bind, List.foldlM_cons, adds steps (by omega), Finset.sum_range_succ, ← add_assoc]
      rfl

/-! ### Two accumulators in turn -/

/-- The even steps add to the first register and the odd ones to the second. -/
def inTurn (add : Nat → Register count → Run (Register count)) (steps : Nat)
    (start : Register count × Register count) : Run (Register count × Register count) :=
  (List.range steps).foldlM (fun acc step =>
    if step % 2 = 0 then do return (← add step acc.1, acc.2) else do return (acc.1, ← add step acc.2))
    start

theorem inTurn_spec (add : Nat → Register count → Run (Register count))
    (term : Nat → Register count) (bound : Int) (steps : Nat) (nonneg : 0 ≤ bound)
    (bounded : ∀ step < steps, ∀ lane, |term step lane| ≤ bound)
    (adds : ∀ step < steps, ∀ acc : Register count, (∀ lane, |acc lane| ≤ steps * bound) →
      add step acc = exactly fun lane => acc lane + term step lane) :
    ∃ first second, inTurn add steps (0, 0) = exactly (first, second) ∧ ∀ lane,
      first lane + second lane = ∑ step ∈ Finset.range steps, term step lane ∧
      |first lane| ≤ steps * bound ∧ |second lane| ≤ steps * bound := by
  have upTo : ∀ done ≤ steps, ∃ first second,
      inTurn add done (0, 0) = exactly (first, second) ∧ ∀ lane,
        first lane + second lane = ∑ step ∈ Finset.range done, term step lane ∧
        |first lane| ≤ done * bound ∧ |second lane| ≤ done * bound := by
    intro done
    induction done with
    | zero =>
        intro _
        exact ⟨0, 0, rfl, by simp⟩
    | succ done ih =>
        intro inside
        obtain ⟨first, second, ran, sums⟩ := ih (by omega)
        have limit : (done : Int) * bound ≤ steps * bound :=
          mul_le_mul_of_nonneg_right (by omega) nonneg
        have grown : ((done + 1 : Nat) : Int) * bound = done * bound + bound := by
          push_cast
          ring
        unfold inTurn at ran ⊢
        rw [List.range_succ, List.foldlM_append, ran, exactly_bind, List.foldlM_cons]
        by_cases even : done % 2 = 0
        · rw [if_pos even, adds done (by omega) first fun lane => (sums lane).2.1.trans limit]
          refine ⟨fun lane => first lane + term done lane, second, rfl, fun lane => ?_⟩
          obtain ⟨sum, left, right⟩ := sums lane
          have new := bounded done (by omega) lane
          rw [abs_le] at left right new
          rw [Finset.sum_range_succ, grown, abs_le, abs_le]
          refine ⟨by linarith, ?_, ?_⟩
          · constructor <;> linarith
          · constructor <;> linarith
        · rw [if_neg even, adds done (by omega) second fun lane => (sums lane).2.2.trans limit]
          refine ⟨first, fun lane => second lane + term done lane, rfl, fun lane => ?_⟩
          obtain ⟨sum, left, right⟩ := sums lane
          have new := bounded done (by omega) lane
          rw [abs_le] at left right new
          rw [Finset.sum_range_succ, grown, abs_le, abs_le]
          refine ⟨by linarith, ?_, ?_⟩
          · constructor <;> linarith
          · constructor <;> linarith
  exact upTo steps le_rfl

end Lanes
