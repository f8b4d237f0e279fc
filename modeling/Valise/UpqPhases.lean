import Valise.CodecParamsWire

/-!
The cells of the ring codec are shared out among its rings: every ring begins with four phases, and
the ring that gains most is doubled as long as one fits. Numbers are those of an ordered field.
-/

namespace Valise

open Outcomes

namespace UpqDesign

/-- Fewer phases would lose the quadrant of a pair. -/
def minRingPhases : Nat := 4

section Allocator

variable {K : Type} [Field K] [LinearOrder K]

/-- How much less distortion a ring has with twice its phases. -/
def gain (w : K) (p : Nat) : K := 3 / 4 * max w (1 / 10 ^ 12) / ((p : K) * p)

/-- The first of the rings that gain most, of those whose phases still fit the budget once more. -/
def bestRing (budget : Nat) : Nat → List (K × Nat) → Option (Nat × K) → Option (Nat × K)
  | _, [], best => best
  | i, (w, p) :: rest, best =>
      if budget < p then bestRing budget (i + 1) rest best
      else if best.all fun known => known.2 < gain w p then
        bestRing budget (i + 1) rest (some (i, gain w p))
      else bestRing budget (i + 1) rest best

def allocLoop (weights : List K) (cells : Nat) : Nat → List Nat → Option (List Nat)
  | 0, _ => none
  | fuel + 1, phases =>
      let budget := cells - phases.sum
      if budget = 0 then some phases
      else
        match bestRing budget 0 (weights.zip phases) none with
        | some (i, _) => allocLoop weights cells fuel (phases.modify i (2 * ·))
        -- Nothing fits; the slack is left unused.
        | none => some phases

/-- Every turn of the loop takes a cell at least. -/
def allocPow2 (weights : List K) (cells : Nat) : Option (List Nat) :=
  allocLoop weights cells (cells + 1) (List.replicate weights.length minRingPhases)

/-! ### The choice of a ring -/

theorem bestRing_none {budget i : Nat} {rings : List (K × Nat)} {best : Option (Nat × K)}
    (nothing : bestRing budget i rings best = none) :
    best = none ∧ ∀ ring ∈ rings, budget < ring.2 := by
  induction rings generalizing i best with
  | nil => exact ⟨nothing, nofun⟩
  | cons ring rest ih =>
      obtain ⟨w, p⟩ := ring
      unfold bestRing at nothing
      split at nothing
      · rename_i wide
        obtain ⟨before, later⟩ := ih nothing
        exact ⟨before, List.forall_mem_cons.mpr ⟨wide, later⟩⟩
      · split at nothing
        · exact nomatch (ih nothing).1
        · rename_i behind
          rw [(ih nothing).1] at behind
          exact absurd rfl behind

/-- The ring that is chosen fits. -/
theorem bestRing_some {budget i chosen : Nat} {g : K} {rings : List (K × Nat)}
    {best : Option (Nat × K)} (found : bestRing budget i rings best = some (chosen, g)) :
    best = some (chosen, g) ∨ ∃ place w p, chosen = i + place ∧ rings[place]? = some (w, p) ∧
      p ≤ budget ∧ g = gain w p := by
  induction rings generalizing i best with
  | nil => exact .inl found
  | cons ring rest ih =>
      obtain ⟨w, p⟩ := ring
      have later (best : Option (Nat × K)) (found : bestRing budget (i + 1) rest best =
          some (chosen, g)) : best = some (chosen, g) ∨ ∃ place w' p', chosen = i + place ∧
          ((w, p) :: rest)[place]? = some (w', p') ∧ p' ≤ budget ∧ g = gain w' p' := by
        refine (ih found).imp_right ?_
        rintro ⟨place, w', p', rfl, there, fits, same⟩
        exact ⟨place + 1, w', p', by omega, there, fits, same⟩
      unfold bestRing at found
      split at found
      · exact later _ found
      · rename_i fits
        split at found
        · rcases later _ found with here | there
          · cases here
            exact .inr ⟨0, w, p, rfl, rfl, Nat.le_of_not_lt fits, rfl⟩
          · exact .inr there
        · exact later _ found

/-! ### The loop -/

/-- What every turn of the loop keeps. -/
structure Shared (rings cells : Nat) (phases : List Nat) : Prop where
  length : phases.length = rings
  powers : ∀ p ∈ phases, minRingPhases ≤ p ∧ p.isPowerOfTwo
  total : phases.sum ≤ max cells (minRingPhases * rings)

theorem shared_start (rings cells : Nat) :
    Shared rings cells (List.replicate rings minRingPhases) := by
  refine ⟨List.length_replicate, fun p member => ?_, ?_⟩
  · rw [List.eq_of_mem_replicate member]
    exact ⟨Nat.le_refl _, 2, rfl⟩
  · rw [List.sum_replicate_nat, Nat.mul_comm]
    exact Nat.le_max_right _ _

theorem sum_double {phases : List Nat} {i p : Nat} (there : phases[i]? = some p) :
    (phases.modify i (2 * ·)).sum = phases.sum + p := by
  induction phases generalizing i with
  | nil => exact nomatch there
  | cons first rest ih =>
      cases i with
      | zero =>
          obtain rfl : first = p := Option.some.inj there
          rw [List.modify_zero_cons, List.sum_cons, List.sum_cons]
          omega
      | succ i =>
          rw [List.modify_succ_cons, List.sum_cons, List.sum_cons, ih there, Nat.add_assoc]

/-- A ring is doubled only where its phases fit. -/
theorem Shared.double {rings cells i p : Nat} {phases : List Nat} (shared : Shared rings cells phases)
    (there : phases[i]? = some p) (fits : p ≤ cells - phases.sum) :
    Shared rings cells (phases.modify i (2 * ·)) := by
  have held := shared.powers p (List.mem_of_getElem? there)
  refine ⟨(List.length_modify ..).trans shared.length, fun q member => ?_, ?_⟩
  · obtain ⟨place, named⟩ := List.mem_iff_getElem?.mp member
    rw [List.getElem?_modify] at named
    obtain ⟨old, known, rfl⟩ := Option.map_eq_some_iff.mp named
    obtain ⟨least, power, rfl⟩ := shared.powers old (List.mem_of_getElem? known)
    split
    · refine ⟨by omega, power + 1, ?_⟩
      rw [Nat.pow_succ, Nat.mul_comm]
    · exact ⟨least, power, rfl⟩
  · have some : 0 < p := Nat.lt_of_lt_of_le (by decide) held.1
    rw [sum_double there]
    omega

/-- With a turn for each cell that is left, the loop ends, and then no ring fits once more. -/
theorem allocLoop_ends (weights : List K) {cells fuel : Nat} {phases : List Nat}
    (shared : Shared weights.length cells phases) (enough : cells - phases.sum < fuel) :
    ∃ result, (∀ more, allocLoop weights cells (fuel + more) phases = some result) ∧
      Shared weights.length cells result ∧ ∀ p ∈ result, cells - result.sum < p := by
  induction fuel generalizing phases with
  | zero => exact absurd enough (Nat.not_lt_zero _)
  | succ fuel ih =>
      have positive (p : Nat) (member : p ∈ phases) : 0 < p :=
        Nat.lt_of_lt_of_le (by decide) (shared.powers p member).1
      by_cases spent : cells - phases.sum = 0
      · refine ⟨phases, fun more => ?_, shared, fun p member => spent ▸ positive p member⟩
        rw [Nat.add_right_comm, allocLoop]
        exact if_pos spent
      cases found : bestRing (cells - phases.sum) 0 (weights.zip phases) none with
      | none =>
          refine ⟨phases, fun more => ?_, shared, fun p member => ?_⟩
          · rw [Nat.add_right_comm, allocLoop]
            rw [if_neg spent, found]
          · obtain ⟨place, there⟩ := List.mem_iff_getElem?.mp member
            have inside : place < weights.length := by
              rw [← shared.length]
              exact (List.getElem?_eq_some_iff.mp there).1
            refine (bestRing_none found).2 (weights[place], p) (List.mem_of_getElem? (i := place) ?_)
            rw [List.getElem?_zip_eq_some]
            exact ⟨List.getElem?_eq_getElem inside, there⟩
      | some chosen =>
          obtain ⟨i, g⟩ := chosen
          rcases bestRing_some found with old | ⟨place, w, p, rfl, paired, fits, _⟩
          · exact nomatch old
          have there := (List.getElem?_zip_eq_some.mp paired).2
          rw [Nat.zero_add] at found
          have some := positive p (List.mem_of_getElem? there)
          obtain ⟨result, ends, held, full⟩ := ih (shared.double there fits) (by
            rw [sum_double there]
            omega)
          refine ⟨result, fun more => ?_, held, full⟩
          rw [Nat.add_right_comm, allocLoop]
          rw [if_neg spent, found]
          exact ends more

/-- The allocation ends, whatever the weights are: every ring has a power of two of phases, at least
four, the cells are enough unless four for each ring are too many, and no ring can be doubled with
those that are left. -/
theorem allocPow2_maximal (weights : List K) (cells : Nat) :
    ∃ phases, allocPow2 weights cells = some phases ∧ phases.length = weights.length ∧
      (∀ p ∈ phases, p.isPowerOfTwo ∧ 4 ≤ p) ∧ phases.sum ≤ max cells (4 * weights.length) ∧
      ∀ p ∈ phases, cells - phases.sum < p := by
  obtain ⟨phases, ends, shared, full⟩ :=
    allocLoop_ends weights (shared_start weights.length cells) (Nat.lt_succ_of_le (Nat.sub_le _ _))
  exact ⟨phases, ends 0, shared.length, fun p member => (shared.powers p member).symm,
    shared.total, full⟩

example : allocPow2 ([1, 8, 0, 3] : List ℚ) 64 = some [8, 32, 8, 16] := by decide +kernel

theorem allocPow2_shared {weights : List K} {cells : Nat} {phases : List Nat}
    (done : allocPow2 weights cells = some phases) : Shared weights.length cells phases := by
  obtain ⟨result, ends, shared, _⟩ :=
    allocLoop_ends weights (shared_start weights.length cells) (Nat.lt_succ_of_le (Nat.sub_le _ _))
  have same : some phases = some result := done.symm.trans (ends 0)
  exact Option.some.inj same ▸ shared

/-! ### The checks of an allocation -/

def checkAllocation (cells : Nat) (phases : List Nat) : Result Unit :=
  Outcome.ensure (phases.sum ≤ cells) (.format
    s!"UpqDesign::fit: allocation overflow ({phases.sum} > {cells})")

theorem Shared.least {rings cells : Nat} {phases : List Nat} (shared : Shared rings cells phases) :
    4 * rings ≤ phases.sum := by
  rw [← shared.length, Nat.mul_comm]
  exact List.card_nsmul_le_sum _ _ fun p member => (shared.powers p member).1

/-- An allocation overflows just where four phases for each ring are too many. -/
theorem checkAllocation_ok {weights : List K} {cells : Nat} {phases : List Nat}
    (done : allocPow2 weights cells = some phases) :
    checkAllocation cells phases = .ok () ↔ 4 * weights.length ≤ cells := by
  have shared := allocPow2_shared done
  have least := shared.least
  have total : phases.sum ≤ max cells (4 * weights.length) := shared.total
  rw [checkAllocation, Outcome.ensure_eq_ok]
  omega

theorem isPowerOfTwo_pow {power : Nat} (small : power < 32) :
    isPowerOfTwo (UInt32.ofNat (2 ^ power)) = true := by
  have fits : 2 ^ power < 2 ^ 32 := Nat.pow_lt_pow_right (by decide) small
  have back : (UInt32.ofNat (2 ^ power)).toNat = 2 ^ power := UInt32.toNat_ofNat_of_lt' fits
  have positive := Nat.two_pow_pos power
  have one : (UInt32.ofNat (2 ^ power) - 1).toNat = 2 ^ power - 1 := by
    rw [UInt32.toNat_sub_of_le, back]
    · rfl
    · rw [UInt32.le_iff_toNat_le, back]
      exact positive
  refine decide_eq_true ⟨fun zero => ?_, ?_⟩
  · rw [zero] at back
    exact positive.ne back
  · rw [← UInt32.toNat_inj, UInt32.toNat_and, back, one, Nat.and_two_pow_sub_one_eq_mod]
    exact Nat.mod_self _

/-- An allocation that does not overflow passes the checks of the parameters it is stored in. -/
theorem checkPhases_allocPow2 {weights : List K} {cells : UInt32} {phases : List Nat}
    (done : allocPow2 weights cells.toNat = some phases)
    (fits : checkAllocation cells.toNat phases = .ok ()) (place : Nat) :
    UpqParams.checkPhases cells place (phases.map UInt32.ofNat) = .ok () := by
  have shared := allocPow2_shared done
  have total : phases.sum ≤ cells.toNat := Outcome.ensure_eq_ok.mp fits
  have within (p : Nat) (member : p ∈ phases) : p ≤ cells.toNat :=
    (List.single_le_sum (fun _ _ => Nat.zero_le _) p member).trans total
  have powers := shared.powers
  clear shared total fits done
  induction phases generalizing place with
  | nil => rfl
  | cons p rest ih =>
      obtain ⟨⟨least, power, rfl⟩, others⟩ := List.forall_mem_cons.mp powers
      obtain ⟨bound, bounds⟩ := List.forall_mem_cons.mp within
      have small : 2 ^ power < 2 ^ 32 := bound.trans_lt cells.toNat_lt
      have back : (UInt32.ofNat (2 ^ power)).toNat = 2 ^ power := UInt32.toNat_ofNat_of_lt' small
      rw [List.map_cons, UpqParams.checkPhases, Outcome.ensure_true, Outcome.ok_bind]
      · exact ih _ bounds others
      · refine ⟨isPowerOfTwo_pow ((Nat.pow_lt_pow_iff_right (by decide)).mp small), ?_, ?_⟩
        · rw [UInt32.le_iff_toNat_le, back]
          exact least
        · rw [UInt32.le_iff_toNat_le, back]
          exact bound

end Allocator

end UpqDesign

end Valise
