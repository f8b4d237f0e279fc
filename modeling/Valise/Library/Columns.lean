import Valise.Library.Outcome

/-!
Columns of a table packed one by one: runs of equal values, gaps between ascending numbers,
differences of differences that fit a 64-bit word, and optional values listed by row.
-/

namespace Columns

open Outcomes

variable {ε α : Type}

/-! ### Runs of equal values -/

def runs [DecidableEq α] : List α → List (α × Nat)
  | [] => []
  | value :: values =>
      match runs values with
      | (next, count) :: rest =>
          if next = value then (next, count + 1) :: rest else (value, 1) :: (next, count) :: rest
      | [] => [(value, 1)]

def expand (runs : List (α × Nat)) : List α := runs.flatMap fun run => List.replicate run.2 run.1

@[simp] theorem expand_runs [DecidableEq α] (values : List α) : expand (runs values) = values := by
  induction values with
  | nil => rfl
  | cons value values ih =>
      simp only [runs]
      split
      · rename_i next count rest same
        rw [same] at ih
        split
        · rename_i equal
          rw [← ih, ← equal]
          simp [expand, List.replicate_succ]
        · rw [← ih]
          simp [expand]
      · rename_i same
        rw [same] at ih
        rw [← ih]
        simp [expand]

/-- There are no more runs than values, and no run is longer than all of them. -/
theorem runs_bounded [DecidableEq α] (values : List α) :
    (runs values).length ≤ values.length ∧ ∀ run ∈ runs values, run.2 ≤ values.length := by
  induction values with
  | nil => exact ⟨Nat.le_refl _, nofun⟩
  | cons value values ih =>
      obtain ⟨few, short⟩ := ih
      simp only [runs, List.length_cons]
      split
      · rename_i next count rest same
        rw [same, List.length_cons] at few
        rw [same] at short
        have head := short (next, count) List.mem_cons_self
        have tail : ∀ run ∈ rest, run.2 ≤ values.length + 1 := fun run listed =>
          Nat.le_succ_of_le (short run (List.mem_cons_of_mem _ listed))
        split
        · refine ⟨by simp only [List.length_cons]; omega, List.forall_mem_cons.mpr ⟨?_, tail⟩⟩
          exact Nat.succ_le_succ head
        · refine ⟨by simp only [List.length_cons]; omega, List.forall_mem_cons.mpr ⟨?_,
            List.forall_mem_cons.mpr ⟨Nat.le_succ_of_le head, tail⟩⟩⟩
          exact Nat.succ_le_succ (Nat.zero_le _)
      · refine ⟨by simp, ?_⟩
        intro run listed
        rw [List.mem_singleton.mp listed]
        exact Nat.succ_le_succ (Nat.zero_le _)

/-! ### Gaps between ascending numbers -/

def gaps (error : ε) : Nat → List Nat → Outcome ε (List Nat)
  | _, [] => return []
  | prev, value :: values => do
      Outcome.ensure (prev ≤ value) error
      let rest ← gaps error value values
      return (value - prev) :: rest

def sums : Nat → List Nat → List Nat
  | _, [] => []
  | prev, gap :: gaps => (prev + gap) :: sums (prev + gap) gaps

theorem sums_gaps {error : ε} {prev : Nat} {values packed : List Nat}
    (encoded : gaps error prev values = .ok packed) : sums prev packed = values := by
  induction values generalizing prev packed with
  | nil =>
      simp only [gaps, Outcome.pure_eq, Outcome.ok.injEq] at encoded
      subst encoded
      rfl
  | cons value values ih =>
      simp only [gaps, Outcome.bind_eq_ok, Outcome.ensure_eq_ok, Outcome.pure_eq,
        Outcome.ok.injEq] at encoded
      obtain ⟨_, after, rest, restEncoded, joined⟩ := encoded
      subst joined
      have here : prev + (value - prev) = value := by omega
      simp only [sums, here, ih restEncoded]

/-- The gaps themselves, with no check. -/
def steps : Nat → List Nat → List Nat
  | _, [] => []
  | prev, value :: values => (value - prev) :: steps value values

theorem gaps_eq_ok {error : ε} {prev : Nat} {values packed : List Nat} :
    gaps error prev values = .ok packed ↔
      (prev :: values).IsChain (· ≤ ·) ∧ packed = steps prev values := by
  induction values generalizing prev packed with
  | nil =>
      simp only [gaps, steps, Outcome.pure_eq, Outcome.ok.injEq, List.IsChain.singleton, true_and]
      exact eq_comm
  | cons value values ih =>
      simp only [gaps, steps, Outcome.bind_eq_ok, Outcome.ensure_eq_ok, Outcome.pure_eq,
        Outcome.ok.injEq, List.isChain_cons_cons]
      constructor
      · rintro ⟨_, after, rest, encoded, rfl⟩
        obtain ⟨ascending, rfl⟩ := ih.mp encoded
        exact ⟨⟨after, ascending⟩, rfl⟩
      · rintro ⟨⟨after, ascending⟩, rfl⟩
        exact ⟨(), after, _, ih.mpr ⟨ascending, rfl⟩, rfl⟩

/-! ### Differences in 64-bit words -/

/-- The value fits a signed 64-bit word. -/
def InWord (value : Int) : Prop := -2 ^ 63 ≤ value ∧ value < 2 ^ 63

instance (value : Int) : Decidable (InWord value) := inferInstanceAs (Decidable (_ ∧ _))

def checked (value : Int) (error : ε) : Outcome ε Int :=
  if InWord value then .ok value else .err error

@[simp] theorem checked_eq_ok {value result : Int} {error : ε} :
    checked value error = .ok result ↔ InWord value ∧ value = result := by
  unfold checked
  split
  · rename_i inside
    simp [inside]
  · rename_i outside
    simp [outside]

theorem checked_true {value : Int} (error : ε) (inside : InWord value) :
    checked value error = .ok value := if_pos inside

/-- The changes of the step from each value to the next. -/
def secondDifferences (stepError changeError : ε) : Int → Int → List Int → Outcome ε (List Int)
  | _, _, [] => return []
  | prev, prevStep, value :: values => do
      let step ← checked (value - prev) stepError
      let change ← checked (step - prevStep) changeError
      let rest ← secondDifferences stepError changeError value step values
      return change :: rest

def integrate (stepError valueError : ε) : Int → Int → List Int → Outcome ε (List Int)
  | _, _, [] => return []
  | prev, prevStep, change :: changes => do
      let step ← checked (prevStep + change) stepError
      let value ← checked (prev + step) valueError
      let rest ← integrate stepError valueError value step changes
      return value :: rest

/-- Every step, and every change of the step, fits a word. -/
def StepsFit : Int → Int → List Int → Prop
  | _, _, [] => True
  | prev, prevStep, value :: values =>
      InWord (value - prev) ∧ InWord (value - prev - prevStep) ∧ StepsFit value (value - prev) values

instance decideStepsFit : (prev prevStep : Int) → (values : List Int) →
    Decidable (StepsFit prev prevStep values)
  | _, _, [] => isTrue trivial
  | prev, _, value :: values =>
      have := decideStepsFit value (value - prev) values
      inferInstanceAs (Decidable (_ ∧ _ ∧ _))

/-- The changes themselves, with no check. -/
def changes : Int → Int → List Int → List Int
  | _, _, [] => []
  | prev, prevStep, value :: values =>
      (value - prev - prevStep) :: changes value (value - prev) values

theorem secondDifferences_eq_ok {stepError changeError : ε} {prev prevStep : Int}
    {values packed : List Int} :
    secondDifferences stepError changeError prev prevStep values = .ok packed ↔
      StepsFit prev prevStep values ∧ packed = changes prev prevStep values := by
  induction values generalizing prev prevStep packed with
  | nil =>
      simp only [secondDifferences, changes, StepsFit, Outcome.pure_eq, Outcome.ok.injEq, true_and]
      exact eq_comm
  | cons value values ih =>
      simp only [secondDifferences, changes, StepsFit, Outcome.bind_eq_ok, checked_eq_ok,
        Outcome.pure_eq, Outcome.ok.injEq]
      constructor
      · rintro ⟨_, ⟨fits, rfl⟩, _, ⟨changeFits, rfl⟩, rest, encoded, rfl⟩
        obtain ⟨later, rfl⟩ := ih.mp encoded
        exact ⟨⟨fits, changeFits, later⟩, rfl⟩
      · rintro ⟨⟨fits, changeFits, later⟩, rfl⟩
        exact ⟨_, ⟨fits, rfl⟩, _, ⟨changeFits, rfl⟩, _, ih.mpr ⟨later, rfl⟩, rfl⟩

/-- Ascending values that are not negative never step out of a word. -/
theorem stepsFit_of_ascending {prev prevStep : Int} {values : List Int}
    (ascending : (prev :: values).IsChain (· ≤ ·)) (positive : 0 ≤ prev)
    (inWords : ∀ value ∈ values, InWord value) (stepFits : 0 ≤ prevStep ∧ prevStep < 2 ^ 63) :
    StepsFit prev prevStep values := by
  induction values generalizing prev prevStep with
  | nil => trivial
  | cons value values ih =>
      obtain ⟨after, rest⟩ := List.isChain_cons_cons.mp ascending
      have bound : value < 2 ^ 63 := (inWords value List.mem_cons_self).2
      have step : 0 ≤ value - prev ∧ value - prev < 2 ^ 63 := by omega
      refine ⟨⟨by omega, step.2⟩, ⟨by omega, by omega⟩, ?_⟩
      exact ih rest (by omega) (fun later member => inWords later (List.mem_cons_of_mem _ member)) step

theorem integrate_secondDifferences {stepError changeError : ε} (stepError' valueError : ε)
    {prev prevStep : Int} {values changes : List Int} (inWords : ∀ value ∈ values, InWord value)
    (encoded : secondDifferences stepError changeError prev prevStep values = .ok changes) :
    integrate stepError' valueError prev prevStep changes = .ok values := by
  induction values generalizing prev prevStep changes with
  | nil =>
      simp only [secondDifferences, Outcome.pure_eq, Outcome.ok.injEq] at encoded
      subst encoded
      rfl
  | cons value values ih =>
      simp only [secondDifferences, Outcome.bind_eq_ok, checked_eq_ok, Outcome.pure_eq,
        Outcome.ok.injEq] at encoded
      obtain ⟨step, ⟨stepFits, stepEq⟩, change, ⟨_, changeEq⟩, rest, restEncoded, joined⟩ := encoded
      subst joined
      have back : prevStep + change = step := by omega
      have next : prev + step = value := by omega
      have word : InWord step := stepEq ▸ stepFits
      have valueFits : InWord value := inWords value List.mem_cons_self
      have later := ih (fun other member => inWords other (List.mem_cons_of_mem _ member))
        restEncoded
      simp only [integrate, back, checked_true _ word, Outcome.ok_bind, next,
        checked_true _ valueFits, later, Outcome.pure_eq]

/-! ### Optional values, listed with their rows -/

/-- The rows that have a value, counted from `row` on. -/
def listed (row : Nat) : List (Option α) → List (Nat × α)
  | [] => []
  | none :: values => listed (row + 1) values
  | some value :: values => (row, value) :: listed (row + 1) values

/-- Put listed values back into `count` rows from `row` on. -/
def unlisted (row : Nat) : Nat → List (Nat × α) → List (Option α)
  | 0, _ => []
  | count + 1, [] => none :: unlisted (row + 1) count []
  | count + 1, (place, value) :: rest =>
      if place = row then some value :: unlisted (row + 1) count rest
      else none :: unlisted (row + 1) count ((place, value) :: rest)

theorem listed_rows {row : Nat} {values : List (Option α)} {entry : Nat × α}
    (member : entry ∈ listed row values) : row ≤ entry.1 ∧ entry.1 < row + values.length := by
  induction values generalizing row with
  | nil => simp [listed] at member
  | cons value values ih =>
      cases value with
      | none =>
          have later := ih member
          simp only [List.length_cons]
          omega
      | some value =>
          simp only [listed, List.mem_cons] at member
          rcases member with head | later
          · subst head
            simp
          · have bound := ih later
            simp only [List.length_cons]
            omega

@[simp] theorem unlisted_listed (row : Nat) (values : List (Option α)) :
    unlisted row values.length (listed row values) = values := by
  induction values generalizing row with
  | nil => rfl
  | cons value values ih =>
      cases value with
      | none =>
          have after : listed row (none :: values) = listed (row + 1) values := rfl
          rw [after, List.length_cons]
          rcases remaining : listed (row + 1) values with _ | ⟨⟨place, value⟩, rest⟩
          · rw [unlisted, ← remaining, ih]
          · have bound : row + 1 ≤ place := by
              have := listed_rows (remaining ▸ List.mem_cons_self : (place, value) ∈ _)
              exact this.1
            have different : place ≠ row := by omega
            rw [unlisted, if_neg different, ← remaining, ih]
      | some value =>
          have here : listed row (some value :: values) =
              (row, value) :: listed (row + 1) values := rfl
          rw [here, List.length_cons, unlisted, if_pos (Eq.refl _), ih]

end Columns
