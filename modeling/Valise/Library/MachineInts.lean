import Valise.Library.Outcome

/-!
Arithmetic on machine integers whose overflow stops the computation. An overflow is kept apart from
the errors that a computation reports.
-/

namespace MachineInts

open Outcomes

inductive Stop (ε : Type) where
  | failed (error : ε)
  | overflow
deriving DecidableEq

abbrev Checked (ε α : Type) := Outcome (Stop ε) α

variable {ε α : Type}

def fitting (fits : Prop) [Decidable fits] (value : α) : Checked ε α :=
  if fits then .ok value else .err .overflow

def FitsI64 (value : Int) : Prop := -2 ^ 63 ≤ value ∧ value < 2 ^ 63

instance (value : Int) : Decidable (FitsI64 value) := inferInstanceAs (Decidable (_ ∧ _))

/-- The result of an operation on 64 signed bits. -/
def i64 (value : Int) : Checked ε Int := fitting (FitsI64 value) value

/-- The result of an operation on 32 unsigned bits. -/
def u32 (value : Nat) : Checked ε Nat := fitting (value < 2 ^ 32) value

/-- A computation without such arithmetic. -/
def unchecked : Outcome ε α → Checked ε α
  | .ok value => .ok value
  | .err error => .err (.failed error)
  | .panic => .panic

@[simp] theorem fitting_ok {fits : Prop} [Decidable fits] {value result : α} :
    (fitting fits value : Checked ε α) = .ok result ↔ fits ∧ value = result := by
  unfold fitting
  split
  · next holds => simp [holds]
  · next fails => simp [fails]

@[simp] theorem i64_ok {value result : Int} :
    (i64 value : Checked ε Int) = .ok result ↔ FitsI64 value ∧ value = result := fitting_ok

@[simp] theorem u32_ok {value result : Nat} :
    (u32 value : Checked ε Nat) = .ok result ↔ value < 2 ^ 32 ∧ value = result := fitting_ok

@[simp] theorem unchecked_ok {result : Outcome ε α} {value : α} :
    unchecked result = .ok value ↔ result = .ok value := by
  cases result with
  | ok found => simp [unchecked]
  | err error => simp [unchecked]
  | panic => simp [unchecked]

end MachineInts
