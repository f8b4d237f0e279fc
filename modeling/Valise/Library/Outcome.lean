import Valise.Library.Numerals

/-!
Computations that return a value, report an error, or abort.
-/

namespace Outcomes

inductive Outcome (ε α : Type) where
  | ok (value : α)
  | err (error : ε)
  | panic
deriving Repr, DecidableEq

namespace Outcome

variable {ε α β : Type}

def bind (x : Outcome ε α) (f : α → Outcome ε β) : Outcome ε β :=
  match x with
  | .ok value => f value
  | .err error => .err error
  | .panic => .panic

instance : Monad (Outcome ε) where
  pure := .ok
  bind := Outcome.bind

def isOk : Outcome ε α → Bool
  | .ok _ => true
  | .err _ => false
  | .panic => false

def toOption : Outcome ε α → Option α
  | .ok value => some value
  | .err _ => none
  | .panic => none

/-- The source's early return: fail with the given error unless the condition holds. -/
def ensure (condition : Prop) [Decidable condition] (error : ε) : Outcome ε Unit :=
  if condition then .ok () else .err error

@[simp] theorem pure_eq (value : α) : (pure value : Outcome ε α) = .ok value := rfl

@[simp] theorem ok_bind (value : α) (f : α → Outcome ε β) :
    (Outcome.ok value >>= f) = f value := rfl

@[simp] theorem err_bind (error : ε) (f : α → Outcome ε β) :
    ((Outcome.err error : Outcome ε α) >>= f) = .err error := rfl

@[simp] theorem panic_bind (f : α → Outcome ε β) :
    ((Outcome.panic : Outcome ε α) >>= f) = .panic := rfl

theorem bind_eq_ok {x : Outcome ε α} {f : α → Outcome ε β} {result : β} :
    (x >>= f) = .ok result ↔ ∃ value, x = .ok value ∧ f value = .ok result := by
  cases x with
  | ok value => simp
  | err error => simp
  | panic => simp

theorem bind_eq_err {x : Outcome ε α} {f : α → Outcome ε β} {error : ε} :
    (x >>= f) = .err error ↔ x = .err error ∨ ∃ value, x = .ok value ∧ f value = .err error := by
  cases x with
  | ok value => simp
  | err other => simp
  | panic => simp

theorem bind_eq_panic {x : Outcome ε α} {f : α → Outcome ε β} :
    (x >>= f) = .panic ↔ x = .panic ∨ ∃ value, x = .ok value ∧ f value = .panic := by
  cases x with
  | ok value => simp
  | err error => simp
  | panic => simp

theorem bind_ne_panic {x : Outcome ε α} {f : α → Outcome ε β} (first : x ≠ .panic)
    (rest : ∀ value, f value ≠ .panic) : (x >>= f) ≠ .panic := by
  rw [ne_eq, bind_eq_panic]
  rintro (aborts | ⟨value, -, aborts⟩)
  · exact first aborts
  · exact rest value aborts

@[simp] theorem ensure_eq_ok {condition : Prop} [Decidable condition] {error : ε} {value : Unit} :
    ensure condition error = .ok value ↔ condition := by
  unfold ensure
  split <;> simp_all

@[simp] theorem ensure_ne_panic {condition : Prop} [Decidable condition] {error : ε} :
    ensure condition error ≠ .panic := by
  unfold ensure
  split <;> simp

theorem ensure_true {condition : Prop} [Decidable condition] (error : ε) (holds : condition) :
    ensure condition error = .ok () := if_pos holds

theorem ensure_false {condition : Prop} [Decidable condition] (error : ε) (fails : ¬condition) :
    ensure condition error = .err error := if_neg fails

theorem toOption_eq_some {x : Outcome ε α} {value : α} :
    x.toOption = some value ↔ x = .ok value := by
  cases x with
  | ok found => simp [toOption]
  | err error => simp [toOption]
  | panic => simp [toOption]

theorem isOk_iff {x : Outcome ε α} : x.isOk = true ↔ ∃ value, x = .ok value := by
  cases x with
  | ok value => simp [isOk]
  | err error => simp [isOk]
  | panic => simp [isOk]

end Outcome

end Outcomes
