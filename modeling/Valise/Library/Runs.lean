import Valise.Library.Numerals

/-!
States that a system reaches by its steps, and invariants of all of them.
-/

namespace Runs

variable {σ : Type}

inductive Reachable (start : σ → Prop) (step : σ → σ → Prop) : σ → Prop where
  | start {state : σ} : start state → Reachable start step state
  | step {before after : σ} :
      Reachable start step before → step before after → Reachable start step after

variable {start : σ → Prop} {step : σ → σ → Prop}

/-- What holds at the start and is kept by every step holds in every reachable state. -/
theorem Reachable.invariant {invariant : σ → Prop}
    (initially : ∀ state, start state → invariant state)
    (preserved : ∀ before after, invariant before → step before after → invariant after)
    {state : σ} (reachable : Reachable start step state) : invariant state := by
  induction reachable with
  | start holds => exact initially _ holds
  | step _ taken ih => exact preserved _ _ ih taken

/-- Every state reached stays alike to a state that another system reaches, when each step is
matched by a step of the other or by none. -/
theorem Reachable.simulated {τ : Type} {otherStart : τ → Prop} {otherStep : τ → τ → Prop}
    {alike : σ → τ → Prop}
    (initially : ∀ state, start state → ∃ other, otherStart other ∧ alike state other)
    (matched : ∀ before after other, alike before other → step before after →
      ∃ later, (later = other ∨ otherStep other later) ∧ alike after later)
    {state : σ} (reachable : Reachable start step state) :
    ∃ other, Reachable otherStart otherStep other ∧ alike state other := by
  induction reachable with
  | start holds =>
      obtain ⟨other, started, related⟩ := initially _ holds
      exact ⟨other, .start started, related⟩
  | step _ taken ih =>
      obtain ⟨other, reached, related⟩ := ih
      obtain ⟨later, rfl | followed, relatedLater⟩ := matched _ _ other related taken
      · exact ⟨later, reached, relatedLater⟩
      · exact ⟨later, .step reached followed, relatedLater⟩

end Runs
