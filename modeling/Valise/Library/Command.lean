import Valise.Library.Outcome

/-!
Commands that act on a state and keep what they changed when they fail, with rules for what holds
after a success and what holds after a failure.
-/

namespace Commands

open Outcomes

def Command (σ ε α : Type) : Type := σ → Outcome ε α × σ

namespace Command

variable {σ ε α β : Type}

def bind (first : Command σ ε α) (next : α → Command σ ε β) : Command σ ε β := fun state =>
  match first state with
  | (.ok value, state) => next value state
  | (.err error, state) => (.err error, state)
  | (.panic, state) => (.panic, state)

instance : Monad (Command σ ε) where
  pure value := fun state => (.ok value, state)
  bind := Command.bind

def get : Command σ ε σ := fun state => (.ok state, state)

def modify (change : σ → σ) : Command σ ε Unit := fun state => (.ok (), change state)

/-- A computation that leaves the state alone. -/
def lift (result : Outcome ε α) : Command σ ε α := fun state => (result, state)

def forEach (items : List α) (body : α → Command σ ε Unit) : Command σ ε Unit :=
  match items with
  | [] => pure ()
  | item :: rest => do
      body item
      forEach rest body

/-- Run the body over the items, handing on what it returns. -/
def foldEach (items : List α) (value : β) (body : β → α → Command σ ε β) : Command σ ε β :=
  match items with
  | [] => pure value
  | item :: rest => do
      let value ← body value item
      foldEach rest value body

/-- An error is passed over, with what the command changed before it. -/
def attempt (command : Command σ ε α) : Command σ ε (Option α) := fun state =>
  match command state with
  | (.ok value, state) => (.ok (some value), state)
  | (.err _, state) => (.ok none, state)
  | (.panic, state) => (.panic, state)

theorem get_apply (state : σ) : (get : Command σ ε σ) state = (.ok state, state) := rfl

theorem get_bind (next : σ → Command σ ε α) (state : σ) :
    (get >>= next) state = next state state := rfl

theorem modify_apply (change : σ → σ) (state : σ) :
    (modify change : Command σ ε Unit) state = (.ok (), change state) := rfl

theorem lift_apply (result : Outcome ε α) (state : σ) : lift result state = (result, state) := rfl

theorem pure_apply (value : α) (state : σ) :
    (pure value : Command σ ε α) state = (.ok value, state) := rfl

theorem bind_of_ok {first : Command σ ε α} {next : α → Command σ ε β} {state final : σ}
    {value : α} (done : first state = (.ok value, final)) :
    (first >>= next) state = next value final := by
  change Command.bind first next state = next value final
  unfold Command.bind
  rw [done]

theorem attempt_of_ok {command : Command σ ε α} {state final : σ} {value : α}
    (done : command state = (.ok value, final)) :
    attempt command state = (.ok (some value), final) := by
  rw [attempt, done]

theorem attempt_of_err {command : Command σ ε α} {state final : σ} {error : ε}
    (failed : command state = (.err error, final)) :
    attempt command state = (.ok none, final) := by
  rw [attempt, failed]

/-- Nothing runs after a failure. -/
theorem bind_of_failed {first : Command σ ε α} {next : α → Command σ ε β} {state final : σ}
    {outcome : Outcome ε α} (stopped : first state = (outcome, final))
    (failed : ∀ value, outcome ≠ .ok value) : ((first >>= next) state).2 = final := by
  change (Command.bind first next state).2 = final
  unfold Command.bind
  rw [stopped]
  cases outcome with
  | ok value => exact absurd rfl (failed value)
  | err error => rfl
  | panic => rfl

theorem bind_of_err {first : Command σ ε α} {next : α → Command σ ε β} {state final : σ}
    {error : ε} (failed : first state = (.err error, final)) :
    (first >>= next) state = (.err error, final) := by
  change Command.bind first next state = (.err error, final)
  unfold Command.bind
  rw [failed]

theorem bind_bind {γ : Type} (first : Command σ ε α) (middle : α → Command σ ε β)
    (last : β → Command σ ε γ) :
    ((first >>= middle) >>= last) = (first >>= fun value => middle value >>= last) := by
  funext state
  change Command.bind (Command.bind first middle) last state =
    Command.bind first (fun value => Command.bind (middle value) last) state
  unfold Command.bind
  cases first state with
  | mk outcome middle =>
      cases outcome with
      | ok value => rfl
      | err error => rfl
      | panic => rfl

theorem bind_value (value : α) (next : α → Command σ ε β) :
    ((pure value : Command σ ε α) >>= next) = next value := rfl

theorem bind_eq_ok {first : Command σ ε α} {next : α → Command σ ε β} {state final : σ}
    {result : β} : (first >>= next) state = (.ok result, final) ↔
      ∃ value middle, first state = (.ok value, middle) ∧ next value middle = (.ok result, final) := by
  change Command.bind first next state = _ ↔ _
  unfold Command.bind
  cases first state with
  | mk outcome middle =>
      cases outcome with
      | ok value => simp
      | err error => simp
      | panic => simp

theorem lift_eq_ok {result : Outcome ε α} {state final : σ} {value : α} :
    lift result state = (.ok value, final) ↔ result = .ok value ∧ state = final := by
  rw [lift_apply, Prod.mk.injEq]

theorem get_eq_ok {state value final : σ} :
    (get : Command σ ε σ) state = (.ok value, final) ↔ state = value ∧ state = final := by
  rw [get_apply, Prod.mk.injEq, Outcome.ok.injEq]

theorem modify_eq_ok {change : σ → σ} {state final : σ} {value : Unit} :
    (modify change : Command σ ε Unit) state = (.ok value, final) ↔ change state = final := by
  simp [modify_apply]

theorem pure_eq_ok {value result : α} {state final : σ} :
    (pure value : Command σ ε α) state = (.ok result, final) ↔ value = result ∧ state = final := by
  rw [pure_apply, Prod.mk.injEq, Outcome.ok.injEq]

/-- From states where `before` holds, a success ends where `after` does and a failure where
`failed` does. -/
def Meets (before : σ → Prop) (command : Command σ ε α) (after : α → σ → Prop)
    (failed : σ → Prop) : Prop :=
  ∀ state, before state → match command state with
    | (.ok value, state) => after value state
    | (_, state) => failed state

/-- The command keeps a property of the state, whether it succeeds or fails. -/
def Keeps (property : σ → Prop) (command : Command σ ε α) : Prop :=
  ∀ state, property state → property (command state).2

variable {before before' failed failed' : σ → Prop} {after after' : α → σ → Prop}
  {command : Command σ ε α}

theorem Meets.weaken (meets : Meets before command after failed)
    (stronger : ∀ state, before' state → before state)
    (onSuccess : ∀ value state, after value state → after' value state)
    (onFailure : ∀ state, failed state → failed' state) : Meets before' command after' failed' := by
  intro state holds
  have met := meets state (stronger state holds)
  revert met
  rcases command state with ⟨_ | _ | _, final⟩
  · exact onSuccess _ _
  · exact onFailure _
  · exact onFailure _

theorem Meets.final {property : σ → Prop} {state : σ}
    (meets : Meets before command (fun _ => property) property) (holds : before state) :
    property (command state).2 := by
  have met := meets state holds
  revert met
  rcases command state with ⟨_ | _ | _, final⟩
  · exact id
  · exact id
  · exact id

theorem Meets.keeps {property : σ → Prop}
    (meets : Meets property command (fun _ => property) property) : Keeps property command :=
  fun _ holds => meets.final holds

theorem Meets.ok {state final : σ} {value : α} (meets : Meets before command after failed)
    (holds : before state) (done : command state = (.ok value, final)) : after value final := by
  have met := meets state holds
  rwa [done] at met

/-- Two results about one command hold together. -/
theorem Meets.and {before₁ before₂ failed₁ failed₂ : σ → Prop} {after₁ after₂ : α → σ → Prop}
    (first : Meets before₁ command after₁ failed₁) (second : Meets before₂ command after₂ failed₂) :
    Meets (fun state => before₁ state ∧ before₂ state) command
      (fun value state => after₁ value state ∧ after₂ value state)
      fun state => failed₁ state ∧ failed₂ state := by
  intro state holds
  have one := first state holds.1
  have two := second state holds.2
  revert one two
  rcases command state with ⟨_ | _ | _, final⟩
  · exact And.intro
  · exact And.intro
  · exact And.intro

theorem Keeps.meets {property : σ → Prop} (keeps : Keeps property command) :
    Meets property command (fun _ => property) property := by
  intro state holds
  have kept := keeps state holds
  revert kept
  rcases command state with ⟨_ | _ | _, final⟩
  · exact id
  · exact id
  · exact id

theorem meets_pure (value : α) (holds : ∀ state, before state → after value state) :
    Meets before (pure value : Command σ ε α) after failed := holds

theorem meets_bind {m : β → σ → Prop} {first : Command σ ε β} {next : β → Command σ ε α}
    (met : Meets before first m failed)
    (rest : ∀ value, Meets (m value) (next value) after failed) :
    Meets before (first >>= next) after failed := by
  intro state holds
  have reached := met state holds
  change match Command.bind first next state with
    | (.ok value, state) => after value state
    | (_, state) => failed state
  unfold Command.bind
  revert reached
  rcases first state with ⟨value | _ | _, final⟩
  · exact rest value final
  · exact id
  · exact id

theorem meets_modify {change : σ → σ} {after : Unit → σ → Prop}
    (holds : ∀ state, before state → after () (change state)) :
    Meets before (modify change : Command σ ε Unit) after failed := holds

/-- After reading the state, the rest runs from exactly that state. -/
theorem meets_get_bind {next : σ → Command σ ε α}
    (rest : ∀ read, before read → Meets (fun state => state = read) (next read) after failed) :
    Meets before (get >>= next) after failed := by
  intro state holds
  exact rest state holds state (Eq.refl state)

/-- After a change, the rest runs from a state that the change was applied to. -/
theorem meets_modify_bind {change : σ → σ} {next : Unit → Command σ ε α}
    (rest : Meets (fun state => ∃ earlier, before earlier ∧ state = change earlier) (next ()) after
      failed) : Meets before (modify change >>= next) after failed := by
  intro state holds
  exact rest (change state) ⟨state, holds, Eq.refl _⟩

theorem meets_lift {result : Outcome ε α}
    (onSuccess : ∀ value state, result = .ok value → before state → after value state)
    (onFailure : ∀ state, before state → failed state) :
    Meets before (lift result : Command σ ε α) after failed := by
  intro state holds
  rcases result with value | _ | _
  · exact onSuccess value state (Eq.refl _) holds
  · exact onFailure state holds
  · exact onFailure state holds

/-- After a computation that leaves the state alone, the rest may use what it returned. -/
theorem meets_lift_bind {result : Outcome ε β} {next : β → Command σ ε α}
    (rest : ∀ value, result = .ok value → Meets before (next value) after failed)
    (onFailure : ∀ state, before state → failed state) :
    Meets before (lift result >>= next) after failed := by
  intro state holds
  rcases result with value | _ | _
  · exact rest value (Eq.refl _) state holds
  · exact onFailure state holds
  · exact onFailure state holds

/-- A failure may use that the computation does not succeed. -/
theorem meets_lift_or {result : Outcome ε α}
    (onSuccess : ∀ value state, result = .ok value → before state → after value state)
    (onFailure : ∀ state, (∀ value, result ≠ .ok value) → before state → failed state) :
    Meets before (lift result : Command σ ε α) after failed := by
  intro state holds
  rcases result with value | _ | _
  · exact onSuccess value state (Eq.refl _) holds
  · exact onFailure state nofun holds
  · exact onFailure state nofun holds

theorem meets_forEach (invariant : List α → σ → Prop) {body : α → Command σ ε Unit}
    (step : ∀ item rest, Meets (invariant (item :: rest)) (body item) (fun _ => invariant rest)
      failed) (items : List α) :
    Meets (invariant items) (forEach items body) (fun _ => invariant []) failed := by
  induction items with
  | nil => exact meets_pure () fun _ holds => holds
  | cons item rest ih => exact meets_bind (step item rest) fun _ => ih

theorem meets_foldEach (invariant : List α → β → σ → Prop) {body : β → α → Command σ ε β}
    (step : ∀ item rest value, Meets (invariant (item :: rest) value) (body value item)
      (fun value => invariant rest value) failed) (items : List α) (value : β) :
    Meets (invariant items value) (foldEach items value body) (fun value => invariant [] value)
      failed := by
  induction items generalizing value with
  | nil => exact meets_pure value fun _ holds => holds
  | cons item rest ih => exact meets_bind (step item rest value) ih

/-! ### Keeping a property -/

variable {property : σ → Prop}

theorem keeps_pure (value : α) : Keeps property (pure value : Command σ ε α) :=
  fun _ holds => holds

theorem keeps_get : Keeps property (get : Command σ ε σ) := fun _ holds => holds

theorem keeps_lift (result : Outcome ε α) : Keeps property (lift result : Command σ ε α) :=
  fun _ holds => holds

theorem keeps_modify {change : σ → σ} (holds : ∀ state, property state → property (change state)) :
    Keeps property (modify change : Command σ ε Unit) := holds

theorem keeps_bind {first : Command σ ε β} {next : β → Command σ ε α} (kept : Keeps property first)
    (rest : ∀ value, Keeps property (next value)) : Keeps property (first >>= next) :=
  (meets_bind kept.meets fun value => (rest value).meets).keeps

theorem keeps_ite {condition : Prop} [Decidable condition] {yes no : Command σ ε α}
    (onTrue : Keeps property yes) (onFalse : Keeps property no) :
    Keeps property (if condition then yes else no) := by
  split
  · exact onTrue
  · exact onFalse

theorem keeps_forEach {body : α → Command σ ε Unit} (step : ∀ item, Keeps property (body item))
    (items : List α) : Keeps property (forEach items body) :=
  (meets_forEach (fun _ => property) (fun item _ => (step item).meets) items).keeps

theorem keeps_foldEach {body : β → α → Command σ ε β}
    (step : ∀ value item, Keeps property (body value item)) (items : List α) (value : β) :
    Keeps property (foldEach items value body) :=
  (meets_foldEach (fun _ _ => property) (fun item _ value => (step value item).meets) items
    value).keeps

/-! ### Errors -/

/-- Every failure of the command is one of some errors. -/
def FailsOnlyWith (allowed : ε → Prop) (command : Command σ ε α) : Prop :=
  ∀ state error, (command state).1 = .err error → allowed error

theorem bind_eq_err {first : Command σ ε α} {next : α → Command σ ε β} {state : σ} {error : ε} :
    ((first >>= next) state).1 = .err error ↔ (first state).1 = .err error ∨
      ∃ value middle, first state = (.ok value, middle) ∧ (next value middle).1 = .err error := by
  change (Command.bind first next state).1 = _ ↔ _
  unfold Command.bind
  rcases first state with ⟨value | other | _, middle⟩
  · simp
  · simp
  · simp

variable {allowed : ε → Prop}

theorem failsOnlyWith_pure (value : α) :
    FailsOnlyWith allowed (pure value : Command σ ε α) := by
  intro state error failed
  cases failed

theorem failsOnlyWith_get : FailsOnlyWith allowed (get : Command σ ε σ) := by
  intro state error failed
  cases failed

theorem failsOnlyWith_modify (change : σ → σ) :
    FailsOnlyWith allowed (modify change : Command σ ε Unit) := by
  intro state error failed
  cases failed

theorem failsOnlyWith_lift {result : Outcome ε α}
    (allows : ∀ error, result = .err error → allowed error) :
    FailsOnlyWith allowed (lift result : Command σ ε α) :=
  fun _ error failed => allows error failed

theorem failsOnlyWith_bind {first : Command σ ε α} {next : α → Command σ ε β}
    (one : FailsOnlyWith allowed first) (rest : ∀ value, FailsOnlyWith allowed (next value)) :
    FailsOnlyWith allowed (first >>= next) := by
  intro state error failed
  rcases bind_eq_err.mp failed with early | ⟨value, middle, _, late⟩
  · exact one state error early
  · exact rest value middle error late

theorem failsOnlyWith_ite {condition : Prop} [Decidable condition] {yes no : Command σ ε α}
    (onTrue : FailsOnlyWith allowed yes) (onFalse : FailsOnlyWith allowed no) :
    FailsOnlyWith allowed (if condition then yes else no) := by
  split
  · exact onTrue
  · exact onFalse

theorem failsOnlyWith_forEach {body : α → Command σ ε Unit}
    (step : ∀ item, FailsOnlyWith allowed (body item)) (items : List α) :
    FailsOnlyWith allowed (forEach items body) := by
  induction items with
  | nil => exact failsOnlyWith_pure ()
  | cons item rest ih => exact failsOnlyWith_bind (step item) fun _ => ih

theorem failsOnlyWith_foldEach {body : β → α → Command σ ε β}
    (step : ∀ value item, FailsOnlyWith allowed (body value item)) (items : List α) (value : β) :
    FailsOnlyWith allowed (foldEach items value body) := by
  induction items generalizing value with
  | nil => exact failsOnlyWith_pure value
  | cons item rest ih => exact failsOnlyWith_bind (step value item) fun value => ih value

end Command

end Commands
