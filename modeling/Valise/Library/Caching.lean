import Valise.Library.Numerals

/-!
Computations that read through caches: while every cached value is what would be computed anew, a
computation returns the same whatever the caches hold.
-/

namespace Caching

variable {σ α β : Type} {valid : σ → Prop}

/-- On any valid cache the computation returns the value, and leaves a valid cache. -/
def Serves (valid : σ → Prop) (run : StateM σ α) (value : α) : Prop :=
  ∀ cache, valid cache → (run cache).1 = value ∧ valid (run cache).2

/-- What the computation returns does not depend on the cache. -/
def Transparent (valid : σ → Prop) (run : StateM σ α) : Prop :=
  ∃ value, Serves valid run value

theorem Serves.transparent {run : StateM σ α} {value : α} (serves : Serves valid run value) :
    Transparent valid run :=
  ⟨value, serves⟩

theorem serves_pure (value : α) : Serves valid (pure value) value :=
  fun _ holds => ⟨rfl, holds⟩

theorem transparent_pure (value : α) : Transparent valid (pure value : StateM σ α) :=
  ⟨value, serves_pure value⟩

theorem Serves.bind {run : StateM σ α} {next : α → StateM σ β} {value : α} {result : β}
    (first : Serves valid run value) (second : Serves valid (next value) result) :
    Serves valid (run >>= next) result := by
  intro cache holds
  obtain ⟨same, kept⟩ := first cache holds
  have later := second _ kept
  rw [← same] at later
  exact later

theorem Transparent.bind {run : StateM σ α} {next : α → StateM σ β}
    (first : Transparent valid run) (second : ∀ value, Transparent valid (next value)) :
    Transparent valid (run >>= next) := by
  obtain ⟨value, serves⟩ := first
  obtain ⟨result, later⟩ := second value
  exact ⟨result, serves.bind later⟩

theorem serves_foldlM {step : β → α → StateM σ β} {value : β → α → β}
    (each : ∀ held item, Serves valid (step held item) (value held item)) (items : List α)
    (start : β) : Serves valid (items.foldlM step start) (items.foldl value start) := by
  induction items generalizing start with
  | nil => exact serves_pure start
  | cons item rest ih => exact (each start item).bind (ih _)

theorem transparent_foldlM {step : β → α → StateM σ β}
    (each : ∀ held item, Transparent valid (step held item)) (items : List α) (start : β) :
    Transparent valid (items.foldlM step start) := by
  induction items generalizing start with
  | nil => exact transparent_pure start
  | cons item rest ih => exact (each start item).bind ih

theorem Transparent.ite {condition : Prop} [Decidable condition] {yes no : StateM σ α}
    (left : Transparent valid yes) (right : Transparent valid no) :
    Transparent valid (if condition then yes else no) := by
  split
  · exact left
  · exact right

/-- Two valid caches give the same. -/
theorem Transparent.same {run : StateM σ α} (transparent : Transparent valid run)
    {warm cold : σ} (first : valid warm) (second : valid cold) : (run warm).1 = (run cold).1 := by
  obtain ⟨value, serves⟩ := transparent
  exact (serves warm first).1.trans (serves cold second).1.symm

theorem Transparent.kept {run : StateM σ α} (transparent : Transparent valid run) {cache : σ}
    (holds : valid cache) : valid (run cache).2 := by
  obtain ⟨_, serves⟩ := transparent
  exact (serves cache holds).2

/-- Two computations return the same first part, whatever valid cache each is run on. -/
def Agree (valid : σ → Prop) (run other : StateM σ (α × β)) : Prop :=
  ∃ value left right, Serves valid run (value, left) ∧ Serves valid other (value, right)

theorem agree_pure (value : α) (left right : β) :
    Agree valid (pure (value, left)) (pure (value, right)) :=
  ⟨value, left, right, serves_pure _, serves_pure _⟩

theorem Serves.agree {γ : Type} {run : StateM σ γ} {value : γ} (first : Serves valid run value)
    {next after : γ → StateM σ (α × β)} (second : Agree valid (next value) (after value)) :
    Agree valid (run >>= next) (run >>= after) := by
  obtain ⟨result, left, right, one, two⟩ := second
  exact ⟨result, left, right, first.bind one, first.bind two⟩

theorem Agree.ite {condition : Prop} [Decidable condition] {yes no yes' no' : StateM σ (α × β)}
    (first : Agree valid yes yes') (second : ¬condition → Agree valid no no') :
    Agree valid (if condition then yes else no) (if condition then yes' else no') := by
  split
  · exact first
  · exact second ‹_›

theorem Agree.same {run other : StateM σ (α × β)} (agree : Agree valid run other) {cache : σ}
    (holds : valid cache) : (run cache).1.1 = (other cache).1.1 := by
  obtain ⟨value, left, right, one, two⟩ := agree
  rw [(one cache holds).1, (two cache holds).1]

end Caching
