import Valise.Library.Numerals

/-!
Trying ranked candidates in order: the first attempt that succeeds on the sorted list belongs to
the best candidate among those that would succeed.
-/

namespace Ranking

variable {α β ε : Type}

def firstSuccess (attempt : α → Except ε β) : List α → Option (α × β)
  | [] => none
  | candidate :: rest =>
      match attempt candidate with
      | .ok value => some (candidate, value)
      | .error _ => firstSuccess attempt rest

def Succeeds (attempt : α → Except ε β) (candidate : α) : Prop :=
  ∃ value, attempt candidate = .ok value

/-- The first success in the order `before`. -/
def best (before : α → α → Bool) (attempt : α → Except ε β) (candidates : List α) :
    Option (α × β) :=
  firstSuccess attempt (candidates.mergeSort before)

variable {attempt : α → Except ε β}

theorem firstSuccess_none {candidates : List α} :
    firstSuccess attempt candidates = none ↔
      ∀ candidate ∈ candidates, ¬Succeeds attempt candidate := by
  induction candidates with
  | nil => simp [firstSuccess]
  | cons candidate rest ih =>
      rw [firstSuccess, List.forall_mem_cons]
      cases tried : attempt candidate with
      | ok value => simp [Succeeds, tried]
      | error error => simp [Succeeds, tried, ih]

theorem firstSuccess_some {before : α → α → Prop} {candidates : List α} {winner : α} {value : β}
    (sorted : candidates.Pairwise before)
    (found : firstSuccess attempt candidates = some (winner, value)) :
    winner ∈ candidates ∧ attempt winner = .ok value ∧
      ∀ candidate ∈ candidates, Succeeds attempt candidate →
        candidate = winner ∨ before winner candidate := by
  induction candidates with
  | nil => cases found
  | cons candidate rest ih =>
      obtain ⟨first, sortedRest⟩ := List.pairwise_cons.mp sorted
      rw [firstSuccess] at found
      split at found
      · next tried =>
          simp only [Option.some.injEq, Prod.mk.injEq] at found
          obtain ⟨rfl, rfl⟩ := found
          refine ⟨List.mem_cons_self, tried, fun other member _ => ?_⟩
          rcases List.mem_cons.mp member with same | later
          · exact Or.inl same
          · exact Or.inr (first other later)
      · next failed =>
          obtain ⟨member, tried, wins⟩ := ih sortedRest found
          refine ⟨List.mem_cons_of_mem _ member, tried, fun other memberOther succeeds => ?_⟩
          rcases List.mem_cons.mp memberOther with rfl | later
          · obtain ⟨result, succeeded⟩ := succeeds
            rw [failed] at succeeded
            cases succeeded
          · exact wins other later succeeds

variable {before : α → α → Bool}

theorem best_none {candidates : List α} :
    best before attempt candidates = none ↔
      ∀ candidate ∈ candidates, ¬Succeeds attempt candidate := by
  rw [best, firstSuccess_none]
  constructor
  · intro fails candidate member
    exact fails candidate (List.mem_mergeSort.mpr member)
  · intro fails candidate member
    exact fails candidate (List.mem_mergeSort.mp member)

/-- With no ties, the winner is characterised by its rank alone. -/
theorem best_some (attempt : α → Except ε β) {candidates : List α} (winner : α) (value : β)
    (trans : ∀ a b c, before a b → before b c → before a c)
    (total : ∀ a b, before a b || before b a)
    (noTies : ∀ a ∈ candidates, ∀ b ∈ candidates, before a b → before b a → a = b) :
    best before attempt candidates = some (winner, value) ↔
      winner ∈ candidates ∧ attempt winner = .ok value ∧
        ∀ candidate ∈ candidates, Succeeds attempt candidate → before winner candidate := by
  have sorted := List.pairwise_mergeSort trans total candidates
  constructor
  · intro found
    obtain ⟨member, tried, wins⟩ := firstSuccess_some sorted found
    refine ⟨List.mem_mergeSort.mp member, tried, fun candidate other succeeds => ?_⟩
    rcases wins candidate (List.mem_mergeSort.mpr other) succeeds with rfl | ahead
    · simpa using total candidate candidate
    · exact ahead
  · rintro ⟨member, tried, wins⟩
    cases found : best before attempt candidates with
    | none =>
        exact absurd ⟨value, tried⟩ (best_none.mp found winner member)
    | some result =>
        obtain ⟨chosen, chosenValue⟩ := result
        obtain ⟨chosenMember, chosenTried, chosenWins⟩ := firstSuccess_some sorted found
        have memberOriginal := List.mem_mergeSort.mp chosenMember
        have same : chosen = winner := by
          rcases chosenWins winner (List.mem_mergeSort.mpr member) ⟨value, tried⟩ with
            equal | ahead
          · exact equal.symm
          · exact noTies chosen memberOriginal winner member ahead
              (wins chosen memberOriginal ⟨chosenValue, chosenTried⟩)
        subst same
        rw [chosenTried] at tried
        cases tried
        rfl

theorem best_exists (before : α → α → Bool) {candidates : List α} {candidate : α} (member : candidate ∈ candidates)
    (succeeds : Succeeds attempt candidate) :
    ∃ winner value, best before attempt candidates = some (winner, value) := by
  cases found : best before attempt candidates with
  | none => exact absurd succeeds (best_none.mp found candidate member)
  | some result => exact ⟨result.1, result.2, rfl⟩

end Ranking
