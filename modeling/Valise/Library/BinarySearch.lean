import Valise.Library.Numerals

/-!
Binary search in an ascending list: the range that may hold the target is halved until one place is
left.
-/

namespace BinarySearch

variable {α : Type} [LinearOrder α] {items : List α} {target : α}

/-- The place left of the `size` places from `base` on. -/
def narrow (items : List α) (target : α) (base size : Nat) : Nat :=
  if 1 < size then
    match items[base + size / 2]? with
    | none => base
    | some item =>
        if target < item then narrow items target base (size - size / 2)
        else narrow items target (base + size / 2) (size - size / 2)
  else base
termination_by size
decreasing_by
  · omega
  · omega

def contains (items : List α) (target : α) : Bool :=
  items[narrow items target 0 items.length]? = some target

theorem getElem?_le (sorted : items.Pairwise (· ≤ ·)) {low high : Nat} {lower higher : α}
    (ordered : low < high) (atLow : items[low]? = some lower) (atHigh : items[high]? = some higher) :
    lower ≤ higher := by
  obtain ⟨lowInside, rfl⟩ := List.getElem?_eq_some_iff.mp atLow
  obtain ⟨highInside, rfl⟩ := List.getElem?_eq_some_iff.mp atHigh
  exact List.pairwise_iff_getElem.mp sorted low high lowInside highInside ordered

/-- The target is found where it stands, or at an equal place that the search met before. -/
theorem narrow_finds (sorted : items.Pairwise (· ≤ ·)) {base size place : Nat}
    (inside : base + size ≤ items.length) (after : base ≤ place) (before : place < base + size)
    (stands : items[place]? = some target) : items[narrow items target base size]? = some target := by
  induction size using Nat.strongRecOn generalizing base place with
  | ind size ih =>
      rw [narrow]
      split
      · rename_i large
        have middle : items[base + size / 2]? = some items[base + size / 2] :=
          List.getElem?_eq_getElem (by omega)
        generalize items[base + size / 2] = item at middle
        simp only [middle]
        by_cases past : target < item
        · have left : place < base + size / 2 := by
            by_contra right
            rcases Nat.lt_or_eq_of_le (Nat.le_of_not_lt right) with later | same
            · exact absurd (getElem?_le sorted later middle stands) (not_le.mpr past)
            · rw [← same, middle] at stands
              exact absurd (Option.some.inj stands) (ne_of_gt past)
          rw [if_pos past]
          exact ih (size - size / 2) (by omega) (by omega) after (by omega) stands
        · rw [if_neg past]
          by_cases right : base + size / 2 ≤ place
          · exact ih (size - size / 2) (by omega) (by omega) right (by omega) stands
          · have atMost := getElem?_le sorted (Nat.lt_of_not_le right) stands middle
            have equal : item = target := le_antisymm (not_lt.mp past) atMost
            rw [equal] at middle
            exact ih (size - size / 2) (by omega) (by omega) (Nat.le_refl _) (by omega) middle
      · rename_i small
        have only : place = base := by omega
        rwa [only] at stands

theorem contains_iff (sorted : items.Pairwise (· ≤ ·)) : contains items target = true ↔ target ∈ items := by
  unfold contains
  rw [decide_eq_true_iff]
  constructor
  · intro found
    exact List.mem_of_getElem? found
  · intro member
    obtain ⟨place, inside, rfl⟩ := List.getElem_of_mem member
    exact narrow_finds sorted (by omega) (Nat.zero_le place) (by omega)
      (List.getElem?_eq_getElem inside)

/-! ### Where a list stops being before -/

section Partition

variable {β : Type} {before : β → Bool} {rows : List β}

/-- The last place known to be before, of the `size` places from `base` on. -/
def seek (before : β → Bool) (rows : List β) (base size : Nat) : Nat :=
  if 1 < size then
    match rows[base + size / 2]? with
    | none => base
    | some row =>
        if before row then seek before rows (base + size / 2) (size - size / 2)
        else seek before rows base (size - size / 2)
  else base
termination_by size
decreasing_by
  · omega
  · omega

def partitionPoint (before : β → Bool) (rows : List β) : Nat :=
  match rows[seek before rows 0 rows.length]? with
  | none => 0
  | some row =>
      if before row then seek before rows 0 rows.length + 1 else seek before rows 0 rows.length

/-- Nothing after the first row that is not before is before. -/
def Partitioned (before : β → Bool) (rows : List β) : Prop :=
  rows.Pairwise fun first second => before second = true → before first = true

theorem Partitioned.before_iff (partitioned : Partitioned before rows) {place : Nat} {row : β}
    (stands : rows[place]? = some row) :
    before row = true ↔ place < (rows.takeWhile before).length := by
  induction rows generalizing place with
  | nil => simp at stands
  | cons first rest ih =>
      obtain ⟨later, tail⟩ := List.pairwise_cons.mp partitioned
      cases place with
      | zero =>
          obtain rfl := Option.some.inj stands
          by_cases here : before first = true
          · simp [here]
          · simp [here]
      | succ place =>
          have stands : rest[place]? = some row := stands
          by_cases here : before first = true
          · rw [List.takeWhile_cons, if_pos here, List.length_cons, ih tail stands]
            omega
          · have not : ¬before row = true := fun now =>
              here (later row (List.mem_of_getElem? stands) now)
            simp [here, not]

/-- The search keeps the end of what is before within its places. -/
theorem seek_bounds (partitioned : Partitioned before rows) {base size : Nat} (some_ : 0 < size)
    (inside : base + size ≤ rows.length)
    (left : base = 0 ∨ base < (rows.takeWhile before).length)
    (right : (rows.takeWhile before).length ≤ base + size) :
    seek before rows base size < rows.length ∧
      (seek before rows base size = 0 ∨
        seek before rows base size < (rows.takeWhile before).length) ∧
      (rows.takeWhile before).length ≤ seek before rows base size + 1 := by
  induction size using Nat.strongRecOn generalizing base with
  | ind size ih =>
      rw [seek]
      split
      · rename_i large
        have middle : rows[base + size / 2]? = some rows[base + size / 2] :=
          List.getElem?_eq_getElem (by omega)
        have decides := partitioned.before_iff middle
        generalize rows[base + size / 2] = row at middle decides
        simp only [middle]
        by_cases here : before row = true
        · rw [if_pos here]
          have past := decides.mp here
          exact ih (size - size / 2) (by omega) (by omega) (by omega) (.inr past) (by omega)
        · rw [if_neg here]
          have stops : ¬base + size / 2 < (rows.takeWhile before).length := fun now =>
            here (decides.mpr now)
          exact ih (size - size / 2) (by omega) (by omega) (by omega) left (by omega)
      · exact ⟨by omega, left, by omega⟩

theorem partitionPoint_eq (partitioned : Partitioned before rows) :
    partitionPoint before rows = (rows.takeWhile before).length := by
  unfold partitionPoint
  cases rows with
  | nil => rfl
  | cons first rest =>
      have shorter := (List.takeWhile_prefix before (l := first :: rest)).length_le
      have bounds := @seek_bounds _ _ _ partitioned 0 (first :: rest).length
        (Nat.succ_pos rest.length) (by omega) (.inl rfl) (by omega)
      generalize seek before (first :: rest) 0 (first :: rest).length = place at bounds ⊢
      obtain ⟨inside, left, right⟩ := bounds
      have stands : (first :: rest)[place]? = some (first :: rest)[place] :=
        List.getElem?_eq_getElem inside
      have decides := partitioned.before_iff stands
      generalize (first :: rest)[place] = row at stands decides
      rw [stands]
      by_cases here : before row = true
      · have past := decides.mp here
        simp only [here, if_true]
        omega
      · have stops : ¬place < ((first :: rest).takeWhile before).length := fun now =>
          here (decides.mpr now)
        simp only [here]
        rw [if_neg Bool.false_ne_true]
        omega

theorem Partitioned.filter_eq (partitioned : Partitioned before rows) :
    (rows.filter fun row => !before row) = rows.dropWhile before := by
  induction rows with
  | nil => rfl
  | cons first rest ih =>
      obtain ⟨later, tail⟩ := List.pairwise_cons.mp partitioned
      by_cases here : before first = true
      · simp [here, ih tail]
      · have rest_ : rest.filter (fun row => !before row) = rest := by
          refine List.filter_eq_self.mpr fun row member => ?_
          have not : ¬before row = true := fun now => here (later row member now)
          simpa using not
        simp [here, rest_]

/-- From there on, what is left are the rows that are not before. -/
theorem drop_partitionPoint (partitioned : Partitioned before rows) :
    rows.drop (partitionPoint before rows) = rows.filter fun row => !before row := by
  have parts := List.takeWhile_append_dropWhile (p := before) (l := rows)
  rw [partitionPoint_eq partitioned, partitioned.filter_eq]
  calc rows.drop (rows.takeWhile before).length
      = (rows.takeWhile before ++ rows.dropWhile before).drop (rows.takeWhile before).length := by
        rw [parts]
    _ = rows.dropWhile before := List.drop_left

end Partition

end BinarySearch
