import Valise.Library.TopK

/-!
Keeping a number of the nearest items without sorting them: a histogram of the distances gives the
distance up to which items are kept, and how many of those at it.
-/

namespace Selections

variable {α : Type}

/-- How many items have each distance below `bins`. -/
def histogram (bins : Nat) (distances : List Nat) : List Nat :=
  (List.range bins).map fun distance => distances.count distance

/-- The distance at which the counts reach the budget, and how many items are nearer. -/
def threshold (budget last : Nat) : List Nat → Nat → Nat → Nat × Nat
  | [], _, nearer => (last, nearer)
  | count :: counts, distance, nearer =>
      if budget ≤ nearer + count then (distance, nearer)
      else threshold budget last counts (distance + 1) (nearer + count)

/-- All items nearer than the limit, and the first `room` of those at it. -/
def keepWithin (limit : Nat) : Nat → List (α × Nat) → List α
  | _, [] => []
  | room, (item, distance) :: rest =>
      if distance < limit then item :: keepWithin limit room rest
      else if distance = limit ∧ 0 < room then item :: keepWithin limit (room - 1) rest
      else keepWithin limit room rest

def selectNearest (bins budget : Nat) (items : List (α × Nat)) : List α :=
  let (limit, nearer) := threshold budget (bins - 1) (histogram bins (items.map Prod.snd)) 0 0
  keepWithin limit (budget - nearer) items

/-! ### What is kept -/

/-- Of the items after those in `seen`, the ones with fewer than `budget` items ahead of them: an
item is ahead when it is nearer, or as near and earlier. -/
def nearestFrom (budget : Nat) (all : List Nat) : List Nat → List (α × Nat) → List α
  | _, [] => []
  | seen, (item, distance) :: rest =>
      if all.countP (· < distance) + seen.count distance < budget then
        item :: nearestFrom budget all (seen ++ [distance]) rest
      else nearestFrom budget all (seen ++ [distance]) rest

def nearest (budget : Nat) (items : List (α × Nat)) : List α :=
  nearestFrom budget (items.map Prod.snd) [] items

section Threshold

variable {distances : List Nat}

theorem countP_lt_succ (distance : Nat) : distances.countP (· < distance + 1) =
    distances.countP (· < distance) + distances.count distance := by
  induction distances with
  | nil => rfl
  | cons first rest ih =>
      simp only [List.countP_cons, List.count_cons, decide_eq_true_eq, ih, beq_iff_eq]
      split_ifs <;> omega

theorem countP_lt_mono {near far : Nat} (bound : near ≤ far) :
    distances.countP (· < near) ≤ distances.countP (· < far) := by
  refine List.countP_mono_left fun distance _ below => ?_
  rw [decide_eq_true_eq] at below ⊢
  omega

theorem countP_lt_all {limit : Nat} (all : ∀ distance ∈ distances, distance < limit) :
    distances.countP (· < limit) = distances.length :=
  List.countP_eq_length.mpr fun distance member => decide_eq_true (all distance member)

/-- Fewer than the budget are nearer than any distance below the limit; with those at the limit
the budget is reached, or there are no more items. -/
structure Splits (budget : Nat) (distances : List Nat) (limit nearer : Nat) : Prop where
  nearer : nearer = distances.countP (· < limit)
  below : ∀ distance < limit, distances.countP (· < distance + 1) < budget
  reached : budget ≤ distances.countP (· < limit + 1) ∨ ∀ distance ∈ distances, distance < limit

/-- Each step of the loop is at a distance below which the budget is not reached. -/
theorem threshold_splits {budget last : Nat} (bounded : ∀ distance ∈ distances, distance < last)
    (counts start : Nat) (covers : start + counts = last + 1)
    (below : ∀ distance < start, distances.countP (· < distance + 1) < budget) :
    Splits budget distances
      (threshold budget last ((List.range' start counts).map distances.count) start
        (distances.countP (· < start))).1
      (threshold budget last ((List.range' start counts).map distances.count) start
        (distances.countP (· < start))).2 := by
  induction counts generalizing start with
  | zero =>
      simp only [List.range'_zero, List.map_nil, threshold]
      refine ⟨?_, fun distance near => below distance (by omega), .inr bounded⟩
      rw [countP_lt_all bounded, countP_lt_all fun distance member => ?_]
      exact Nat.lt_trans (bounded distance member) (by omega)
  | succ counts ih =>
      rw [List.range'_succ, List.map_cons, threshold]
      have next : distances.countP (· < start + 1) =
          distances.countP (· < start) + distances.count start := countP_lt_succ start
      split
      · next enough => exact ⟨rfl, below, .inl (by rw [next]; exact enough)⟩
      · next short =>
          rw [← next]
          refine ih (start + 1) (by omega) fun distance near => ?_
          rcases Nat.lt_succ_iff_lt_or_eq.mp near with earlier | rfl
          · exact below distance earlier
          · rw [next]
            exact Nat.lt_of_not_le short

end Threshold

section Selected

variable {budget limit nearer : Nat} {all seen : List Nat}

/-- The room left at the limit is what the items seen there have not used. -/
theorem keepWithin_eq (splits : Splits budget all limit nearer) (items : List (α × Nat))
    (parts : seen ++ items.map Prod.snd = all) :
    keepWithin limit (budget - nearer - seen.count limit) items =
      nearestFrom budget all seen items := by
  induction items generalizing seen with
  | nil => rfl
  | cons entry rest ih =>
      obtain ⟨item, distance⟩ := entry
      have continued : (seen ++ [distance]) ++ rest.map Prod.snd = all := by
        rw [← parts]
        simp
      have ih := ih continued
      have here : seen.count distance + 1 ≤ all.count distance := by
        rw [← parts]
        simp
      have next : all.countP (· < distance + 1) =
          all.countP (· < distance) + all.count distance := countP_lt_succ distance
      rw [keepWithin, nearestFrom]
      split
      · next near =>
          have few := splits.below distance near
          rw [if_pos (by omega)]
          rw [List.count_append, List.count_singleton, 
            if_neg (by simpa using Nat.ne_of_lt near), Nat.add_zero] at ih
          rw [ih]
      · next far =>
          split
          · next room =>
              obtain ⟨rfl, room⟩ := room
              have same := splits.nearer
              rw [if_pos (by omega)]
              rw [List.count_append, List.count_singleton_self] at ih
              rw [← ih, Nat.sub_sub _ _ 1]
          · next full =>
              have known : distance ∈ all := by
                rw [← parts]
                simp
              rcases Nat.lt_or_eq_of_le (Nat.le_of_not_lt far) with beyond | rfl
              · have reached : budget ≤ all.countP (· < limit + 1) :=
                  splits.reached.resolve_right fun inside => far (inside distance known)
                have more : all.countP (· < limit + 1) ≤ all.countP (· < distance) :=
                  countP_lt_mono beyond
                rw [if_neg (by omega)]
                rw [List.count_append, List.count_singleton,
                  if_neg (by simpa using Nat.ne_of_gt beyond), Nat.add_zero] at ih
                exact ih
              · have none : budget - nearer - seen.count limit = 0 := by omega
                have same := splits.nearer
                rw [if_neg (by omega), none]
                rw [List.count_append, List.count_singleton_self, ← Nat.sub_sub, none,
                  Nat.zero_sub] at ih
                exact ih

/-- The scan keeps the items with fewer than `budget` items ahead of them. -/
theorem selectNearest_eq {bins : Nat} (items : List (α × Nat))
    (bounded : ∀ distance ∈ items.map Prod.snd, distance + 1 < bins) :
    selectNearest bins budget items = nearest budget items := by
  cases items with
  | nil => rfl
  | cons first rest =>
      have known : first.2 + 1 < bins := bounded _ List.mem_cons_self
      have few : ∀ distance ∈ (first :: rest).map Prod.snd, distance < bins - 1 := by
        intro distance member
        have := bounded distance member
        omega
      have splits := @threshold_splits _ budget _ few bins 0 (by omega) nofun
      rw [← List.range_eq_range'] at splits
      have none : ((first :: rest).map Prod.snd).countP (· < 0) = 0 := by simp
      rw [none] at splits
      exact keepWithin_eq splits (first :: rest) (List.nil_append _)

end Selected

/-! ### How many are kept -/

section Places

variable {dist : Nat → Nat} {count budget : Nat}

/-- An item is ahead of another that is farther, and of a later one that is as far. -/
def Ahead (dist : Nat → Nat) (first second : Nat) : Prop :=
  dist first < dist second ∨ dist first = dist second ∧ first < second

instance (first second : Nat) : Decidable (Ahead dist first second) :=
  inferInstanceAs (Decidable (_ ∨ _))

theorem ahead_ranks (dist : Nat → Nat) : TopKs.Ranks (Ahead dist) := by
  constructor
  · intro place
    unfold Ahead
    omega
  · intro first second third
    unfold Ahead
    omega
  · intro first second
    unfold Ahead
    omega

theorem countP_add {either left right : α → Bool} {items : List α}
    (parts : ∀ item ∈ items, either item = (left item || right item))
    (apart : ∀ item ∈ items, left item = true → right item = false) :
    items.countP either = items.countP left + items.countP right := by
  induction items with
  | nil => rfl
  | cons item rest ih =>
      have here := parts item (List.mem_cons_self ..)
      have alone := apart item (List.mem_cons_self ..)
      have rest := ih (fun item member => parts item (List.mem_cons_of_mem _ member))
        fun item member => apart item (List.mem_cons_of_mem _ member)
      rw [List.countP_cons, List.countP_cons, List.countP_cons, rest, here]
      cases first : left item <;> cases second : right item <;> simp_all <;> omega

/-- The items ahead of one are the nearer ones, and the earlier ones that are as near. -/
theorem countP_ahead {place : Nat} (inside : place < count) :
    (List.range count).countP (Ahead dist · place) =
      (List.range count).countP (fun other => dist other < dist place) +
        (List.range place).countP (fun other => dist other = dist place) := by
  have both : (List.range count).countP (Ahead dist · place) =
      (List.range count).countP (fun other => dist other < dist place) +
        (List.range count).countP fun other => dist other = dist place ∧ other < place := by
    refine countP_add (fun other _ => ?_) fun other _ nearer => ?_
    · exact Bool.decide_or _ _
    · have nearer : dist other < dist place := of_decide_eq_true nearer
      exact decide_eq_false (by omega)
  rw [both]
  refine congrArg _ ?_
  obtain ⟨more, rfl⟩ := Nat.exists_eq_add_of_le inside.le
  rw [List.range_add, List.countP_append]
  have late : ((List.range more).map (place + ·)).countP
      (fun other => dist other = dist place ∧ other < place) = 0 := by
    refine List.countP_eq_zero.mpr fun other member => ?_
    obtain ⟨offset, _, rfl⟩ := List.mem_map.mp member
    simp
  rw [late, Nat.add_zero]
  refine List.countP_congr fun other member => ?_
  have early := List.mem_range.mp member
  simp [early]

theorem nearestFrom_places (start more : Nat) :
    nearestFrom budget ((List.range count).map dist) ((List.range start).map dist)
        ((List.range' start more).map fun place => (place, dist place)) =
      (List.range' start more).filter fun place =>
        (List.range count).countP (fun other => dist other < dist place) +
          (List.range place).countP (fun other => dist other = dist place) < budget := by
  induction more generalizing start with
  | zero => rfl
  | succ more ih =>
      have seen : (List.range start).map dist ++ [dist start] =
          (List.range (start + 1)).map dist := by
        rw [List.range_succ, List.map_append, List.map_singleton]
      have same : ((List.range start).map dist).count (dist start) =
          (List.range start).countP fun other => dist other = dist start := by
        rw [List.count, List.countP_map]
        exact List.countP_congr fun other _ => by simp
      rw [List.range'_succ, List.map_cons, nearestFrom, seen, ih, same, List.countP_map,
        List.filter_cons]
      simp only [decide_eq_true_eq]
      rfl

/-- The nearest of the items at some places: how many there are, and that they are ahead of the
others. -/
theorem nearest_places (dist : Nat → Nat) (count budget : Nat) :
    ∃ places : List Nat,
      nearest budget ((List.range count).map fun place => (place, dist place)) = places ∧
      places.Sublist (List.range count) ∧ places.length = min budget count ∧
      ∀ kept ∈ places, ∀ other < count, other ∉ places → Ahead dist kept other := by
  have ranks := ahead_ranks dist
  have kept : nearest budget ((List.range count).map fun place => (place, dist place)) =
      (List.range count).filter fun place =>
        (List.range count).countP (Ahead dist · place) < budget := by
    have places := @nearestFrom_places dist count budget 0 count
    rw [← List.range_eq_range'] at places
    have all : ((List.range count).map fun place => (place, dist place)).map Prod.snd =
        (List.range count).map dist := by
      rw [List.map_map]
      rfl
    unfold nearest
    rw [all]
    refine places.trans (List.filter_congr fun place member => ?_)
    rw [countP_ahead (List.mem_range.mp member)]
  refine ⟨_, kept, List.filter_sublist, ?_, ?_⟩
  · rw [ranks.length_filter List.nodup_range, List.length_range]
  · intro place member other inside out
    obtain ⟨known, few⟩ := List.mem_filter.mp member
    have many : ¬(List.range count).countP (Ahead dist · other) < budget := fun less =>
      out (List.mem_filter.mpr ⟨List.mem_range.mpr inside, decide_eq_true less⟩)
    have few := of_decide_eq_true few
    rcases eq_or_ne place other with rfl | apart
    · exact absurd few many
    · refine (ranks.total _ _ apart).resolve_right fun behind => ?_
      -- Everything ahead of the other item would be ahead of this one.
      have more : (List.range count).countP (Ahead dist · other) ≤
          (List.range count).countP (Ahead dist · place) := by
        refine List.countP_mono_left fun first _ ahead => ?_
        exact decide_eq_true (ranks.trans _ _ _ (of_decide_eq_true ahead) behind)
      omega

/-- What is kept does not depend on what the items are. -/
theorem nearest_map {β : Type} (change : α → β) (items : List (α × Nat)) :
    nearest budget (items.map fun item => (change item.1, item.2)) =
      (nearest budget items).map change := by
  have from_ (all seen : List Nat) : nearestFrom budget all seen
      (items.map fun item => (change item.1, item.2)) =
        (nearestFrom budget all seen items).map change := by
    induction items generalizing seen with
    | nil => rfl
    | cons item rest ih =>
        rw [List.map_cons, nearestFrom, nearestFrom, ih]
        split
        · rfl
        · rfl
  unfold nearest
  rw [List.map_map]
  exact from_ _ _

end Places

end Selections
