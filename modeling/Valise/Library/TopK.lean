import Valise.Library.Numerals

/-!
The first items of a list in some order, kept in a bounded list whose last item is the worst.
-/

namespace TopKs

variable {α : Type} (before : α → α → Prop) [DecidableRel before]

/-- When the list is full, an item comes in only in the place of the worst one. -/
def keepBest (cap : Nat) (kept : List α) (item : α) : List α :=
  if kept.length < cap then kept.orderedInsert before item
  else
    match kept.getLast? with
    | none => kept
    | some worst => if before item worst then kept.dropLast.orderedInsert before item else kept

def boundedTop (cap : Nat) (items : List α) : List α := items.foldl (keepBest before cap) []

/-- The list has the first `cap` of the items, in order. -/
structure IsTop (cap : Nat) (items top : List α) : Prop where
  sorted : top.Pairwise before
  among : ∀ item ∈ top, item ∈ items
  few : top.length ≤ cap
  rest : ∀ item ∈ items, item ∈ top ∨ top.length = cap ∧ ∀ better ∈ top, before better item

/-- Any two items are apart in the order. -/
structure Ranks : Prop where
  irrefl : ∀ item, ¬before item item
  trans : ∀ first second third, before first second → before second third → before first third
  total : ∀ first second, first ≠ second → before first second ∨ before second first

variable {before} {cap : Nat} {items top : List α} {item : α}

theorem Ranks.orderedInsert (ranks : Ranks before) (sorted : top.Pairwise before)
    (new : item ∉ top) : (top.orderedInsert before item).Pairwise before := by
  induction top with
  | nil => exact List.pairwise_singleton _ _
  | cons first rest ih =>
      obtain ⟨ahead, sorted⟩ := List.pairwise_cons.mp sorted
      rw [List.mem_cons, not_or] at new
      rw [List.orderedInsert_cons]
      split
      · rename_i better
        refine List.pairwise_cons.mpr ⟨?_, List.pairwise_cons.mpr ⟨ahead, sorted⟩⟩
        intro other member
        rcases List.mem_cons.mp member with rfl | later
        · exact better
        · exact ranks.trans _ _ _ better (ahead other later)
      · rename_i worse
        refine List.pairwise_cons.mpr ⟨?_, ih sorted new.2⟩
        intro other member
        rcases (List.mem_orderedInsert before).mp member with rfl | later
        · exact (ranks.total _ _ new.1).resolve_left worse
        · exact ahead other later

theorem Ranks.insertionSort (ranks : Ranks before) (nodup : items.Nodup) :
    (items.insertionSort before).Pairwise before := by
  induction items with
  | nil => exact .nil
  | cons first rest ih =>
      obtain ⟨new, nodup⟩ := List.nodup_cons.mp nodup
      refine ranks.orderedInsert (ih nodup) ?_
      exact fun member => new ((List.mem_insertionSort before).mp member)

omit [DecidableRel before] in
theorem IsTop.nodup (ranks : Ranks before) (isTop : IsTop before cap items top) : top.Nodup :=
  by
  refine isTop.sorted.imp ?_
  rintro first _ ahead rfl
  exact ranks.irrefl first ahead

/-- The order in which the kept items come does not matter, once they are sorted. -/
theorem IsTop.sort (ranks : Ranks before) (isTop : IsTop before cap items top) :
    IsTop before cap items (top.insertionSort before) := by
  have same := List.perm_insertionSort before top
  refine ⟨ranks.insertionSort (isTop.nodup ranks), ?_, ?_, ?_⟩
  · exact fun item member => isTop.among item (same.mem_iff.mp member)
  · exact same.length_eq ▸ isTop.few
  · intro item member
    refine (isTop.rest item member).imp same.mem_iff.mpr ?_
    rintro ⟨full, ahead⟩
    exact ⟨same.length_eq.trans full, fun better kept => ahead better (same.mem_iff.mp kept)⟩

theorem isTop_all (ranks : Ranks before) (nodup : items.Nodup) (few : items.length ≤ cap) :
    IsTop before cap items (items.insertionSort before) := by
  have same := List.perm_insertionSort before items
  exact ⟨ranks.insertionSort nodup, fun item => same.mem_iff.mp, same.length_eq ▸ few,
    fun item member => .inl (same.mem_iff.mpr member)⟩

theorem IsTop.keepBest (ranks : Ranks before) (isTop : IsTop before cap items top)
    (positive : 0 < cap) (new : item ∉ items) :
    IsTop before cap (items ++ [item]) (keepBest before cap top item) := by
  have apart : item ∉ top := fun member => new (isTop.among item member)
  unfold TopKs.keepBest
  split
  · rename_i room
    refine ⟨ranks.orderedInsert isTop.sorted apart, ?_, ?_, ?_⟩
    · intro other member
      rcases (List.mem_orderedInsert before).mp member with rfl | kept
      · exact List.mem_append_right _ (List.mem_singleton_self _)
      · exact List.mem_append_left _ (isTop.among other kept)
    · rw [List.orderedInsert_length]
      exact room
    · intro other member
      refine .inl ((List.mem_orderedInsert before).mpr ?_)
      rcases List.mem_append.mp member with old | last
      · refine .inr ((isTop.rest other old).resolve_right ?_)
        rintro ⟨full, _⟩
        exact absurd full room.ne
      · exact .inl (List.mem_singleton.mp last)
  · rename_i noRoom
    have full : top.length = cap := Nat.le_antisymm isTop.few (Nat.le_of_not_lt noRoom)
    rcases List.eq_nil_or_concat' top with rfl | ⟨init, worst, rfl⟩
    · exact absurd full positive.ne
    rw [List.getLast?_concat, List.dropLast_concat]
    obtain ⟨sorted, _, ahead⟩ := List.pairwise_append.mp isTop.sorted
    have ahead (other : α) (member : other ∈ init) : before other worst :=
      ahead other member worst (List.mem_singleton_self _)
    have inside : worst ∈ init ++ [worst] := List.mem_append_right _ (List.mem_singleton_self _)
    rw [List.mem_append, not_or] at apart
    dsimp only
    split
    · rename_i better
      have length : (init.orderedInsert before item).length = cap := by
        rw [List.orderedInsert_length, ← full, List.length_append, List.length_singleton]
      refine ⟨ranks.orderedInsert sorted apart.1, ?_, length.le, ?_⟩
      · intro other member
        rcases (List.mem_orderedInsert before).mp member with rfl | kept
        · exact List.mem_append_right _ (List.mem_singleton_self _)
        · exact List.mem_append_left _ (isTop.among other (List.mem_append_left _ kept))
      · intro other member
        -- An item that is worse than the worst is worse than everything that is kept.
        have beyond (later : before worst other ∨ worst = other) :
            ∀ kept ∈ init.orderedInsert before item, before kept other := by
          intro kept member
          have first : before kept worst := by
            rcases (List.mem_orderedInsert before).mp member with rfl | old
            · exact better
            · exact ahead kept old
          rcases later with behind | rfl
          · exact ranks.trans _ _ _ first behind
          · exact first
        rcases List.mem_append.mp member with old | last
        · rcases isTop.rest other old with kept | ⟨_, behind⟩
          · rcases List.mem_append.mp kept with earlier | last
            · exact .inl ((List.mem_orderedInsert before).mpr (.inr earlier))
            · exact .inr ⟨length, beyond (.inr (List.mem_singleton.mp last).symm)⟩
          · exact .inr ⟨length, beyond (.inl (behind worst inside))⟩
        · exact .inl ((List.mem_orderedInsert before).mpr (.inl (List.mem_singleton.mp last)))
    · rename_i worse
      refine ⟨isTop.sorted, fun other member => List.mem_append_left _ (isTop.among other member),
        isTop.few, ?_⟩
      intro other member
      rcases List.mem_append.mp member with old | last
      · exact isTop.rest other old
      · obtain rfl := List.mem_singleton.mp last
        refine .inr ⟨full, fun kept there => ?_⟩
        have behind : before worst other :=
          (ranks.total _ _ fun same => apart.2 (List.mem_singleton.mpr same)).resolve_left worse
        rcases List.mem_append.mp there with earlier | last
        · exact ranks.trans _ _ _ (ahead kept earlier) behind
        · exact (List.mem_singleton.mp last) ▸ behind

/-- The bounded list has the first items of all that it was given. -/
theorem boundedTop_isTop (ranks : Ranks before) (positive : 0 < cap) (nodup : items.Nodup) :
    IsTop before cap items (boundedTop before cap items) := by
  induction items using List.reverseRecOn with
  | nil => exact ⟨.nil, nofun, Nat.zero_le _, nofun⟩
  | append_singleton items item ih =>
      obtain ⟨nodup, _, apart⟩ := List.nodup_append.mp nodup
      unfold boundedTop
      rw [List.foldl_concat]
      refine (ih nodup).keepBest ranks positive fun member => ?_
      exact apart item member item (List.mem_singleton_self _) rfl

omit [DecidableRel before] in
theorem Ranks.asymm (ranks : Ranks before) {first second : α} (ahead : before first second) :
    ¬before second first :=
  fun behind => ranks.irrefl first (ranks.trans _ _ _ ahead behind)

omit [DecidableRel before] in
theorem Ranks.eq_of_perm (ranks : Ranks before) {other : List α} (same : top.Perm other)
    (sorted : top.Pairwise before) (also : other.Pairwise before) : top = other := by
  refine same.eq_of_pairwise ?_ sorted also
  intro first second _ _ ahead behind
  exact absurd behind (ranks.asymm ahead)

/-- One list alone has the first items in order. -/
theorem IsTop.eq_take (ranks : Ranks before) (nodup : items.Nodup)
    (isTop : IsTop before cap items top) : top = (items.insertionSort before).take cap := by
  classical
  let sorted := items.insertionSort before
  let others := sorted.filter (· ∉ top)
  have ordered : sorted.Pairwise before := ranks.insertionSort nodup
  have same := List.perm_insertionSort before items
  have inside : sorted.Perm (top ++ others) := by
    refine (List.perm_ext_iff_of_nodup (same.symm.nodup nodup) ?_).mpr ?_
    · refine List.nodup_append.mpr ⟨isTop.nodup ranks, (same.symm.nodup nodup).filter _, ?_⟩
      rintro item kept _ other rfl
      simp [others, kept] at other
    · intro item
      have among : item ∈ top → item ∈ sorted := fun kept => same.mem_iff.mpr (isTop.among _ kept)
      simp only [List.mem_append, others, List.mem_filter, decide_eq_true_eq]
      tauto
  have split : sorted = top ++ others := by
    refine ranks.eq_of_perm inside ordered ?_
    refine List.pairwise_append.mpr ⟨isTop.sorted, ordered.filter _, ?_⟩
    intro kept member item other
    simp only [others, List.mem_filter, decide_eq_true_eq] at other
    have item := isTop.rest item (same.mem_iff.mp other.1)
    exact (item.resolve_left other.2).2 kept member
  change top = sorted.take cap
  rw [split]
  rcases others.eq_nil_or_concat' with none | ⟨_, other, some⟩
  · rw [none, List.append_nil, List.take_of_length_le isTop.few]
  · have other : other ∈ others := some ▸ List.mem_append_right _ (List.mem_singleton_self _)
    simp only [others, List.mem_filter, decide_eq_true_eq] at other
    have full := (isTop.rest _ (same.mem_iff.mp other.1)).resolve_left other.2
    rw [← full.1, List.take_left]

/-- Of sorted items, the ones with fewer than `cap` items before them are the first. -/
theorem Ranks.filter_countP (ranks : Ranks before) {front back : List α}
    (sorted : (front ++ back).Pairwise before) :
    back.filter (fun item => (front ++ back).countP (before · item) < cap) =
      back.take (cap - front.length) := by
  induction back generalizing front with
  | nil => simp
  | cons item back ih =>
      have parts : front ++ item :: back = (front ++ [item]) ++ back := by simp
      obtain ⟨_, behind, ahead⟩ := List.pairwise_append.mp sorted
      have place : (front ++ item :: back).countP (before · item) = front.length := by
        have early : front.countP (before · item) = front.length :=
          List.countP_eq_length.mpr fun other member =>
            decide_eq_true (ahead other member item (List.mem_cons_self ..))
        have late : (item :: back).countP (before · item) = 0 := by
          refine List.countP_eq_zero.mpr fun other member => ?_
          rw [decide_eq_true_eq]
          rcases List.mem_cons.mp member with rfl | later
          · exact ranks.irrefl other
          · exact ranks.asymm ((List.pairwise_cons.mp behind).1 other later)
        rw [List.countP_append, early, late, Nat.add_zero]
      have rest := ih (parts ▸ sorted)
      rw [← parts, List.length_append, List.length_singleton] at rest
      rw [List.filter_cons, place, rest]
      by_cases room : front.length < cap
      · obtain ⟨left, more⟩ := Nat.exists_eq_add_of_lt room
        rw [if_pos (decide_eq_true room), show cap - front.length = left + 1 by omega,
          List.take_succ_cons, show cap - (front.length + 1) = left by omega]
      · rw [if_neg (by simpa using room), show cap - front.length = 0 by omega,
          show cap - (front.length + 1) = 0 by omega]
        rfl

theorem Ranks.length_filter (ranks : Ranks before) (nodup : items.Nodup) :
    (items.filter fun item => items.countP (before · item) < cap).length =
      min cap items.length := by
  have same := List.perm_insertionSort before items
  have counts (item : α) : items.countP (before · item) =
      (items.insertionSort before).countP (before · item) := same.symm.countP_eq _
  have sorted : ([] ++ items.insertionSort before).Pairwise before := ranks.insertionSort nodup
  have taken : (items.insertionSort before).filter
      (fun item => (items.insertionSort before).countP (before · item) < cap) =
        (items.insertionSort before).take cap := ranks.filter_countP sorted
  simp only [counts]
  rw [← (same.filter _).length_eq, taken, List.length_take, same.length_eq]

theorem keepBest_subset (kept : List α) (item : α) {other : α}
    (member : other ∈ keepBest before cap kept item) : other ∈ kept ∨ other = item := by
  unfold TopKs.keepBest at member
  split at member
  · exact ((List.mem_orderedInsert before).mp member).symm
  · split at member
    · exact .inl member
    · split at member
      · rcases (List.mem_orderedInsert before).mp member with same | old
        · exact .inr same
        · exact .inl (List.dropLast_subset _ old)
      · exact .inl member

theorem boundedTop_subset {other : α} (member : other ∈ boundedTop before cap items) :
    other ∈ items := by
  induction items using List.reverseRecOn with
  | nil => exact absurd member (List.not_mem_nil)
  | append_singleton items item ih =>
      unfold boundedTop at member
      rw [List.foldl_concat] at member
      rcases keepBest_subset _ _ member with old | rfl
      · exact List.mem_append_left _ (ih old)
      · exact List.mem_append_right _ (List.mem_singleton_self _)

section Agreement

variable {also : α → α → Prop} [DecidableRel also]

theorem insertionSort_congr
    (agree : ∀ first ∈ items, ∀ second ∈ items, before first second ↔ also first second) :
    items.insertionSort before = items.insertionSort also := by
  simpa using List.map_insertionSort (f := id) before also items agree

theorem orderedInsert_congr (item : α) (agree : ∀ other ∈ top, before item other ↔ also item other) :
    top.orderedInsert before item = top.orderedInsert also item := by
  induction top with
  | nil => rfl
  | cons first rest ih =>
      simp only [List.orderedInsert_cons]
      simp only [agree first (List.mem_cons_self ..)]
      rw [ih fun other member => agree other (List.mem_cons_of_mem _ member)]

/-- Two orders that agree on the items keep the same ones. -/
theorem boundedTop_congr
    (agree : ∀ first ∈ items, ∀ second ∈ items, before first second ↔ also first second) :
    boundedTop before cap items = boundedTop also cap items := by
  induction items using List.reverseRecOn with
  | nil => rfl
  | append_singleton items item ih =>
      have last : item ∈ items ++ [item] := List.mem_append_right _ (List.mem_singleton_self _)
      have early {other : α} (kept : other ∈ boundedTop also cap items) : other ∈ items ++ [item] :=
        List.mem_append_left _ (boundedTop_subset kept)
      have before := ih fun first left second right =>
        agree first (List.mem_append_left _ left) second (List.mem_append_left _ right)
      unfold boundedTop at before ⊢
      rw [List.foldl_concat, List.foldl_concat, before]
      change TopKs.keepBest _ cap (boundedTop also cap items) item =
        TopKs.keepBest _ cap (boundedTop also cap items) item
      unfold TopKs.keepBest
      split
      · exact orderedInsert_congr item fun other kept => agree item last other (early kept)
      · cases worst : (boundedTop also cap items).getLast? with
        | none => rfl
        | some worst =>
            have kept := early (List.mem_of_getLast? worst)
            simp only [agree item last _ kept]
            rw [orderedInsert_congr item fun other kept =>
              agree item last other (early (List.dropLast_subset _ kept))]

end Agreement

end TopKs
